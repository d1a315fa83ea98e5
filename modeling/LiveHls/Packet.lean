import LiveHls.Codec
import LiveHls.Duration

/-!
# Packets

A packet is one access unit of video or one frame of audio, with its time, its source and the
format it was coded in.
-/

namespace LiveHls

inductive Medium where
  | video (format : VideoFormat) (keyframe : Bool)
  | audio (format : AudioFormat)
deriving DecidableEq

/-- One timestamped piece of media. -/
structure Packet where
  /-- Presentation time from the start of the stream. -/
  timestamp : Duration
  duration : Duration
  payload : Bytes
  source : String
  stream : UInt8
  medium : Medium
deriving DecidableEq

namespace Packet

def isVideo (p : Packet) : Bool :=
  match p.medium with
  | .video .. => true
  | .audio _ => false

/-- Whether the packet can be decoded without earlier ones; no audio frame is marked so. -/
def isKeyframe (p : Packet) : Bool :=
  match p.medium with
  | .video _ keyframe => keyframe
  | .audio _ => false

def kind (p : Packet) : String := if p.isVideo then "video" else "audio"

def size (p : Packet) : Nat := p.payload.length

def isEmpty (p : Packet) : Bool := p.payload.isEmpty

end Packet

end LiveHls
