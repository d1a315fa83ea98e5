import LiveHls.Bytes
import LiveHls.Text.Hexadecimal

/-!
# Codecs and stream formats

* `VideoFormat`, `AudioFormat` : the parameters of one elementary stream, plain values that are
  compared field by field;
* `SourceFormat` : the streams of one source, at most one of each medium;
* `tag` : the RFC 6381 name of a format, as playlists carry it.
-/

open LiveHls.Text.Hexadecimal (upper)

namespace LiveHls

inductive Codec where
  | h264
  | h265
  | aac
  | opus
  | pcm
  | mjpeg
deriving DecidableEq, Repr

namespace Codec

def isVideo : Codec → Bool
  | h264 | h265 | mjpeg => true
  | aac | opus | pcm => false

def name : Codec → String
  | h264 => "h264"
  | h265 => "h265"
  | aac => "aac"
  | opus => "opus"
  | pcm => "pcm"
  | mjpeg => "mjpeg"

def all : List Codec := [h264, h265, aac, opus, pcm, mjpeg]

def ofName? (text : String) : Option Codec := all.find? (·.name = text)

end Codec

structure VideoFormat where
  codec : Codec
  width : UInt32
  height : UInt32
  fps : UInt32
  bitrate : UInt64
  /-- The decoder configuration record. -/
  decoderConfig : Bytes
deriving DecidableEq

namespace VideoFormat

/-- Number of pixels, by which renditions are ordered. -/
def resolution (f : VideoFormat) : Nat := f.width.toNat * f.height.toNat

def configByte (f : VideoFormat) (i : Nat) : Nat := (f.decoderConfig.getD i 0).toNat

/-- The name of the format. A configuration record too short to hold a profile leaves only the
codec's four letters. -/
def tag (f : VideoFormat) : String :=
  match f.codec with
  | .h264 =>
    if 4 ≤ f.decoderConfig.length then
      "avc1." ++ upper 2 (f.configByte 1) ++ upper 2 (f.configByte 2) ++ upper 2 (f.configByte 3)
    else "avc1"
  | .h265 =>
    if 13 ≤ f.decoderConfig.length then
      "hev1." ++ upper 1 (f.configByte 1 % 32) ++ "." ++ upper 1 (f.configByte 2) ++ ".L"
        ++ upper 2 (f.configByte 12) ++ ".90"
    else "hev1"
  | other => other.name

end VideoFormat

structure AudioFormat where
  codec : Codec
  sampleRate : UInt32
  channels : UInt16
  bitrate : UInt64
  /-- Codec specific configuration; for AAC the AudioSpecificConfig. -/
  decoderConfig : Bytes
deriving DecidableEq

namespace AudioFormat

/-- The MPEG-4 object type in the first five bits of the configuration; AAC-LC if absent. -/
def objectType (f : AudioFormat) : Nat :=
  let stated := (f.decoderConfig.getD 0 0).toNat / 8
  if stated = 0 then 2 else stated

def tag (f : AudioFormat) : String :=
  match f.codec with
  | .aac => "mp4a.40." ++ toString f.objectType
  | other => other.name

end AudioFormat

structure SourceFormat where
  url : String
  video : Option VideoFormat
  audio : Option AudioFormat
deriving DecidableEq

namespace SourceFormat

/-- A source of which no stream is known yet. -/
def unknown (url : String) : SourceFormat := ⟨url, none, none⟩

def isEmpty (s : SourceFormat) : Bool := s.video.isNone && s.audio.isNone

def resolution (s : SourceFormat) : Nat := (s.video.map (·.resolution)).getD 0

/-- The advertised bandwidth: that of the video stream, or of the audio stream without one. -/
def bandwidth (s : SourceFormat) : UInt64 :=
  match s.video, s.audio with
  | some v, _ => v.bitrate
  | none, some a => a.bitrate
  | none, none => 0

/-- The tags of the streams, video first, separated by commas. -/
def codecs (s : SourceFormat) : String :=
  ",".intercalate ((s.video.map (·.tag)).toList ++ (s.audio.map (·.tag)).toList)

end SourceFormat

end LiveHls
