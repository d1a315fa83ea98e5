import LiveHls.Mp4.MovieFragment
import LiveHls.Packet

/-!
# Tracks

A track collects the packets of one elementary stream until they are written as a fragment.

* `TrackLayout.video?`, `TrackLayout.audio?` : the fixed description of a track;
* `Track.push` : one more packet, unless the total duration leaves its range;
* `Track.index`, `Track.fragment` : what the collected packets look like in a fragment.
-/

namespace LiveHls.Mp4

/-- What is known of a track before it has samples. -/
structure TrackLayout where
  id : UInt32
  timescale : UInt32
  /-- The track's box in the initialization segment. -/
  box : Box

namespace TrackLayout

def videoTimescale : UInt32 := 90000

def video? (id : UInt32) (format : VideoFormat) : Except Error TrackLayout :=
  (TrackBox.video? id videoTimescale format).map fun box => ⟨id, videoTimescale, box⟩

/-- An audio track counts in samples, so it needs a sample rate. -/
def audio? (id : UInt32) (format : AudioFormat) : Except Error TrackLayout :=
  if format.sampleRate = 0 then
    .error (.unsupportedCodec (format.codec.name ++ " without sample rate"))
  else (TrackBox.audio? id format.sampleRate format).map fun box => ⟨id, format.sampleRate, box⟩

end TrackLayout

/-- A track and the packets collected for its next fragment. -/
structure Track where
  layout : TrackLayout
  /-- Oldest first. -/
  packets : List Packet
  duration : Duration
  dataSize : Nat

namespace Track

def empty (layout : TrackLayout) : Track := ⟨layout, [], .zero, 0⟩

def reset (t : Track) : Track := empty t.layout

/-- One more packet, unless the total duration leaves its range. -/
def push (t : Track) (p : Packet) : Option Track :=
  (t.duration.add? p.duration).map fun total =>
    { t with packets := t.packets ++ [p], duration := total, dataSize := t.dataSize + p.size }

def isEmpty (t : Track) : Bool := t.packets.isEmpty

def decodeTime (t : Track) : UInt64 :=
  (t.packets.head?.map (·.timestamp.ticks t.layout.timescale)).getD 0

def index (t : Track) : SegmentIndex where
  track := t.layout.id
  timescale := t.layout.timescale
  earliestTime := t.decodeTime
  size := Saturating.toUInt31 t.dataSize
  duration := Saturating.toUInt32 (t.duration.ticks t.layout.timescale).toNat

/-- A packet as a sample of a track that counts in `timescale`. -/
def sample (timescale : UInt32) (p : Packet) : Sample where
  duration := Saturating.toUInt32 (p.duration.ticks timescale).toNat
  size := Saturating.toUInt32 p.size
  flags := if p.isKeyframe then Sample.independentFlags else Sample.dependentFlags

def fragment (t : Track) : TrackFragment :=
  .ofSamples t.layout.id t.decodeTime (t.packets.map (sample t.layout.timescale))

def data (t : Track) : Bytes := t.packets.flatMap (·.payload)

end Track

end LiveHls.Mp4
