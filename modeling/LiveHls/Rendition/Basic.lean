import LiveHls.Error
import LiveHls.Mp4.Muxer
import LiveHls.Playlist.Master
import LiveHls.Segment

/-!
# Live renditions

A rendition keeps the last few segments of one source and its index playlist.

* `Rendition.new?` : a rendition with one open segment;
* `Rendition.write` : one more packet; a closed segment is followed by a new one, and the oldest
  segments beyond the retained number are dropped;
* `Rendition.live` : the retained segments, the last of them current;
* `Rendition.render` : the index playlist that describes them.
-/

namespace LiveHls

/-- Timing and retention of a rendition. -/
structure Options where
  segmentDuration : Duration
  partDuration : Duration
  /-- The advertised longest duration of a part. -/
  partTarget : Duration
  /-- Segments retained, counting the current one. -/
  segmentCount : Nat
deriving DecidableEq

namespace Options

/-- Segments of two seconds with four parts, six of them retained. -/
def default : Options := ⟨.ofMillis 2000, .ofMillis 495, .ofMillis 500, 6⟩

instance : Inhabited Options := ⟨default⟩

end Options

/-- The live segments of one source. -/
structure Rendition where
  format : SourceFormat
  options : Options
  /-- The tracks, without packets. -/
  layout : Mp4.Muxer
  /-- The retained segments before the current one, oldest first. -/
  earlier : List Segment
  current : Segment
  /-- The number of segments dropped so far. -/
  mediaSequence : Nat
  /-- The latches that were not released when their segment was dropped. Nothing can release them
  any more, so whoever still waits on one waits for ever. -/
  abandoned : List Awaited
  /-- The index playlist as last rendered. -/
  manifest : List Playlist.Line
  closed : Bool

namespace Rendition

/-- Presentation times are taken modulo one hour. -/
def timestampPeriod : Duration := .ofSeconds 3600

def live (r : Rendition) : List Segment := r.earlier ++ [r.current]

def liveIds (r : Rendition) : List Nat := r.live.map (·.id)

def segment? (r : Rendition) (id : Nat) : Option Segment := r.live.find? (·.id == id)

def render (r : Rendition) : List Playlist.Line :=
  Playlist.header r.options.segmentDuration r.options.partTarget r.mediaSequence
    ++ r.live.flatMap (·.entry)

def refresh (r : Rendition) : Rendition := { r with manifest := r.render }

def newSegment (options : Options) (layout : Mp4.Muxer) (id : Nat) (now : Instant) : Segment :=
  .new id options.segmentDuration options.partDuration layout.hasVideo now

/-- A rendition with one open segment, if the streams can be carried. At least one segment is
retained. -/
def new? (format : SourceFormat) (options : Options) (now : Instant) : Except Error Rendition :=
  (Mp4.Muxer.ofFormat? format).map fun layout =>
    let options := { options with segmentCount := max options.segmentCount 1 }
    refresh
      { format, options, layout
        earlier := []
        current := newSegment options layout 0 now
        mediaSequence := 0
        abandoned := []
        manifest := []
        closed := false }

/-! ## Writing -/

/-- The packet with its time taken modulo the period. -/
def fold (x : Packet) : Packet := { x with timestamp := x.timestamp.modulo timestampPeriod }

/-- Why a packet is not taken, if it is not. -/
def refusalOf? (layout : Mp4.Muxer) (closed : Bool) (x : Packet) : Option Error :=
  if closed then some .closed
  else if x.isEmpty then some (.emptyPacket x.source)
  else if !layout.accepts x then some (.trackMissing x.kind)
  else none

def refusal? (r : Rendition) (x : Packet) : Option Error := refusalOf? r.layout r.closed x

def rollOver (r : Rendition) (now : Instant) : Rendition :=
  { r with
    earlier := r.earlier ++ [r.current]
    current := newSegment r.options r.layout (r.current.id + 1) now }

/-- Drop the oldest segments beyond the retained number. -/
def evict (r : Rendition) : Rendition :=
  let excess := r.live.length - r.options.segmentCount
  { r with
    earlier := r.earlier.drop excess
    mediaSequence := r.mediaSequence + excess
    abandoned := r.abandoned ++ (r.earlier.take excess).flatMap (·.unreleased) }

/-- Add a packet to the current segment. A refused packet changes nothing; a packet whose durations
leave their range keeps what it changed before, without a new index playlist. -/
def write (r : Rendition) (x : Packet) (now : Instant) : Rendition × Except Fault Unit :=
  match r.refusal? x with
  | some e => (r, .error (.error e))
  | none =>
    let (segment, progress) := r.current.write (fold x)
    let r := { r with current := segment }
    match progress with
    | .overflow => (r, .error .durationOverflow)
    | .remainsOpen => (r.refresh, .ok ())
    | .closed => ((r.rollOver now).evict.refresh, .ok ())

/-- Take the rendition down: it accepts no packet, and no read waits any longer. -/
def close (r : Rendition) : Rendition := { r with closed := true }

/-- The rendition as a master playlist lists it. -/
def variant (r : Rendition) (uri : String) : Playlist.Variant where
  bandwidth := r.format.bandwidth
  resolution := r.format.video.map fun v => (v.width, v.height)
  codecs := r.format.codecs
  uri := uri

end Rendition

end LiveHls
