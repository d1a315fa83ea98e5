import LiveHls.Rendition.Read
import Mathlib.Data.Finmap

/-!
# Renditions with a segment map

A rendition is stored as a map from numbers to segments, a queue of the numbers that are live, and
the number of the current segment. Nothing in this form says that the three agree: a number may lead
to no segment, and whoever follows it then fails, leaves it out or breaks down.

* `IndexedRendition.write` : one more packet for the segment that the current number leads to; a new
  segment is put behind a closed one, and the oldest leave the queue and the map one by one;
* `IndexedRendition.render` : the index playlist of the live numbers;
* `IndexedRendition.lookup?` : the answer of a read, or what it waits for; none if it breaks down.

`Rendition` has the live segments themselves, in order.
-/

namespace LiveHls

open Rendition (fold newSegment partAnswer refusalOf? segmentAnswer)

/-- The live segments of one source by their numbers. -/
structure IndexedRendition where
  format : SourceFormat
  options : Options
  /-- The tracks, without packets. -/
  layout : Mp4.Muxer
  segments : Finmap fun _ : Nat => Segment
  /-- The numbers of the retained segments, oldest first. -/
  live : List Nat
  /-- The number of the current segment. -/
  current : Nat
  /-- The number of segments dropped so far. -/
  mediaSequence : Nat
  /-- The index playlist as last rendered. -/
  manifest : List Playlist.Line
  closed : Bool

namespace IndexedRendition

def segment? (s : IndexedRendition) (id : Nat) : Option Segment := s.segments.lookup id

/-- The playlist. A live number that leads to no segment is left out. -/
def render (s : IndexedRendition) : List Playlist.Line :=
  Playlist.header s.options.segmentDuration s.options.partTarget s.mediaSequence
    ++ s.live.flatMap fun id => ((s.segment? id).map (·.entry)).getD []

def refresh (s : IndexedRendition) : IndexedRendition := { s with manifest := s.render }

/-- A rendition with one open segment, if the streams can be carried. -/
def new? (format : SourceFormat) (options : Options) (now : Instant) :
    Except Error IndexedRendition :=
  (Mp4.Muxer.ofFormat? format).map fun layout =>
    let options := { options with segmentCount := max options.segmentCount 1 }
    refresh
      { format, options, layout
        segments := Finmap.singleton 0 (newSegment options layout 0 now)
        live := [0]
        current := 0
        mediaSequence := 0
        manifest := []
        closed := false }

/-! ## Writing -/

def store (s : IndexedRendition) (id : Nat) (segment : Segment) : IndexedRendition :=
  { s with segments := s.segments.insert id segment }

/-- Put a new segment behind the current one. -/
def rollOver (s : IndexedRendition) (now : Instant) : IndexedRendition :=
  let next := s.current + 1
  { s.store next (newSegment s.options s.layout next now) with
    live := s.live ++ [next]
    current := next }

/-- Take the oldest number off the queue and its segment out of the map. -/
def dropOldest (s : IndexedRendition) : IndexedRendition :=
  match s.live with
  | [] => s
  | oldest :: rest =>
    { s with
      live := rest
      segments := s.segments.erase oldest
      mediaSequence := s.mediaSequence + 1 }

theorem length_live_dropOldest (s : IndexedRendition) :
    s.dropOldest.live.length = s.live.length - 1 := by
  unfold dropOldest
  split <;> simp [*]

/-- Drop the oldest segments while more are live than are retained. -/
def evict (s : IndexedRendition) : IndexedRendition :=
  if s.options.segmentCount < s.live.length then s.dropOldest.evict else s
termination_by s.live.length
decreasing_by
  rw [length_live_dropOldest]
  omega

/-- Add a packet to the segment that the current number leads to. It is an error if there is
none. -/
def write (s : IndexedRendition) (x : Packet) (now : Instant) :
    IndexedRendition × Except Fault Unit :=
  match refusalOf? s.layout s.closed x with
  | some e => (s, .error (.error e))
  | none =>
    match s.segment? s.current with
    | none => (s, .error (.error (.notFound "segment" (toString s.current))))
    | some segment =>
      let (segment, progress) := segment.write (fold x)
      let s := s.store s.current segment
      match progress with
      | .overflow => (s, .error .durationOverflow)
      | .remainsOpen => (s.refresh, .ok ())
      | .closed => ((s.rollOver now).evict.refresh, .ok ())

def close (s : IndexedRendition) : IndexedRendition := { s with closed := true }

/-! ## Reading -/

def media (s : IndexedRendition) (packets : List Packet) (sequence : UInt32) : Except Fault Body :=
  (Rendition.collect s.layout packets).map fun m => .media (m.fragment sequence)

def manifestBody (s : IndexedRendition) : Lookup := .found (.ok (.playlist s.manifest))

/-- The index playlist once it covers the segment and, if given, the part. The current segment is
looked at first. -/
def lookupPlaylist? (s : IndexedRendition) (segment : Nat) (part : Option Nat) : Option Lookup :=
  (s.segment? s.current).map fun current =>
    if segment < s.current then s.manifestBody
    else if segment = s.current then
      match part with
      | none => s.manifestBody
      | some p =>
        match current.part? p with
        | some f => if f.isClosed then s.manifestBody else .awaits (.part s.current f.id)
        | none => .awaits (.part s.current current.current.id)
    else .awaits (.segment s.current)

def lookup? (s : IndexedRendition) : Read → Option Lookup
  | .playlist none _ => some s.manifestBody
  | .playlist (some segment) part => s.lookupPlaylist? segment part
  | .segment id => some (segmentAnswer s.media id (s.segment? id))
  | .part segment id => some (partAnswer s.media segment id (s.segment? segment))

end IndexedRendition

end LiveHls
