import LiveHls.Rendition.Basic

/-!
# Reading a rendition

A read of a playlist, a segment or a part has its answer at once or waits for one segment or part
to close.

* `Rendition.lookup` : the answer, or what the read waits for;
* `Rendition.hasClosed` : whether the latch that it waits on has been released, also if the segment
  is no longer retained;
* `Rendition.media` : packets as a fragment, numbered by `sequenceNumber`;
* `Rendition.readNow` : the answer of a read that does not wait.
-/

namespace LiveHls

inductive Read where
  /-- The index playlist; with a segment, not before it covers that segment, and with a part, not
  before it covers that part of it. -/
  | playlist (segment part : Option Nat)
  | segment (id : Nat)
  | part (segment id : Nat)
deriving DecidableEq, Repr

def Read.label : Read → String
  | playlist .. => "playlist"
  | segment _ => "segment"
  | part .. => "fragment"

/-- What a read is answered with. -/
inductive Body where
  | playlist (lines : List Playlist.Line)
  | media (bytes : Bytes)
deriving DecidableEq

/-- The state of a read: it has its result, or it waits. -/
inductive Lookup where
  | found (result : Except Fault Body)
  | awaits (what : Awaited)

/-- Parts counted for a segment in sequence numbers. -/
def partsPerSegment : Nat := 1000

/-- The sequence number of a part, counted from 1 and saturating at 32 bits. Numbers of different
parts differ while a segment has fewer parts than are counted for it. -/
def sequenceNumber (segment part : Nat) : UInt32 :=
  Saturating.toUInt32 (segment * partsPerSegment + part + 1)

namespace Rendition

/-! ## Media -/

/-- Packets collected one after the other; a packet without a track is left out. -/
def collect (layout : Mp4.Muxer) : List Packet → Except Fault Mp4.Muxer
  | [] => .ok layout
  | x :: xs =>
    match layout.write x with
    | .ok m => collect m xs
    | .error (.error _) => collect layout xs
    | .error .durationOverflow => .error .durationOverflow

def media (r : Rendition) (packets : List Packet) (sequence : UInt32) : Except Fault Body :=
  (collect r.layout packets).map fun m => .media (m.fragment sequence)

def initialization (r : Rendition) : Bytes := r.layout.initialization

/-! ## Answers -/

def manifestBody (r : Rendition) : Lookup := .found (.ok (.playlist r.manifest))

/-- The index playlist once it covers the current segment's part. -/
def lookupCurrentPart (r : Rendition) (part : Nat) : Lookup :=
  match r.current.part? part with
  | some p => if p.isClosed then r.manifestBody else .awaits (.part r.current.id p.id)
  | none => .awaits (.part r.current.id r.current.current.id)

/-- The index playlist once it covers the segment and, if given, the part. A playlist covers every
segment before the current one. -/
def lookupPlaylist (r : Rendition) (segment : Nat) (part : Option Nat) : Lookup :=
  if segment < r.current.id then r.manifestBody
  else if r.current.id < segment then .awaits (.segment r.current.id)
  else
    match part with
    | none => r.manifestBody
    | some p => r.lookupCurrentPart p

def segmentMissing (id : Nat) : Lookup :=
  .found (.error (.error (.notFound "segment" (toString id))))

/-- The bytes of the segment that a number leads to, once it is closed. -/
def segmentAnswer (media : List Packet → UInt32 → Except Fault Body) (id : Nat) :
    Option Segment → Lookup
  | none => segmentMissing id
  | some s =>
    if s.isClosed then .found (media s.packets (sequenceNumber id 0)) else .awaits (.segment id)

/-- The bytes of a part of the segment that a number leads to, once the part is closed. A part that
does not exist yet may still come while its segment is open. -/
def partAnswer (media : List Packet → UInt32 → Except Fault Body) (segment id : Nat) :
    Option Segment → Lookup
  | none => segmentMissing segment
  | some s =>
    match s.part? id with
    | some p =>
      if p.isClosed then .found (media p.packets (sequenceNumber segment id))
      else .awaits (.part segment p.id)
    | none =>
      if s.isClosed then
        .found (.error (.error (.notFound "fragment" (toString segment ++ "/" ++ toString id))))
      else .awaits (.part segment s.current.id)

def lookupSegment (r : Rendition) (id : Nat) : Lookup := segmentAnswer r.media id (r.segment? id)

def lookupPart (r : Rendition) (segment id : Nat) : Lookup :=
  partAnswer r.media segment id (r.segment? segment)

def lookup (r : Rendition) : Read → Lookup
  | .playlist none _ => r.manifestBody
  | .playlist (some segment) part => r.lookupPlaylist segment part
  | .segment id => r.lookupSegment id
  | .part segment id => r.lookupPart segment id

/-- Whether the latch that a read waits on has been released. A reader keeps the latch when the
segment is dropped; the latch then stays as it was at that moment. Segments are never numbered like
one before, so the numbers tell which latch it is. -/
def hasClosed (r : Rendition) : Awaited → Bool
  | .segment id =>
    match r.segment? id with
    | some s => s.finished.released
    | none => id < r.mediaSequence && !r.abandoned.contains (.segment id)
  | .part segment id =>
    match r.segment? segment with
    | some s => (s.part? id).any (·.finished.released)
    | none => segment < r.mediaSequence && !r.abandoned.contains (.part segment id)

/-- The result of a read whose time is up as soon as it would wait. -/
def readNow (r : Rendition) (read : Read) : Except Fault Body :=
  match r.lookup read with
  | .found result => result
  | .awaits _ =>
    .error (.error (if r.closed then .closed else .timeout read.label))

end Rendition

end LiveHls
