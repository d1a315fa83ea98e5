import LiveHls.Part

/-!
# Segments

A segment is a run of parts, the last of them current. It closes when the parts closed in it reach
a target duration, always together with its current part.

* `Segment.write` : one more packet for the current part;
* `Segment.parts`, `Segment.part?` : all parts in order, and the part of an id;
* `Segment.unreleased` : the latches of the segment and its parts that are still to be released;
* `Segment.entry` : the segment's lines in the index playlist.
-/

namespace LiveHls

/-- What a read waits for: that this segment or part closes, which releases its latch. -/
inductive Awaited where
  | segment (id : Nat)
  | part (segment id : Nat)
deriving DecidableEq, Repr

/-- A segment and the parts it consists of. -/
structure Segment where
  id : Nat
  /-- The duration at which the segment closes. -/
  target : Duration
  /-- The duration at which its parts close. -/
  partTarget : Duration
  videoTimed : Bool
  startedAt : Instant
  duration : Duration
  earlier : List Part
  current : Part
  finished : Latch
  closedLines : List Playlist.Line
  /-- The lines of the closed parts, then the hint for the current part, or the lines that end the
  segment once it is closed. -/
  entry : List Playlist.Line
deriving DecidableEq

namespace Segment

def new (id : Nat) (target partTarget : Duration) (videoTimed : Bool) (startedAt : Instant) :
    Segment :=
  let first := Part.new id 0 partTarget videoTimed
  { id, target, partTarget, videoTimed, startedAt
    duration := .zero
    earlier := []
    current := first
    finished := .new
    closedLines := []
    entry := [first.entry] }

def isClosed (s : Segment) : Bool := s.finished.released

def parts (s : Segment) : List Part := s.earlier ++ [s.current]

def part? (s : Segment) (id : Nat) : Option Part := s.parts[id]?

def packets (s : Segment) : List Packet := s.parts.flatMap (·.packets)

def unreleased (s : Segment) : List Awaited :=
  (if s.finished.released then [] else [.segment s.id])
    ++ (s.parts.filter (!·.finished.released)).map (.part s.id ·.id)

/-- Count the current part, which has just closed: the segment closes with it when the target is
reached, else the next part opens. -/
def advance (s : Segment) : Segment × Progress :=
  match s.duration.add? s.current.duration with
  | none => (s, .overflow)
  | some total =>
    let lines := s.closedLines ++ [s.current.entry]
    let s := { s with duration := total, closedLines := lines }
    if s.target ≤ total then
      ({ s with
          finished := s.finished.release.1
          entry := lines ++ Playlist.segmentTail s.id s.startedAt total }, .closed)
    else
      let next := Part.new s.id (s.current.id + 1) s.partTarget s.videoTimed
      ({ s with
          earlier := s.earlier ++ [s.current]
          current := next
          entry := lines ++ [next.entry] }, .remainsOpen)

def write (s : Segment) (x : Packet) : Segment × Progress :=
  let (part, progress) := s.current.write x
  let s := { s with current := part }
  match progress with
  | .remainsOpen => (s, .remainsOpen)
  | .overflow => (s, .overflow)
  | .closed => s.advance

end Segment

end LiveHls
