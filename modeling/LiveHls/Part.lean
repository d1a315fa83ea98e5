import LiveHls.Latch
import LiveHls.Packet
import LiveHls.Playlist.Line

/-!
# Parts

A part is a run of packets that closes once its duration reaches a target. Where a rendition has
video only video counts, so a part then ends with a video packet; without video, audio counts.

* `Part.write` : one more packet, and whether it closed the part (`Progress`);
* `Part.entry` : the part's line in the index playlist.
-/

namespace LiveHls

/-- What a written packet did to a part or a segment. -/
inductive Progress where
  | remainsOpen
  | closed
  /-- A total duration left its range and the packet was not taken to its end. -/
  | overflow
deriving DecidableEq, Repr

structure Part where
  segment : Nat
  id : Nat
  /-- The duration at which the part closes. -/
  target : Duration
  /-- Whether only video packets count towards the duration. -/
  videoTimed : Bool
  duration : Duration
  /-- Whether the part holds a keyframe. -/
  independent : Bool
  /-- Oldest first. -/
  packets : List Packet
  finished : Latch
  /-- A preload hint while the part is open, its part line afterwards. -/
  entry : Playlist.Line
deriving DecidableEq

namespace Part

def new (segment id : Nat) (target : Duration) (videoTimed : Bool) : Part where
  segment := segment
  id := id
  target := target
  videoTimed := videoTimed
  duration := .zero
  independent := false
  packets := []
  finished := .new
  entry := .preloadHint segment id

def isClosed (p : Part) : Bool := p.finished.released

def counts (p : Part) (x : Packet) : Bool := x.isVideo || !p.videoTimed

/-- Close the part: it is listed with its duration from now on. -/
def close (p : Part) : Part :=
  { p with
    finished := p.finished.release.1
    entry := .part p.segment p.id p.duration p.independent }

/-- Add a packet. A keyframe makes the part independent before anything else happens; a packet that
counts adds its duration and closes the part when the target is reached. -/
def write (p : Part) (x : Packet) : Part × Progress :=
  let p := { p with independent := p.independent || x.isKeyframe }
  if p.counts x then
    match p.duration.add? x.duration with
    | none => (p, .overflow)
    | some total =>
      let p := { p with duration := total, packets := p.packets ++ [x] }
      if p.target ≤ total then (p.close, .closed) else (p, .remainsOpen)
  else ({ p with packets := p.packets ++ [x] }, .remainsOpen)

end Part

end LiveHls
