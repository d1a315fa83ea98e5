import LiveHls.Catalog
import LiveHls.Supervisor

/-!
# The worker of a catalog

A worker is the only writer of its catalog. Commands wait in a queue and are applied one at a time,
in the order in which they came. A command that fails is skipped; after one that breaks down the
worker rests. Once it is shut down it takes no more commands, and those still queued are dropped.

* `Command.apply` : what a command does to a catalog;
* `Worker.enqueue`, `Worker.step`, `Worker.wake`, `Worker.shutDown` : everything that can happen to
  a worker, in any order;
* `Worker.work` : steps until nothing is queued or the worker rests;
* `Worker.flushed?` : what has become of a flush.
-/

namespace LiveHls

/-- Work for a worker. -/
inductive Command where
  | packet (x : Packet)
  | removeSource (url : String)
  | segmentDuration (d : Duration)
  /-- Acknowledged by its ticket when it is reached, so after everything sent before it. -/
  | flush (ticket : Nat)
deriving DecidableEq

namespace Command

def apply (now : Instant) (c : Catalog) : Command → Catalog × Except Fault Unit
  | .packet x => c.write x now
  | .removeSource url => ((c.remove url).1, .ok ())
  | .segmentDuration d => (c.setSegmentDuration d, .ok ())
  | .flush _ => (c, .ok ())

def ticket? : Command → Option Nat
  | .flush ticket => some ticket
  | _ => none

end Command

/-- How a step that had this result ends. -/
def StepEnd.ofResult : Except Fault Unit → StepEnd
  | .ok () => .proceed
  | .error (.error _) => .failure
  | .error .durationOverflow => .breakdown

/-- What a worker is doing. -/
inductive WorkerPhase where
  | ready
  /-- It rests after a breakdown. -/
  | resting (till : Clock)
  | ended
deriving DecidableEq, Repr

/-- A worker with its catalog and its queue. -/
structure Worker where
  catalog : Catalog
  /-- Commands not applied yet, oldest first. -/
  queue : List Command
  phase : WorkerPhase
  clock : Clock
  /-- Tickets of the flushes reached so far, oldest first. -/
  acknowledged : List Nat

namespace Worker

def start (c : Catalog) : Worker := ⟨c, [], .ready, 0, []⟩

def enqueue (w : Worker) (command : Command) : Worker × Except Error Unit :=
  if w.phase = .ended then (w, .error .closed)
  else ({ w with queue := w.queue ++ [command] }, .ok ())

/-- What a worker does after a step. -/
def phaseAfter (clock : Clock) (ending : StepEnd) : WorkerPhase :=
  if ending = .breakdown then .resting (clock + Supervisor.rest) else .ready

/-- Apply the oldest command of the queue, unless the worker rests or was shut down. -/
def step (w : Worker) (now : Instant) : Worker :=
  match w.phase, w.queue with
  | .ready, command :: rest =>
    let (c, result) := command.apply now w.catalog
    { w with
      catalog := c
      queue := rest
      phase := phaseAfter w.clock (.ofResult result)
      acknowledged := w.acknowledged ++ command.ticket?.toList }
  | _, _ => w

def steps (now : Instant) : Nat → Worker → Worker
  | 0, w => w
  | count + 1, w => steps now count (w.step now)

/-- Apply commands until none is queued or the worker rests. -/
def work (w : Worker) (now : Instant) : Worker := steps now w.queue.length w

def wake (w : Worker) : Worker :=
  match w.phase with
  | .resting till => { w with clock := max w.clock till, phase := .ready }
  | _ => w

/-- End the worker: what is still queued is dropped, and every rendition is closed. -/
def shutDown (w : Worker) : Worker :=
  { w with catalog := w.catalog.close, queue := [], phase := .ended }

/-- What has become of a flush: acknowledged, never to be reached, or still waiting. -/
def flushed? (w : Worker) (ticket : Nat) : Option (Except Error Unit) :=
  if ticket ∈ w.acknowledged then some (.ok ())
  else if w.phase = .ended then some (.error .closed)
  else none

end Worker

end LiveHls
