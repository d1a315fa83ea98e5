import LiveHls.Config
import LiveHls.Rendition.Session
import LiveHls.Worker

/-!
# The packager

A packager sends commands to a worker through a queue that holds only so many, and serves reads of
the renditions in the worker's catalog. The worker goes on whenever it can; time passes only while
something is waited for: a free place in the queue, the acknowledgement of a flush, or the answer of
a read.

* `Packager.send`, `Packager.flush`, `Packager.stop` : the writing side;
* `Packager.read` : the reading side.
-/

namespace LiveHls

/-- A worker with the bounds within which it is used. -/
structure Packager where
  worker : Worker
  /-- Commands that the queue holds. -/
  capacity : Nat
  /-- How long a read waits, in milliseconds. -/
  readTimeout : Clock
  /-- Flushes asked for so far; the next one has this ticket. -/
  flushes : Nat

namespace Packager

def start (settings : PackagerSettings) : Packager where
  worker := .start (.new settings.writerId settings.options)
  capacity := max settings.queueCapacity.toNat 1
  readTimeout := settings.readTimeoutMillis.toNat
  flushes := 0

def catalog (p : Packager) : Catalog := p.worker.catalog

def clock (p : Packager) : Clock := p.worker.clock

/-- Whether the worker was shut down; a read is then cancelled instead of waiting. -/
def stopped (p : Packager) : Bool := p.worker.phase = .ended

/-! ## Time -/

def wake (p : Packager) (now : Instant) : Packager :=
  { p with worker := p.worker.wake.work now }

/-- Let time pass until the queue is empty. Each time the worker goes on it applies at least one
command, so it does so at most once per command. -/
def drain (now : Instant) : Nat → Packager → Packager
  | 0, p => p
  | bound + 1, p => if p.worker.queue.isEmpty then p else drain now bound (p.wake now)

/-- Let time pass until `moment`, unless it is over. -/
def waitUntil (p : Packager) (moment : Clock) : Packager :=
  { p with worker := { p.worker with clock := max p.clock moment } }

/-! ## Writing -/

def makeRoom (p : Packager) (now : Instant) : Packager :=
  if p.capacity ≤ p.worker.queue.length then p.wake now else p

def send (p : Packager) (command : Command) (now : Instant) : Packager × Except Error Unit :=
  let p := p.makeRoom now
  let (w, result) := p.worker.enqueue command
  ({ p with worker := w.work now }, result)

/-- Send a flush; the answer is its ticket. -/
def sendFlush (p : Packager) (now : Instant) : Packager × Except Error Nat :=
  let ticket := p.flushes
  let (p, result) := { p with flushes := ticket + 1 }.send (.flush ticket) now
  (p, result.map fun _ => ticket)

/-- Send a flush and wait until it is acknowledged: everything sent before it has been applied. -/
def flush (p : Packager) (now : Instant) : Packager × Except Error Unit :=
  match p.sendFlush now with
  | (p, .error e) => (p, .error e)
  | (p, .ok ticket) =>
    let p := drain now p.worker.queue.length p
    (p, (p.worker.flushed? ticket).getD (.error .closed))

/-- Send packets until one is not accepted; the answer is how many were. -/
def sendPackets (now : Instant) (p : Packager) : List Packet → Packager × Nat
  | [] => (p, 0)
  | x :: xs =>
    match p.send (.packet x) now with
    | (p, .error _) => (p, 0)
    | (p, .ok ()) => let (p, n) := sendPackets now p xs; (p, n + 1)

def stop (p : Packager) (now : Instant) : Packager :=
  let (p, _) := p.flush now
  { p with worker := p.worker.shutDown }

/-! ## Reading -/

/-- A read whose time is up. -/
def giveUp (p : Packager) (w : Reader) : Packager × Except Fault Body :=
  (p.waitUntil (w.deadline.expires.getD p.clock), .error (.error (.timeout w.read.label)))

/-- A read in progress, from the packager's current time on. The worker may go on while it waits,
at most once per command and once more; a read whose time is up at that very moment does not see
what the worker does then. -/
def await (now : Instant) (h : Handle) :
    Nat → Reader → Packager → Packager × Except Fault Body
  | 0, w, p => p.giveUp w
  | bound + 1, w, p =>
    match p.worker.phase with
    | .resting till =>
      if w.deadline.hasPassed till then p.giveUp w
      else
        let p := p.wake now
        match (p.catalog.rendition? h).map fun r => w.poll r p.clock with
        | some (.done result) => (p, result)
        | some (.waiting w) => await now h bound w p
        | none => p.giveUp w
    | _ => p.giveUp w

/-- The packager after a wait: the worker goes on if its rest is over. -/
def catchUp (p : Packager) (now : Instant) : Packager :=
  match p.worker.phase with
  | .resting till => if till ≤ p.clock then p.wake now else p
  | _ => p

def readHandle (p : Packager) (h : Handle) (read : Read) (now : Instant) :
    Packager × Except Fault Body :=
  match p.catalog.rendition? h with
  | none => (p, .error (.error (.notFound "rendition" (toString h))))
  | some r =>
    let deadline : Deadline := ⟨some (p.clock + p.readTimeout)⟩
    match Reader.start r p.clock "" read deadline p.stopped with
    | .done result => (p, result)
    | .waiting w =>
      let (p, result) := await now h (p.worker.queue.length + 1) w p
      (p.catchUp now, result)

def read (p : Packager) (index : Nat) (read : Read) (now : Instant) :
    Packager × Except Fault Body :=
  match p.catalog.handleAt index with
  | .error e => (p, .error (.error e))
  | .ok h => p.readHandle h read now

end Packager

end LiveHls
