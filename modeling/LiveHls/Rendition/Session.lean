import LiveHls.Deadline
import LiveHls.Rendition.Read

/-!
# Waiting readers

A session is a rendition with the readers that wait on it and a clock. A reader looks at the
rendition when it starts and again only when what it waits for has closed; in between it ends by
cancellation, because the rendition is closed, or because its time is up.

* `Reader.start`, `Reader.poll` : a reader's state after an event (`Polled`);
* `Session.settle` : all readers after an event, with the results of those that ended.
-/

namespace LiveHls

/-- A read in progress. -/
structure Reader where
  name : String
  read : Read
  awaiting : Awaited
  deadline : Deadline
  cancelled : Bool
deriving DecidableEq

inductive Polled where
  | waiting (reader : Reader)
  | done (result : Except Fault Body)

namespace Reader

/-- A reader that has no answer: it ends by cancellation, with the rendition or with its time, or
goes on waiting. -/
def wait (w : Reader) (r : Rendition) (now : Clock) : Polled :=
  if w.cancelled then .done (.error (.error .cancelled))
  else if r.closed then .done (.error (.error .closed))
  else if w.deadline.hasPassed now then .done (.error (.error (.timeout w.read.label)))
  else .waiting w

/-- Start a read, which may have been cancelled before. -/
def start (r : Rendition) (now : Clock) (name : String) (read : Read) (deadline : Deadline)
    (cancelled : Bool) : Polled :=
  match r.lookup read with
  | .found result => .done result
  | .awaits what => wait ⟨name, read, what, deadline, cancelled⟩ r now

/-- A waiting reader after an event. Its read is looked up again once what it waits for has
closed. -/
def poll (w : Reader) (r : Rendition) (now : Clock) : Polled :=
  if !w.cancelled && r.hasClosed w.awaiting then
    match r.lookup w.read with
    | .found result => .done result
    | .awaits what => wait { w with awaiting := what } r now
  else w.wait r now

end Reader

/-- A rendition, its waiting readers in the order in which they started, and the time. -/
structure Session where
  rendition : Rendition
  readers : List Reader
  clock : Clock

namespace Session

abbrev Ended := String × Except Fault Body

/-- Poll every reader; those that ended are answered in the order in which they started. -/
def settle (s : Session) : Session × List Ended :=
  let polled := s.readers.map fun w => (w, w.poll s.rendition s.clock)
  let waiting := polled.filterMap fun (_, p) =>
    match p with
    | .waiting w => some w
    | .done _ => none
  let ended := polled.filterMap fun (w, p) =>
    match p with
    | .waiting _ => none
    | .done result => some (w.name, result)
  ({ s with readers := waiting }, ended)

def write (s : Session) (x : Packet) (now : Instant) : Session × Except Fault Unit :=
  let (r, result) := s.rendition.write x now
  ({ s with rendition := r }, result)

/-- Start a read that gives up after `timeout` milliseconds, if given. -/
def start (s : Session) (name : String) (read : Read) (timeout : Option Clock) :
    Session × List Ended :=
  let deadline : Deadline := ⟨timeout.map (s.clock + ·)⟩
  match Reader.start s.rendition s.clock name read deadline false with
  | .waiting w => ({ s with readers := s.readers ++ [w] }, [])
  | .done result => (s, [(name, result)])

/-- Cancel the first waiting reader of this name; the answer is whether there is one. -/
def cancel (s : Session) (name : String) : Session × Bool :=
  match s.readers.findIdx? (·.name == name) with
  | none => (s, false)
  | some i => ({ s with readers := s.readers.modify i fun w => { w with cancelled := true } }, true)

def advance (s : Session) (milliseconds : Clock) : Session :=
  { s with clock := s.clock + milliseconds }

def close (s : Session) : Session := { s with rendition := s.rendition.close }

end Session

end LiveHls
