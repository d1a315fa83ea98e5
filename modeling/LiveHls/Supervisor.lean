import LiveHls.Deadline

/-!
# Supervised workers

A supervised worker takes steps until it is stopped or a step asks to end. A step that fails does
not end it, and neither does one that breaks down, after which the worker rests for a while. When
the loop has ended the worker is shut down, once.

* `Supervisor.run` : the course of a worker whose steps are given in advance (`Report`).
-/

namespace LiveHls

/-- How a step of a worker ends. -/
inductive StepEnd where
  | proceed
  | finish
  | failure
  | breakdown
deriving DecidableEq, Repr

namespace Supervisor

/-- How long a worker rests after a breakdown, in milliseconds. -/
def rest : Clock := 100

/-- A step given in advance: how it ends, and whether it stops the worker first. -/
structure Action where
  stops : Bool
  ending : StepEnd
deriving DecidableEq, Repr

/-- The step of a worker that has run out of steps. -/
def lastAction : Action := ⟨false, .finish⟩

/-- What a worker did. -/
structure Report where
  taken : List Action
  stopped : Bool
  clock : Clock
deriving DecidableEq, Repr

def Report.after (a : Action) (r : Report) : Report := { r with taken := a :: r.taken }

/-- When the step after `a` may begin. -/
def clockAfter (a : Action) (clock : Clock) : Clock :=
  if a.ending = .breakdown then clock + rest else clock

def run (stopped : Bool) (clock : Clock) : List Action → Report
  | [] => if stopped then ⟨[], true, clock⟩ else ⟨[lastAction], false, clock⟩
  | a :: rest =>
    if stopped then ⟨[], true, clock⟩
    else if a.ending = .finish then ⟨[a], a.stops, clock⟩
    else (run a.stops (clockAfter a clock) rest).after a

end Supervisor

end LiveHls
