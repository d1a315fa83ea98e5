/-!
# Deadlines

A wait ends with its value, with its cancellation or when its time is up, whichever comes first. At
the same moment a cancellation wins over the value and the value over the time.

Moments are milliseconds of a clock that only the caller moves.
-/

namespace LiveHls

/-- Milliseconds of a clock that starts at 0. -/
abbrev Clock := Nat

/-- When a wait gives up; without a time only a cancellation ends it. -/
structure Deadline where
  expires : Option Clock
deriving DecidableEq, Repr

namespace Deadline

def never : Deadline := ⟨none⟩

/-- Give up `timeout` milliseconds from `now`, whatever was set before. -/
def withTimeout (_ : Deadline) (now timeout : Clock) : Deadline := ⟨some (now + timeout)⟩

def hasPassed (d : Deadline) (now : Clock) : Bool := d.expires.any (· ≤ now)

inductive Ending where
  | cancelled
  | value
  | timeout
deriving DecidableEq, Repr

/-- Whether `a` comes before any `b`, or together with it. -/
def noLater (a : Clock) (b : Option Clock) : Bool := b.all (a ≤ ·)

/-- The end of a wait that is cancelled at `cancelled` and has its value at `ready`; none if nothing
ever ends it. -/
def ending? (d : Deadline) (cancelled ready : Option Clock) : Option Ending :=
  if cancelled.any fun t => noLater t ready && noLater t d.expires then some .cancelled
  else if ready.any fun t => noLater t d.expires then some .value
  else d.expires.map fun _ => .timeout

example : ending? ⟨some 10⟩ none (some 10) = some .value := by decide
example : ending? ⟨some 10⟩ (some 15) none = some .timeout := by decide
example : ending? ⟨none⟩ (some 5) (some 5) = some .cancelled := by decide

end Deadline

end LiveHls
