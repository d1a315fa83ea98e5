/-!
# One-shot latches

A latch is released once and stays released. Whoever waits on it goes on from that moment; waiting
on a released latch ends at once.

* `Latch.release` : tells whether this was the first release (`released_release`);
* `Queue` : a latch and those who wait on it (`Queue.awake`).
-/

namespace LiveHls

structure Latch where
  released : Bool
deriving DecidableEq, Repr

namespace Latch

def new : Latch := ⟨false⟩

/-- Release the latch; the answer is whether it was not released before. -/
def release (l : Latch) : Latch × Bool := (⟨true⟩, !l.released)

@[simp] theorem released_release (l : Latch) : l.release.1.released = true := rfl

/-- A latch and the number of those who ever waited on it. -/
structure Queue where
  latch : Latch
  waiters : Nat
deriving DecidableEq, Repr

namespace Queue

def new : Queue := ⟨.new, 0⟩

def wait (q : Queue) : Queue × Nat := ({ q with waiters := q.waiters + 1 }, q.waiters + 1)

def release (q : Queue) : Queue × Bool :=
  ({ q with latch := q.latch.release.1 }, q.latch.release.2)

/-- How many have gone on: nobody before the release and everybody after it. -/
def awake (q : Queue) : Nat := if q.latch.released then q.waiters else 0

end Queue

end Latch

end LiveHls
