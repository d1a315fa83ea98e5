import LiveHls.Binary64
import LiveHls.Saturating

/-!
# Durations

A duration is an exact number of nanoseconds whose whole seconds fit 64 bits.

* `Duration.add?` : the sum, unless it leaves the range (`nanos_add?`, `add?_eq_none_iff`);
* `Duration.ticks` : conversion to a time scale, rounded down and saturating at 64 bits;
* `Duration.seconds` : the double that playlists print; `Duration.text` its five decimals.
-/

namespace LiveHls

def nanosPerSecond : Nat := 1000000000

/-- An exact number of nanoseconds with whole seconds of 64 bits. -/
structure Duration where
  nanos : Nat
  bounded : nanos < UInt64.size * nanosPerSecond

namespace Duration

@[ext] theorem ext {a b : Duration} (h : a.nanos = b.nanos) : a = b := by
  cases a; cases b; cases h; rfl

instance : DecidableEq Duration := fun a b =>
  if h : a.nanos = b.nanos then isTrue (Duration.ext h) else isFalse fun e => h (e ▸ rfl)

instance : LE Duration := ⟨fun a b => a.nanos ≤ b.nanos⟩
instance : LT Duration := ⟨fun a b => a.nanos < b.nanos⟩
instance (a b : Duration) : Decidable (a ≤ b) := inferInstanceAs (Decidable (a.nanos ≤ b.nanos))
instance (a b : Duration) : Decidable (a < b) := inferInstanceAs (Decidable (a.nanos < b.nanos))

def zero : Duration := ⟨0, by decide⟩

instance : Inhabited Duration := ⟨zero⟩

/-- The duration of `n` nanoseconds, if its seconds fit 64 bits. -/
def ofNanos? (n : Nat) : Option Duration :=
  if h : n < UInt64.size * nanosPerSecond then some ⟨n, h⟩ else none

def ofMillis (ms : UInt64) : Duration :=
  ⟨ms.toNat * 1000000, by have := ms.toNat_lt; unfold UInt64.size nanosPerSecond; omega⟩

def ofSeconds (s : UInt64) : Duration :=
  ⟨s.toNat * nanosPerSecond, by have := s.toNat_lt; unfold UInt64.size nanosPerSecond; omega⟩

def secs (d : Duration) : Nat := d.nanos / nanosPerSecond

def subsecNanos (d : Duration) : Nat := d.nanos % nanosPerSecond

/-! ## Sums -/

/-- The sum, unless its seconds do not fit 64 bits. -/
def add? (a b : Duration) : Option Duration := ofNanos? (a.nanos + b.nanos)

theorem nanos_of_ofNanos? {n : Nat} {d : Duration} (h : ofNanos? n = some d) : d.nanos = n := by
  unfold ofNanos? at h
  split at h
  · cases h; rfl
  · cases h

theorem nanos_add? {a b c : Duration} (h : a.add? b = some c) : c.nanos = a.nanos + b.nanos :=
  nanos_of_ofNanos? h

theorem add?_eq_none_iff {a b : Duration} :
    a.add? b = none ↔ UInt64.size * nanosPerSecond ≤ a.nanos + b.nanos := by
  unfold add? ofNanos?
  split <;> simp <;> omega

/-- The remainder after whole multiples of a positive period. -/
def modulo (d period : Duration) : Duration :=
  ⟨d.nanos % period.nanos, Nat.lt_of_le_of_lt (Nat.mod_le _ _) d.bounded⟩

/-! ## Conversions -/

/-- The duration in ticks of `timescale` per second, rounded down. -/
def ticks (d : Duration) (timescale : UInt32) : UInt64 :=
  Saturating.toUInt64 (d.nanos * timescale.toNat / nanosPerSecond)

/-- The seconds as a double: the nearest to the whole seconds plus the nearest to the fraction. -/
def seconds (d : Duration) : Dyadic :=
  (Dyadic.nearest d.secs 1).add (Dyadic.nearest d.subsecNanos nanosPerSecond)

def text (d : Duration) : String := d.seconds.fixed 5

/-- Seconds rounded up to a whole 64-bit number. -/
def ceilSeconds (d : Duration) : UInt64 := Saturating.toUInt64 d.seconds.ceil

end Duration

end LiveHls
