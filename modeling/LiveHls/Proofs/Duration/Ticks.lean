import LiveHls.Duration
import Mathlib.Algebra.BigOperators.Group.List.Basic
import Mathlib.Algebra.Ring.Nat

/-!
# Ticks of sums

Nanoseconds become ticks by rounding down, so the ticks of a sum are those of the summands and a
few more.

* `ticksIn_add`, `ticksIn_add_sum`, `ticksIn_sum` : by how many;
* `ticksIn_mod` : whole seconds are whole ticks, so a remainder after whole seconds is one after
  their ticks, whatever the time scale;
* `Duration.toNat_ticks_of_lt`, `Duration.toNat_ticks_modulo` : durations as ticks where nothing
  saturates.
-/

namespace LiveHls

/-- Nanoseconds in ticks of `timescale` per second, rounded down. -/
def ticksIn (nanos timescale : Nat) : Nat := nanos * timescale / nanosPerSecond

section Sums
variable (timescale : Nat)

/-- Rounding twice loses at most one tick. -/
theorem ticksIn_add (a b : Nat) : ∃ e ≤ 1,
    ticksIn (a + b) timescale = ticksIn a timescale + ticksIn b timescale + e := by
  unfold ticksIn nanosPerSecond
  rw [Nat.add_mul]
  generalize a * timescale = x
  generalize b * timescale = y
  exact ⟨(x + y) / 1000000000 - (x / 1000000000 + y / 1000000000), by omega, by omega⟩

/-- Each summand loses at most one tick. -/
theorem ticksIn_add_sum (a : Nat) (xs : List Nat) : ∃ e ≤ xs.length,
    ticksIn (a + xs.sum) timescale =
      ticksIn a timescale + (xs.map (ticksIn · timescale)).sum + e := by
  induction xs generalizing a with
  | nil => exact ⟨0, Nat.le_refl 0, rfl⟩
  | cons x xs ih =>
    obtain ⟨e, he, hrest⟩ := ih (a + x)
    obtain ⟨e', he', hx⟩ := ticksIn_add timescale a x
    refine ⟨e + e', by rw [List.length_cons]; omega, ?_⟩
    rw [List.sum_cons, ← Nat.add_assoc, hrest, hx, List.map_cons, List.sum_cons]
    omega

/-- The first summand loses none. -/
theorem ticksIn_sum {xs : List Nat} (h : xs ≠ []) : ∃ e ≤ xs.length - 1,
    ticksIn xs.sum timescale = (xs.map (ticksIn · timescale)).sum + e := by
  obtain ⟨x, xs, rfl⟩ := List.exists_cons_of_ne_nil h
  exact ticksIn_add_sum timescale x xs

theorem ticksIn_mod (nanos seconds : Nat) :
    ticksIn (nanos % (seconds * nanosPerSecond)) timescale =
      ticksIn nanos timescale % (seconds * timescale) := by
  unfold ticksIn
  rw [← Nat.mul_mod_mul_right, Nat.mul_comm seconds, Nat.mul_assoc, Nat.mod_mul_right_div_self]

end Sums

namespace Duration
variable {d : Duration} {timescale : UInt32}

theorem toNat_ticks (d : Duration) (timescale : UInt32) :
    (d.ticks timescale).toNat = min (ticksIn d.nanos timescale.toNat) 0xFFFFFFFFFFFFFFFF :=
  Saturating.toNat_toUInt64 _

/-- Ticks below the largest number of 64 bits have not saturated. -/
theorem toNat_ticks_of_lt (h : (d.ticks timescale).toNat < 0xFFFFFFFFFFFFFFFF) :
    (d.ticks timescale).toNat = ticksIn d.nanos timescale.toNat := by
  rw [toNat_ticks] at h ⊢
  omega

/-- A time after whole hours, minutes or seconds have been taken off never saturates. -/
theorem toNat_ticks_modulo (d : Duration) {period : Duration} {seconds : Nat}
    (hperiod : period.nanos = seconds * nanosPerSecond) (hpos : 0 < seconds)
    (hsmall : seconds ≤ UInt32.size) (timescale : UInt32) :
    ((d.modulo period).ticks timescale).toNat =
      ticksIn d.nanos timescale.toNat % (seconds * timescale.toNat) := by
  have hmod : ticksIn (d.modulo period).nanos timescale.toNat =
      ticksIn d.nanos timescale.toNat % (seconds * timescale.toNat) := by
    rw [← ticksIn_mod, ← hperiod]
    rfl
  have hlt : ticksIn d.nanos timescale.toNat % (seconds * timescale.toNat) <
      UInt32.size * UInt32.size := by
    rcases Nat.eq_zero_or_pos timescale.toNat with hzero | htimescale
    · simp [hzero, ticksIn]
    · calc ticksIn d.nanos timescale.toNat % (seconds * timescale.toNat)
          < seconds * timescale.toNat := Nat.mod_lt _ (Nat.mul_pos hpos htimescale)
        _ ≤ UInt32.size * UInt32.size := Nat.mul_le_mul hsmall (Nat.le_of_lt timescale.toNat_lt)
  rw [toNat_ticks, hmod]
  exact Nat.min_eq_left (Nat.le_sub_one_of_lt hlt)

end Duration

end LiveHls
