import LiveHls.Duration
import Mathlib.Algebra.Order.Floor.Div
import Mathlib.Algebra.Order.Floor.Semiring
import Mathlib.Data.Rat.Floor
import Mathlib.Tactic.FieldSimp
import Mathlib.Tactic.Linarith

/-!
# Seconds rounded up

A duration becomes a double in two steps, whole seconds and fraction, and each rounds.

* `Dyadic.value` : what a binary fraction is worth; `Dyadic.ceil_eq` : its ceiling;
* `Dyadic.exponent_lt`, `Dyadic.nearest_eq` : below `2 ^ b` a double has `53 - b` binary places or
  more;
* `Dyadic.value_nearest_of_dvd`, `Dyadic.abs_nearest_sub_le` : so whole numbers are kept, and other
  values change by half of the last place;
* `Duration.ceilSeconds_eq` : seconds below `2 ^ 23` are rounded up as if they were exact.
-/

namespace LiveHls

namespace Dyadic

/-- What a binary fraction is worth. -/
def value (a : Dyadic) : ℚ := a.numerator / 2 ^ a.scale

theorem ceil_eq (a : Dyadic) : a.ceil = ⌈a.value⌉₊ := by
  refine eq_of_forall_ge_iff fun c => ?_
  have hpos : 0 < 2 ^ a.scale := Nat.two_pow_pos _
  rw [Nat.ceil_le, value, div_le_iff₀ (by positivity), ceil, Nat.shiftLeft_eq, one_mul,
    Nat.shiftRight_eq_div_pow, Nat.div_le_iff_le_mul_add_pred hpos, Nat.mul_comm]
  have hcast : (a.numerator : ℚ) ≤ c * 2 ^ a.scale ↔ a.numerator ≤ c * 2 ^ a.scale := by
    exact_mod_cast Iff.rfl
  rw [hcast]
  omega

/-! ## The double nearest to a quotient -/

section Nearest
variable {n d b : Nat}

theorem exponent_lt (hn : n ≠ 0) (h : n < d * 2 ^ b) : exponent n d < b := by
  have hlog : n.log2 < d.log2 + 1 + b := by
    rw [← Nat.pow_lt_pow_iff_right (a := 2) (by decide)]
    calc 2 ^ n.log2 ≤ n := Nat.log2_self_le hn
      _ < d * 2 ^ b := h
      _ ≤ 2 ^ (d.log2 + 1) * 2 ^ b := Nat.mul_le_mul_right _ (Nat.le_of_lt Nat.lt_log2_self)
      _ = 2 ^ (d.log2 + 1 + b) := (Nat.pow_add ..).symm
  unfold exponent
  simp only
  rcases Nat.lt_or_eq_of_le (Nat.le_of_lt_succ (by omega : n.log2 < d.log2 + b + 1)) with hk | hk
  · split <;> omega
  · -- the estimate from the logarithms is one too large here, which the comparison finds out
    have hnat : ((n.log2 : Int) - d.log2).toNat = b := by omega
    have hneg : (-((n.log2 : Int) - d.log2)).toNat = 0 := by omega
    rw [hnat, hneg, Nat.shiftLeft_eq, Nat.shiftLeft_zero, if_neg (Nat.not_le_of_lt h)]
    omega

/-- Below `2 ^ b` a double has `53 - b` binary places or more. -/
theorem nearest_eq (hn : n ≠ 0) (h : n < d * 2 ^ b) (hb : b ≤ precision) :
    ∃ k, precision ≤ b + k ∧ nearest n d = ⟨roundDiv (n * 2 ^ k) d, k⟩ := by
  have hexponent := exponent_lt hn h
  have hprecision : precision = 53 := rfl
  refine ⟨(-(exponent n d - (precision - 1 : Nat))).toNat, by omega, ?_⟩
  have hunit : (exponent n d - (precision - 1 : Nat)).toNat = 0 := by omega
  unfold nearest
  rw [if_neg hn]
  simp only [hunit, Nat.shiftLeft_eq, Nat.pow_zero, Nat.mul_one]

theorem roundDiv_of_dvd (hd : 0 < d) (h : d ∣ n) : roundDiv n d = n / d := by
  rw [roundDiv, Nat.mod_eq_zero_of_dvd h, if_pos hd]

/-- A whole number of at most 53 bits is kept. -/
theorem value_nearest_of_dvd (hd : 0 < d) (h : n < d * 2 ^ precision) (hdvd : d ∣ n) :
    (nearest n d).value = n / d := by
  rcases Nat.eq_zero_or_pos n with rfl | hn
  · simp [nearest, value]
  obtain ⟨k, -, hk⟩ := nearest_eq hn.ne' h (Nat.le_refl _)
  obtain ⟨m, rfl⟩ := hdvd
  have hd' : (d : ℚ) ≠ 0 := by positivity
  rw [hk, value, roundDiv_of_dvd hd (Dvd.intro _ (Nat.mul_assoc ..).symm), Nat.mul_assoc,
    Nat.mul_div_cancel_left _ hd]
  push_cast
  field_simp

/-- A value below `2 ^ b` changes by at most half of the last of `53 - b` binary places. -/
theorem abs_nearest_sub_le (hd : 0 < d) (h : n < d * 2 ^ b) {j : Nat} (hb : b + j = precision) :
    |(nearest n d).value - n / d| ≤ 1 / 2 ^ (j + 1) := by
  rcases Nat.eq_zero_or_pos n with rfl | hn
  · simp [nearest, value]
  obtain ⟨k, hjk, hk⟩ := nearest_eq hn.ne' h (by omega)
  have hd' : (0 : ℚ) < d := by positivity
  have hupper : (2 * (roundDiv (n * 2 ^ k) d * d) : ℚ) ≤ 2 * (n * 2 ^ k) + d := by
    exact_mod_cast two_mul_roundDiv_le (n * 2 ^ k) d hd
  have hlower : (2 * (n * 2 ^ k) : ℚ) ≤ 2 * (roundDiv (n * 2 ^ k) d * d) + d := by
    exact_mod_cast le_two_mul_roundDiv (n * 2 ^ k) d hd
  have hpow : (1 / 2 ^ (k + 1) : ℚ) ≤ 1 / 2 ^ (j + 1) :=
    one_div_le_one_div_of_le (by positivity) (pow_le_pow_right₀ (by norm_num) (by omega))
  refine le_trans ?_ hpow
  rw [hk, value, abs_le, pow_succ]
  constructor
  · rw [neg_le_sub_iff_le_add, div_le_iff₀ hd']
    field_simp
    linarith
  · rw [sub_le_iff_le_add, div_le_iff₀ (by positivity)]
    field_simp
    linarith

end Nearest

/-! ## Sums -/

section Sums
variable {a b : Dyadic}

/-- A sum is the double nearest to a quotient that is the exact sum. -/
theorem add_eq_nearest (a b : Dyadic) :
    ∃ n d : Nat, 0 < d ∧ a.add b = nearest n d ∧ (n : ℚ) = d * (a.value + b.value) := by
  refine ⟨_, _, ?_, rfl, ?_⟩
  · rw [Nat.shiftLeft_eq, Nat.one_mul]
    exact Nat.two_pow_pos _
  · simp only [value, Nat.shiftLeft_eq, Nat.one_mul]
    push_cast
    rw [pow_add]
    field_simp

/-- A sum that is a whole number of at most 53 bits is exact. -/
theorem value_add_of_eq_nat {m : Nat} (h : a.value + b.value = m) (hm : m < 2 ^ precision) :
    (a.add b).value = m := by
  obtain ⟨n, d, hd, hadd, hn⟩ := add_eq_nearest a b
  have hd' : (d : ℚ) ≠ 0 := by positivity
  rw [h] at hn
  have hnat : n = d * m := by exact_mod_cast hn
  have hlt : n < d * 2 ^ precision := hnat ▸ Nat.mul_lt_mul_of_pos_left hm hd
  rw [hadd, value_nearest_of_dvd hd hlt (Dvd.intro m hnat.symm), hn, mul_div_cancel_left₀ _ hd']

/-- A sum below `2 ^ c` changes by at most half of the last of `53 - c` binary places. -/
theorem abs_add_sub_le {c j : Nat} (h : a.value + b.value < 2 ^ c) (hc : c + j = precision) :
    |(a.add b).value - (a.value + b.value)| ≤ 1 / 2 ^ (j + 1) := by
  obtain ⟨n, d, hd, hadd, hn⟩ := add_eq_nearest a b
  have hd' : (0 : ℚ) < d := by positivity
  have hlt : (n : ℚ) < d * 2 ^ c := hn ▸ mul_lt_mul_of_pos_left h hd'
  have hnear := abs_nearest_sub_le hd (by exact_mod_cast hlt) hc
  rw [hn, mul_div_cancel_left₀ _ hd'.ne'] at hnear
  rwa [hadd]

end Sums

end Dyadic

/-! ## Durations -/

namespace Duration

section Seconds
variable {d : Duration}

theorem nanos_eq (d : Duration) : d.nanos = nanosPerSecond * d.secs + d.subsecNanos :=
  (Nat.div_add_mod ..).symm

theorem subsecNanos_lt (d : Duration) : d.subsecNanos < nanosPerSecond :=
  Nat.mod_lt _ (by decide)

theorem value_nearest_secs (h : d.secs < 2 ^ Dyadic.precision) :
    (Dyadic.nearest d.secs 1).value = d.secs := by
  rw [Dyadic.value_nearest_of_dvd Nat.one_pos (by omega) (one_dvd _), Nat.cast_one, div_one]

/-- Whole seconds are exact. -/
theorem value_seconds_of_whole (h : d.secs < 2 ^ Dyadic.precision) (hwhole : d.subsecNanos = 0) :
    d.seconds.value = d.secs := by
  refine Dyadic.value_add_of_eq_nat ?_ h
  rw [value_nearest_secs h, hwhole]
  simp [Dyadic.nearest, Dyadic.value]

/-- A fraction of a second stays between the whole seconds around it: the two roundings together
change less than a nanosecond. -/
theorem value_seconds_of_fraction (h : d.secs < 2 ^ 23) (hfraction : d.subsecNanos ≠ 0) :
    d.secs < d.seconds.value ∧ d.seconds.value < d.secs + 1 := by
  have hsecs := value_nearest_secs (Nat.lt_trans h (by decide))
  have hlow : (1 : ℚ) ≤ d.subsecNanos := by exact_mod_cast Nat.pos_of_ne_zero hfraction
  have hhigh : (d.subsecNanos : ℚ) + 1 ≤ 1000000000 := by exact_mod_cast d.subsecNanos_lt
  have hle : (d.secs : ℚ) + 1 ≤ 2 ^ 23 := by exact_mod_cast h
  have hpart : |(Dyadic.nearest d.subsecNanos nanosPerSecond).value -
      d.subsecNanos / 1000000000| ≤ 1 / 2 ^ 54 :=
    Dyadic.abs_nearest_sub_le (b := 0) (by decide) (by simpa using d.subsecNanos_lt) rfl
  obtain ⟨hpartLow, hpartHigh⟩ := abs_le.1 hpart
  have hlt : (Dyadic.nearest d.secs 1).value +
      (Dyadic.nearest d.subsecNanos nanosPerSecond).value < 2 ^ 23 := by
    rw [hsecs]
    linarith
  have hsum := Dyadic.abs_add_sub_le (j := 30) hlt rfl
  rw [hsecs] at hsum
  obtain ⟨hsumLow, hsumHigh⟩ := abs_le.1 hsum
  rw [seconds]
  constructor <;> linarith

theorem ceil_seconds (h : d.secs < 2 ^ 23) :
    d.seconds.ceil = if d.subsecNanos = 0 then d.secs else d.secs + 1 := by
  rw [Dyadic.ceil_eq]
  split
  · rename_i hwhole
    rw [value_seconds_of_whole (Nat.lt_trans h (by decide)) hwhole, Nat.ceil_natCast]
  · rename_i hfraction
    obtain ⟨hlow, hhigh⟩ := value_seconds_of_fraction h hfraction
    rw [Nat.ceil_eq_iff (Nat.add_one_ne_zero _), Nat.add_sub_cancel]
    exact ⟨hlow, by push_cast; exact hhigh.le⟩

/-- **Seconds are rounded up** as if they were exact, below `2 ^ 23`. -/
theorem ceilSeconds_eq (h : d.nanos < 2 ^ 23 * nanosPerSecond) :
    d.ceilSeconds.toNat = d.nanos ⌈/⌉ nanosPerSecond := by
  have hsecs : d.secs < 2 ^ 23 := Nat.div_lt_of_lt_mul (by rwa [Nat.mul_comm])
  have hlt := d.subsecNanos_lt
  have hnanos := d.nanos_eq
  rw [ceilSeconds, Saturating.toNat_toUInt64, ceil_seconds hsecs, Nat.ceilDiv_eq_add_pred_div]
  unfold nanosPerSecond at *
  split <;> omega

end Seconds

end Duration

end LiveHls
