/-!
# Non-negative double precision values, computed exactly

Seconds are printed from double precision values. A value is kept as a binary fraction, so every
operation is integer arithmetic:

* `roundDiv n d` : the integer nearest to `n / d`, ties to even (`two_mul_roundDiv_le`,
  `le_two_mul_roundDiv` : it is within half a unit);
* `Dyadic.nearest n d` : the double nearest to `n / d`;
* `Dyadic.add` : the double nearest to the exact sum;
* `Dyadic.ceil`, `Dyadic.fixed` : the ceiling and the decimal text with a fixed number of places.
-/

namespace LiveHls

/-! ## Rounding a quotient -/

/-- The integer nearest to `n / d`; a quotient halfway between two integers goes to the even
one. -/
def roundDiv (n d : Nat) : Nat :=
  if 2 * (n % d) < d then n / d
  else if d < 2 * (n % d) then n / d + 1
  else n / d + n / d % 2

theorem le_two_mul_roundDiv (n d : Nat) (hd : 0 < d) : 2 * n ≤ 2 * (roundDiv n d * d) + d := by
  have hn := Nat.div_add_mod n d
  have hm := Nat.mod_lt n hd
  have hc : d * (n / d) = n / d * d := Nat.mul_comm _ _
  unfold roundDiv
  split
  · omega
  · split
    · rw [Nat.add_mul]; omega
    · rw [Nat.add_mul]
      have : 0 ≤ n / d % 2 * d := Nat.zero_le _
      omega

theorem two_mul_roundDiv_le (n d : Nat) (hd : 0 < d) : 2 * (roundDiv n d * d) ≤ 2 * n + d := by
  have hn := Nat.div_add_mod n d
  have hm := Nat.mod_lt n hd
  have hc : d * (n / d) = n / d * d := Nat.mul_comm _ _
  unfold roundDiv
  split
  · omega
  · split
    · rw [Nat.add_mul]; omega
    · rw [Nat.add_mul]
      have h2 : n / d % 2 < 2 := Nat.mod_lt _ (by decide)
      have : n / d % 2 * d ≤ 1 * d := Nat.mul_le_mul_right d (by omega)
      omega

/-! ## Binary fractions -/

/-- The non-negative value `numerator / 2 ^ scale`. -/
structure Dyadic where
  numerator : Nat
  scale : Nat
deriving DecidableEq, Repr

namespace Dyadic

def precision : Nat := 53

/-- The largest `k` with `2 ^ k ≤ n / d`, for positive `n` and `d`. -/
def exponent (n d : Nat) : Int :=
  let k : Int := n.log2 - d.log2
  if d <<< k.toNat ≤ n <<< (-k).toNat then k else k - 1

/-- The double nearest to `n / d`, ties to even. The values that durations give rise to are far
from the ends of the exponent range, so only the precision limits them. -/
def nearest (n d : Nat) : Dyadic :=
  if n = 0 then ⟨0, 0⟩
  else
    let unit : Int := exponent n d - (precision - 1 : Nat)
    ⟨roundDiv (n <<< (-unit).toNat) (d <<< unit.toNat) <<< unit.toNat, (-unit).toNat⟩

def add (a b : Dyadic) : Dyadic :=
  nearest (a.numerator <<< b.scale + b.numerator <<< a.scale) (1 <<< (a.scale + b.scale))

def ceil (a : Dyadic) : Nat :=
  (a.numerator + 1 <<< a.scale - 1) >>> a.scale

/-- `n` in decimal, filled with zeros on the left to at least `width` digits. -/
def padded (width n : Nat) : String :=
  let digits := toString n
  String.ofList (List.replicate (width - digits.length) '0') ++ digits

/-- The value with `places` decimals, the exact binary value rounded to nearest, ties to even. -/
def fixed (places : Nat) (a : Dyadic) : String :=
  let one := Nat.pow 10 places
  let units := roundDiv (a.numerator * one) (1 <<< a.scale)
  toString (units / one) ++ "." ++ padded places (units % one)

end Dyadic

end LiveHls
