/-!
# Narrowing to a fixed width

A value that does not fit a field becomes the largest value of the field; it never wraps. Each
function has its law in `Nat`: the result is the minimum of the value and that maximum.
-/

namespace LiveHls.Saturating

/-- The largest value of a 31-bit field. -/
def max31 : Nat := 0x7FFFFFFF

def toUInt16 (n : Nat) : UInt16 := UInt16.ofNat (min n 0xFFFF)

def toUInt32 (n : Nat) : UInt32 := UInt32.ofNat (min n 0xFFFFFFFF)

/-- A 31-bit field, kept in a 32-bit word. -/
def toUInt31 (n : Nat) : UInt32 := UInt32.ofNat (min n max31)

/-- A signed 32-bit field; the argument is not negative, so only the upper end saturates. -/
def toInt32 (n : Nat) : Int32 := Int32.ofNat (min n max31)

def toUInt64 (n : Nat) : UInt64 := UInt64.ofNat (min n 0xFFFFFFFFFFFFFFFF)

@[simp] theorem toNat_toUInt16 (n : Nat) : (toUInt16 n).toNat = min n 0xFFFF := by
  rw [toUInt16, UInt16.toNat_ofNat_of_lt']
  show _ < 2 ^ 16
  omega

@[simp] theorem toNat_toUInt32 (n : Nat) : (toUInt32 n).toNat = min n 0xFFFFFFFF := by
  rw [toUInt32, UInt32.toNat_ofNat_of_lt']
  show _ < 2 ^ 32
  omega

@[simp] theorem toNat_toUInt31 (n : Nat) : (toUInt31 n).toNat = min n max31 := by
  rw [toUInt31, UInt32.toNat_ofNat_of_lt']
  show _ < 2 ^ 32
  unfold max31
  omega

@[simp] theorem toNat_toUInt64 (n : Nat) : (toUInt64 n).toNat = min n 0xFFFFFFFFFFFFFFFF := by
  rw [toUInt64, UInt64.toNat_ofNat_of_lt']
  show _ < 2 ^ 64
  omega

end LiveHls.Saturating
