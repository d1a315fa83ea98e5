/-!
# Byte strings and big-endian words

* `bigEndian w n` : the low `w` bytes of `n`, most significant first (`length_bigEndian`);
* `word16`, `word32`, `word64`, `int32` : fields of a fixed width.
-/

namespace LiveHls

/-- A string of bytes. -/
abbrev Bytes := List UInt8

namespace Bytes

/-- The low `width` bytes of `n`, most significant first. -/
def bigEndian : Nat → Nat → Bytes
  | 0, _ => []
  | width + 1, n => UInt8.ofNat (n >>> (8 * width)) :: bigEndian width n

def word16 (n : UInt16) : Bytes := bigEndian 2 n.toNat
def word32 (n : UInt32) : Bytes := bigEndian 4 n.toNat
def word64 (n : UInt64) : Bytes := bigEndian 8 n.toNat

/-- A signed 32-bit field in two's complement. -/
def int32 (n : Int32) : Bytes := word32 n.toUInt32

def zeros (count : Nat) : Bytes := List.replicate count 0

@[simp] theorem length_bigEndian (w n : Nat) : (bigEndian w n).length = w := by
  induction w with
  | zero => rfl
  | succ w ih => simp [bigEndian, ih]

@[simp] theorem length_word16 (n : UInt16) : (word16 n).length = 2 := length_bigEndian ..
@[simp] theorem length_word32 (n : UInt32) : (word32 n).length = 4 := length_bigEndian ..
@[simp] theorem length_word64 (n : UInt64) : (word64 n).length = 8 := length_bigEndian ..
@[simp] theorem length_int32 (n : Int32) : (int32 n).length = 4 := length_bigEndian ..
@[simp] theorem length_zeros (n : Nat) : (zeros n).length = n := List.length_replicate

end Bytes

end LiveHls
