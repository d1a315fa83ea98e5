import LiveHls.Mp4.Box
import Mathlib.Algebra.Order.BigOperators.Group.List
import Mathlib.Algebra.Order.Group.Nat
import Mathlib.Algebra.Ring.Nat

/-!
# Reading boxes

A reader that knows nothing of the writer: it takes big-endian words from the front of a byte string
and cuts a byte string into boxes, all of it or none.

* `Bytes.ofBigEndian` : the number that a byte string spells (`ofBigEndian_bigEndian` : it reads
  back what was written, modulo `256 ^ w`);
* `word16?`, `word32?`, `word64?`, `versioned?` : the next field and the bytes behind it, each with
  what it makes of a field that was written (`word32?_word32`, `versioned?_versioned`);
* `boxes?` : the boxes of a byte string, without a byte left over;
* `boxes?_encodeAll` : boxes that were written read back as they are.
-/

namespace LiveHls

namespace Bytes

/-- The number that a byte string spells in base 256. -/
def ofBigEndian (bytes : Bytes) : Nat := bytes.foldl (fun n b => n * 256 + b.toNat) 0

theorem foldl_bigEndian (w n start : Nat) :
    (bigEndian w n).foldl (fun n b => n * 256 + b.toNat) start = start * 256 ^ w + n % 256 ^ w := by
  induction w generalizing start with
  | zero => simp [bigEndian, Nat.mod_one]
  | succ w ih =>
    have hb : (UInt8.ofNat (n >>> (8 * w))).toNat = n / 256 ^ w % 256 := by
      rw [Nat.shiftRight_eq_div_pow, Nat.pow_mul]
      exact UInt8.toNat_ofNat'
    unfold bigEndian
    rw [List.foldl_cons, ih, hb, Nat.pow_succ, Nat.mod_mul, Nat.add_mul, Nat.mul_assoc,
      Nat.mul_comm 256, Nat.mul_comm (n / 256 ^ w % 256), Nat.add_assoc, Nat.add_comm (n % 256 ^ w)]

theorem ofBigEndian_bigEndian (w n : Nat) : ofBigEndian (bigEndian w n) = n % 256 ^ w := by
  unfold ofBigEndian
  rw [foldl_bigEndian, Nat.zero_mul, Nat.zero_add]

end Bytes

namespace Mp4

open Bytes (bigEndian ofBigEndian ofBigEndian_bigEndian length_bigEndian word16 word32 word64)

/-! ## Fields -/

/-- The number that the next `width` bytes spell, and the bytes behind them. -/
def number? (width : Nat) (bytes : Bytes) : Option (Nat × Bytes) :=
  if width ≤ bytes.length then some (ofBigEndian (bytes.take width), bytes.drop width) else none

def word16? (bytes : Bytes) : Option (UInt16 × Bytes) :=
  (number? 2 bytes).map fun (n, rest) => (UInt16.ofNat n, rest)

def word32? (bytes : Bytes) : Option (UInt32 × Bytes) :=
  (number? 4 bytes).map fun (n, rest) => (UInt32.ofNat n, rest)

def word64? (bytes : Bytes) : Option (UInt64 × Bytes) :=
  (number? 8 bytes).map fun (n, rest) => (UInt64.ofNat n, rest)

/-- Version and flags of a full box, and its fields. -/
def versioned? (bytes : Bytes) : Option (UInt32 × UInt32 × Bytes) :=
  (word32? bytes).map fun (word, rest) => (word >>> 24, word &&& 0x00FFFFFF, rest)

theorem number?_bigEndian (width n : Nat) (rest : Bytes) :
    number? width (bigEndian width n ++ rest) = some (n % 256 ^ width, rest) := by
  have hle : width ≤ (bigEndian width n ++ rest).length := by
    rw [List.length_append, length_bigEndian]
    omega
  unfold number?
  rw [if_pos hle, List.take_left' (length_bigEndian width n),
    List.drop_left' (length_bigEndian width n), ofBigEndian_bigEndian]

@[simp] theorem word16?_word16 (n : UInt16) (rest : Bytes) :
    word16? (word16 n ++ rest) = some (n, rest) := by
  have hn : n.toNat < 256 ^ 2 := n.toNat_lt
  rw [word16?, word16, number?_bigEndian, Nat.mod_eq_of_lt hn]
  exact congrArg some (Prod.ext UInt16.ofNat_toNat rfl)

@[simp] theorem word32?_word32 (n : UInt32) (rest : Bytes) :
    word32? (word32 n ++ rest) = some (n, rest) := by
  have hn : n.toNat < 256 ^ 4 := n.toNat_lt
  rw [word32?, word32, number?_bigEndian, Nat.mod_eq_of_lt hn]
  exact congrArg some (Prod.ext UInt32.ofNat_toNat rfl)

@[simp] theorem word64?_word64 (n : UInt64) (rest : Bytes) :
    word64? (word64 n ++ rest) = some (n, rest) := by
  have hn : n.toNat < 256 ^ 8 := n.toNat_lt
  rw [word64?, word64, number?_bigEndian, Nat.mod_eq_of_lt hn]
  exact congrArg some (Prod.ext UInt64.ofNat_toNat rfl)

theorem toNat_versionAndFlags (version : UInt8) (flags : UInt32) :
    ((version.toUInt32 <<< 24) ||| (flags &&& 0x00FFFFFF)).toNat =
      version.toNat * 2 ^ 24 + flags.toNat % 2 ^ 24 := by
  have hversion := version.toNat_lt
  have hflags : (flags &&& 0x00FFFFFF).toNat = flags.toNat % 2 ^ 24 :=
    Nat.and_two_pow_sub_one_eq_mod flags.toNat 24
  have hshift : (version.toUInt32 <<< 24).toNat = 2 ^ 24 * version.toNat := by
    rw [UInt32.toNat_shiftLeft, UInt8.toNat_toUInt32, Nat.shiftLeft_eq, Nat.mul_comm]
    exact Nat.mod_eq_of_lt (by change 2 ^ 24 * version.toNat < _; omega)
  rw [UInt32.toNat_or, hshift, hflags,
    ← Nat.two_pow_add_eq_or_of_lt (Nat.mod_lt _ (Nat.two_pow_pos 24)), Nat.mul_comm]

@[simp] theorem versioned?_versioned (version : UInt8) (flags : UInt32) (fields : Bytes) :
    versioned? (Box.versioned version flags fields) =
      some (version.toUInt32, flags &&& 0x00FFFFFF, fields) := by
  have hversion := version.toNat_lt
  have hword := toNat_versionAndFlags version flags
  unfold versioned? Box.versioned
  rw [word32?_word32, Option.map_some]
  refine congrArg some (Prod.ext ?_ (Prod.ext ?_ rfl))
  · apply UInt32.toNat_inj.1
    rw [UInt32.toNat_shiftRight, hword, UInt8.toNat_toUInt32, Nat.shiftRight_eq_div_pow]
    show _ / 2 ^ 24 = _
    omega
  · apply UInt32.toNat_inj.1
    rw [UInt32.toNat_and, UInt32.toNat_and, hword]
    show _ &&& 2 ^ 24 - 1 = _ &&& 2 ^ 24 - 1
    rw [Nat.and_two_pow_sub_one_eq_mod, Nat.and_two_pow_sub_one_eq_mod]
    omega

/-! ## Boxes -/

/-- A box as a reader finds it: its type and the bytes behind its header. -/
structure RawBox where
  type : FourCC
  payload : Bytes
deriving DecidableEq

/-- Bytes of the whole box. -/
def RawBox.size (b : RawBox) : Nat := headerLength + b.payload.length

/-- The boxes that follow each other in a byte string, if they fill it. -/
def boxes? : Bytes → Option (List RawBox)
  | [] => some []
  | s₁ :: s₂ :: s₃ :: s₄ :: t₁ :: t₂ :: t₃ :: t₄ :: rest =>
    let size := ofBigEndian [s₁, s₂, s₃, s₄]
    if headerLength ≤ size ∧ size ≤ headerLength + rest.length then
      let length := size - headerLength
      (boxes? (rest.drop length)).map (⟨⟨t₁, t₂, t₃, t₄⟩, rest.take length⟩ :: ·)
    else none
  | _ => none
termination_by bytes => bytes.length

/-- The payload of the first box of a type among boxes. -/
def child? (type : FourCC) (bytes : Bytes) : Option Bytes :=
  (boxes? bytes).bind fun bs => (bs.find? (·.type == type)).map (·.payload)

/-- What a reader finds of a box that was written. -/
def Box.raw : Box → RawBox
  | mk type fields children => ⟨type, fields ++ encodeAll children⟩

@[simp] theorem Box.raw_leaf (type : FourCC) (fields : Bytes) :
    (leaf type fields).raw = ⟨type, fields⟩ := by
  rw [leaf, raw, encodeAll_nil, List.append_nil]

@[simp] theorem Box.raw_container (type : FourCC) (children : List Box) :
    (container type children).raw = ⟨type, encodeAll children⟩ := rfl

theorem Box.length_encode (b : Box) : b.encode.length = b.raw.size := by
  cases b with
  | mk type fields children => rw [encode_mk, length_frame]; rfl

theorem boxes?_header {s₁ s₂ s₃ s₄ : UInt8} {content : Bytes}
    (h : ofBigEndian [s₁, s₂, s₃, s₄] = headerLength + content.length) (type : FourCC)
    (rest : Bytes) :
    boxes? ([s₁, s₂, s₃, s₄] ++ (type.bytes ++ (content ++ rest))) =
      (boxes? rest).map (⟨type, content⟩ :: ·) := by
  show boxes? (s₁ :: s₂ :: s₃ :: s₄ :: type.first :: type.second :: type.third :: type.fourth ::
    (content ++ rest)) = _
  rw [boxes?, h]
  simp only [Nat.add_sub_cancel_left, List.take_left, List.drop_left]
  refine if_pos ⟨Nat.le_add_right .., ?_⟩
  rw [List.length_append]
  omega

theorem boxes?_frame_append {type : FourCC} {content : Bytes}
    (h : headerLength + content.length < 2 ^ 32) (rest : Bytes) :
    boxes? (frame type content ++ rest) = (boxes? rest).map (⟨type, content⟩ :: ·) := by
  have hsize : ofBigEndian (word32 (Saturating.toUInt32 (headerLength + content.length))) =
      headerLength + content.length := by
    rw [word32, ofBigEndian_bigEndian, Saturating.toNat_toUInt32]
    omega
  rw [frame, List.append_assoc, List.append_assoc]
  exact boxes?_header hsize type rest

/-- **Boxes that were written read back as they are.** -/
theorem boxes?_encodeAll {bs : List Box} (h : (Box.encodeAll bs).length < 2 ^ 32) :
    boxes? (Box.encodeAll bs) = some (bs.map Box.raw) := by
  induction bs with
  | nil => rw [Box.encodeAll_nil, boxes?]; rfl
  | cons b bs ih =>
    rw [Box.encodeAll_cons, List.length_append] at h
    cases b with
    | mk type fields children =>
      rw [Box.encode_mk, length_frame] at h
      rw [Box.encodeAll_cons, Box.encode_mk, boxes?_frame_append (by omega), ih (by omega)]
      rfl

theorem child?_encodeAll {bs : List Box} (h : (Box.encodeAll bs).length < 2 ^ 32) (type : FourCC) :
    child? type (Box.encodeAll bs) =
      ((bs.map Box.raw).find? (·.type == type)).map (·.payload) := by
  unfold child?
  rw [boxes?_encodeAll h, Option.bind_some]

theorem Box.length_encodeAll (bs : List Box) :
    (encodeAll bs).length = ((bs.map Box.raw).map RawBox.size).sum := by
  induction bs with
  | nil => rw [encodeAll_nil]; rfl
  | cons b bs ih =>
    rw [encodeAll_cons, List.length_append, ih, length_encode]
    rfl

theorem Box.size_le_of_mem {b : Box} {bs : List Box} (h : b ∈ bs) :
    b.raw.size ≤ (encodeAll bs).length := by
  rw [length_encodeAll]
  exact List.single_le_sum (fun _ _ => Nat.zero_le _) _
    (List.mem_map_of_mem (List.mem_map_of_mem h))

theorem mapM_map_eq_some {α β γ : Type} {f : β → Option γ} {g : α → β} {h : α → γ} {l : List α}
    (hl : ∀ a ∈ l, f (g a) = some (h a)) : (l.map g).mapM f = some (l.map h) := by
  induction l with
  | nil => rfl
  | cons a l ih =>
    rw [List.map_cons, List.mapM_cons, hl a List.mem_cons_self,
      ih fun b hb => hl b (List.mem_cons_of_mem _ hb)]
    rfl

end Mp4

end LiveHls
