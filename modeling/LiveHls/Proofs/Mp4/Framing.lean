import LiveHls.Mp4.Descriptor
import LiveHls.Proofs.Mp4.Reading

/-!
# Reading nested elements

Boxes and descriptors are framed alike: a key and a length, then some fields and further elements.

* `Framing`, `Framing.readAll?` : a reader that takes a byte string apart into elements and these
  into theirs, without a byte left over;
* `Framing.Lawful.readAll?_flatMap` : elements that were written read back as they are, if the
  reader looks for elements where they were written (`Framing.Shaped`);
* `boxFraming`, `descriptorFraming` : the two of them;
* `Box.Sized` : the size fields of a box and of all boxes in it are the numbers of their bytes.
-/

namespace LiveHls.Mp4

open Bytes (ofBigEndian ofBigEndian_bigEndian word32)

/-! ## Framings -/

/-- How elements with keys are laid out in bytes. -/
structure Framing (Key Element : Type) where
  make : Key → Bytes → List Element → Element
  /-- Key and content of the first element, and the bytes behind it. -/
  next? : Bytes → Option (Key × Bytes × Bytes)
  /-- Bytes of fields in front of the elements in an element; none if it contains no elements. -/
  fieldsLength? : Key → Option Nat

namespace Framing
variable {Key Element : Type} (F : Framing Key Element)

/-- The elements that follow each other in a byte string, each with the elements in it. -/
def readAll? (bytes : Bytes) : Option (List Element) :=
  if bytes = [] then some []
  else
    match F.next? bytes with
    | none => none
    | some (key, content, rest) =>
      if content.length < bytes.length ∧ rest.length < bytes.length then
        match F.fieldsLength? key with
        | none => (readAll? rest).map (F.make key content [] :: ·)
        | some n =>
          if n ≤ content.length then
            (readAll? (content.drop n)).bind fun elements =>
              (readAll? rest).map (F.make key (content.take n) elements :: ·)
          else none
      else none
termination_by bytes.length

/-- There are elements in an element exactly where a reader looks for them. -/
inductive Shaped : Element → Prop
  | leaf {key : Key} {fields : Bytes} (no_elements : F.fieldsLength? key = none) :
      Shaped (F.make key fields [])
  | node {key : Key} {fields : Bytes} {elements : List Element}
      (fields_length : F.fieldsLength? key = some fields.length)
      (shaped : ∀ e ∈ elements, Shaped e) : Shaped (F.make key fields elements)

/-- What elements are written as, if they have less than `limit` bytes. -/
structure Lawful (encode : Element → Bytes) (limit : Nat) : Prop where
  length_lt : ∀ key fields elements,
    (fields ++ elements.flatMap encode).length < (encode (F.make key fields elements)).length
  next?_encode : ∀ key fields elements rest, (encode (F.make key fields elements)).length < limit →
    F.next? (encode (F.make key fields elements) ++ rest) =
      some (key, fields ++ elements.flatMap encode, rest)

variable {F} {encode : Element → Bytes} {limit : Nat}

theorem readAll?_nil : F.readAll? [] = some [] := by
  rw [readAll?, if_pos rfl]

/-- What a reader makes of an element in front of other bytes. -/
theorem Lawful.readAll?_make (hF : F.Lawful encode limit) {key : Key} {fields : Bytes}
    {elements : List Element} (hlimit : (encode (F.make key fields elements)).length < limit)
    (rest : Bytes) :
    F.readAll? (encode (F.make key fields elements) ++ rest) =
      match F.fieldsLength? key with
      | none => (F.readAll? rest).map (F.make key (fields ++ elements.flatMap encode) [] :: ·)
      | some n =>
        if n ≤ (fields ++ elements.flatMap encode).length then
          (F.readAll? ((fields ++ elements.flatMap encode).drop n)).bind fun es =>
            (F.readAll? rest).map
              (F.make key ((fields ++ elements.flatMap encode).take n) es :: ·)
        else none := by
  have hlength := hF.length_lt key fields elements
  have hne : encode (F.make key fields elements) ++ rest ≠ [] := by
    intro hnil
    rw [(List.append_eq_nil_iff.1 hnil).1] at hlength
    exact Nat.not_lt_zero _ hlength
  rw [readAll?, if_neg hne, hF.next?_encode key fields elements rest hlimit]
  refine if_pos ?_
  simp only [List.length_append] at hlength ⊢
  omega

theorem readAll?_flatMap_of_forall {es : List Element}
    (h : ∀ e ∈ es, ∀ rest, F.readAll? (encode e ++ rest) = (F.readAll? rest).map (e :: ·)) :
    F.readAll? (es.flatMap encode) = some es := by
  induction es with
  | nil => exact readAll?_nil
  | cons e es ih =>
    rw [List.flatMap_cons, h e List.mem_cons_self, ih fun f hf => h f (List.mem_cons_of_mem _ hf),
      Option.map_some]

theorem length_le_of_mem (encode : Element → Bytes) {e : Element} {es : List Element} (h : e ∈ es) :
    (encode e).length ≤ (es.flatMap encode).length := by
  rw [List.flatMap_def]
  exact (List.sublist_flatten_of_mem (List.mem_map_of_mem h)).length_le

/-- **An element that was written** is read back with all elements in it. -/
theorem Lawful.readAll?_append (hF : F.Lawful encode limit) {e : Element} (he : F.Shaped e)
    (hlimit : (encode e).length < limit) (rest : Bytes) :
    F.readAll? (encode e ++ rest) = (F.readAll? rest).map (e :: ·) := by
  induction he generalizing rest with
  | leaf hkey =>
    rw [hF.readAll?_make hlimit, hkey, List.flatMap_nil, List.append_nil]
  | @node key fields elements hkey _ ih =>
    have hlength := hF.length_lt key fields elements
    rw [List.length_append] at hlength
    have helements : F.readAll? (elements.flatMap encode) = some elements := by
      refine readAll?_flatMap_of_forall fun e he => ih e he ?_
      have := length_le_of_mem encode he
      omega
    rw [hF.readAll?_make hlimit, hkey]
    simp only [List.length_append, Nat.le_add_right, if_true, List.drop_left, List.take_left,
      helements, Option.bind_some]

/-- **Elements that were written** are read back with all elements in them. -/
theorem Lawful.readAll?_flatMap (hF : F.Lawful encode limit) {es : List Element}
    (hes : ∀ e ∈ es, F.Shaped e) (hlimit : (es.flatMap encode).length < limit) :
    F.readAll? (es.flatMap encode) = some es :=
  readAll?_flatMap_of_forall fun e he rest =>
    hF.readAll?_append (hes e he) (Nat.lt_of_le_of_lt (length_le_of_mem encode he) hlimit) rest

end Framing

/-! ## Boxes -/

/-- Type and content of the first box, and the bytes behind it. -/
def nextBox? (bytes : Bytes) : Option (FourCC × Bytes × Bytes) := do
  let (size, rest) ← number? 4 bytes
  let type ← FourCC.ofBytes? (rest.take 4)
  let rest := rest.drop 4
  if headerLength ≤ size ∧ size ≤ headerLength + rest.length then
    some (type, rest.take (size - headerLength), rest.drop (size - headerLength))
  else none

/-- The boxes of an initialization segment that contain boxes, each with the bytes of fields in
front of these. -/
def boxesWithBoxes : List (FourCC × Nat) :=
  [(.ascii 'm' 'o' 'o' 'v', 0), (.ascii 't' 'r' 'a' 'k', 0), (.ascii 'm' 'd' 'i' 'a', 0),
   (.ascii 'm' 'i' 'n' 'f', 0), (.ascii 'd' 'i' 'n' 'f', 0), (.ascii 'd' 'r' 'e' 'f', 8),
   (.ascii 's' 't' 'b' 'l', 0), (.ascii 's' 't' 's' 'd', 8), (.ascii 'a' 'v' 'c' '1', 78),
   (.ascii 'h' 'e' 'v' '1', 78), (.ascii 'm' 'p' '4' 'a', 28), (.ascii 'm' 'v' 'e' 'x', 0)]

def boxFraming : Framing FourCC Box := ⟨.mk, nextBox?, (List.lookup · boxesWithBoxes)⟩

/-- The largest content that the size of a box can state. -/
def maxContent : Nat := 2 ^ 32 - 1 - headerLength

/-- Of a box that is too large for its size field a reader finds the front. -/
theorem nextBox?_frame_append (type : FourCC) (content rest : Bytes) :
    nextBox? (frame type content ++ rest) =
      some (type, content.take maxContent,
        (content ++ rest).drop (min content.length maxContent)) := by
  have hsize : (Saturating.toUInt32 (headerLength + content.length)).toNat % 256 ^ 4 =
      headerLength + min content.length maxContent := by
    rw [Saturating.toNat_toUInt32, maxContent, headerLength]
    omega
  have htype : FourCC.ofBytes? ((type.bytes ++ (content ++ rest)).take 4) = some type := rfl
  have hrest : (type.bytes ++ (content ++ rest)).drop 4 = content ++ rest := rfl
  have hfits : headerLength + min content.length maxContent ≤
      headerLength + (content ++ rest).length := by
    rw [List.length_append]
    omega
  have htake : (content ++ rest).take (min content.length maxContent) =
      content.take maxContent := by
    rw [List.take_append_of_le_length (Nat.min_le_left ..), Nat.min_comm, ← List.take_take,
      List.take_length]
  rw [frame, List.append_assoc, List.append_assoc, nextBox?, word32, number?_bigEndian, hsize]
  simp only [Option.bind_eq_bind, Option.bind_some, htype, hrest, hfits, Nat.le_add_right,
    and_self, if_true, Nat.add_sub_cancel_left, htake]

theorem nextBox?_frame {type : FourCC} {content : Bytes}
    (h : headerLength + content.length < 2 ^ 32) (rest : Bytes) :
    nextBox? (frame type content ++ rest) = some (type, content, rest) := by
  have hle : content.length ≤ maxContent := by
    unfold maxContent
    omega
  rw [nextBox?_frame_append, List.take_of_length_le hle, Nat.min_eq_left hle, List.drop_left]

theorem boxFraming_lawful : boxFraming.Lawful Box.encode (2 ^ 32) where
  length_lt type fields children := by
    show _ < (Box.encode (.mk type fields children)).length
    rw [Box.encode_mk, Box.encodeAll_eq_flatMap, length_frame, headerLength]
    omega
  next?_encode type fields children rest hlimit := by
    have hlimit : (Box.encode (.mk type fields children)).length < 2 ^ 32 := hlimit
    rw [Box.encode_mk, Box.encodeAll_eq_flatMap, length_frame] at hlimit
    show nextBox? (Box.encode (.mk type fields children) ++ rest) = _
    rw [Box.encode_mk, Box.encodeAll_eq_flatMap]
    exact nextBox?_frame hlimit rest

namespace Box

/-- The size fields of a box and of all boxes in it are the numbers of their bytes. -/
inductive Sized : Box → Prop
  | mk {type : FourCC} {fields : Bytes} {children : List Box}
      (size_eq : ofBigEndian ((Box.mk type fields children).encode.take 4) =
        (Box.mk type fields children).encode.length)
      (children_sized : ∀ b ∈ children, Sized b) : Sized (.mk type fields children)

mutual

theorem sized_of_length_lt : ∀ b : Box, b.encode.length < 2 ^ 32 → b.Sized
  | .mk type fields children => fun h => by
    rw [encode_mk, length_frame, List.length_append] at h
    refine .mk ?_ (sized_of_length_encodeAll_lt children (by omega))
    rw [encode_mk, length_frame, frame, List.take_left' (Bytes.length_word32 _), word32,
      ofBigEndian_bigEndian, Saturating.toNat_toUInt32, List.length_append]
    omega

theorem sized_of_length_encodeAll_lt :
    ∀ bs : List Box, (encodeAll bs).length < 2 ^ 32 → ∀ b ∈ bs, b.Sized
  | [] => fun _ _ hb => by cases hb
  | b :: bs => fun h c hc => by
    rw [encodeAll_cons, List.length_append] at h
    rcases List.mem_cons.1 hc with hc | hc
    · rw [hc]
      exact sized_of_length_lt b (by omega)
    · exact sized_of_length_encodeAll_lt bs (by omega) c hc

end

mutual

/-- The types of a box and of all boxes in it. -/
def bare : Box → Box
  | .mk type _ children => .mk type [] (bareAll children)

def bareAll : List Box → List Box
  | [] => []
  | b :: bs => b.bare :: bareAll bs

end

theorem bareAll_eq_map (bs : List Box) : bareAll bs = bs.map bare := by
  induction bs with
  | nil => rfl
  | cons b bs ih => exact congrArg (b.bare :: ·) ih

end Box

/-! ## Descriptors -/

/-- A length in at most `groups` bytes, seven bits in each, all but the last marked as continued,
and the bytes behind it. -/
def continuedLength? : Nat → Nat → Bytes → Option (Nat × Bytes)
  | 0, _, _ => none
  | _ + 1, _, [] => none
  | groups + 1, start, b :: rest =>
    if b.toNat < 128 then some (start * 128 + b.toNat, rest)
    else continuedLength? groups (start * 128 + b.toNat % 128) rest

/-- Tag and content of the first descriptor, and the bytes behind it. -/
def nextDescriptor? : Bytes → Option (UInt8 × Bytes × Bytes)
  | [] => none
  | tag :: bytes => do
    let (length, rest) ← continuedLength? 4 0 bytes
    if length ≤ rest.length then some (tag, rest.take length, rest.drop length) else none

/-- An elementary stream has three bytes of fields and a decoder configuration thirteen. -/
def descriptorsWithDescriptors : List (UInt8 × Nat) := [(0x03, 3), (0x04, 13)]

def descriptorFraming : Framing UInt8 Descriptor :=
  ⟨.mk, nextDescriptor?, (List.lookup · descriptorsWithDescriptors)⟩

namespace Descriptor

theorem encodeAll_eq_flatMap (ds : List Descriptor) : encodeAll ds = ds.flatMap encode := by
  induction ds with
  | nil => rw [encodeAll, List.flatMap_nil]
  | cons d ds ih => rw [encodeAll, List.flatMap_cons, ih]

theorem continuedLength?_expandableLength {n : Nat} (h : n ≤ maxLength) (rest : Bytes) :
    continuedLength? 4 0 (expandableLength n ++ rest) = some (n, rest) := by
  have hmin : min n maxLength = n := Nat.min_eq_left h
  have hmarked (k : Nat) : (UInt8.ofNat (128 + k % 128)).toNat = 128 + k % 128 :=
    UInt8.toNat_ofNat_of_lt' (by show _ < 256; omega)
  have hlast : (UInt8.ofNat (n % 128)).toNat = n % 128 :=
    UInt8.toNat_ofNat_of_lt' (by show _ < 256; omega)
  have hgo (k : Nat) : ¬128 + k % 128 < 128 := by omega
  have hstop : n % 128 < 128 := Nat.mod_lt _ (by decide)
  simp only [expandableLength, hmin, List.cons_append, List.nil_append, continuedLength?, hmarked,
    hlast, hgo, hstop, if_true, if_false]
  unfold maxLength at h
  refine congrArg some (Prod.ext ?_ rfl)
  show _ = n
  omega

theorem nextDescriptor?_frame {tag : UInt8} {content : Bytes} (h : content.length ≤ maxLength)
    (rest : Bytes) : nextDescriptor? (frame tag content ++ rest) = some (tag, content, rest) := by
  have hfits : content.length ≤ (content ++ rest).length := by
    rw [List.length_append]
    omega
  rw [frame, List.cons_append, List.append_assoc, nextDescriptor?,
    continuedLength?_expandableLength h]
  simp only [Option.bind_eq_bind, Option.bind_some, hfits, if_true, List.take_left, List.drop_left]

end Descriptor

/-- A descriptor is at most as long as four groups of seven bits can state, behind five bytes. -/
theorem descriptorFraming_lawful :
    descriptorFraming.Lawful Descriptor.encode (Descriptor.maxLength + 6) where
  length_lt tag fields children := by
    show _ < (Descriptor.encode (.mk tag fields children)).length
    rw [Descriptor.encode, Descriptor.encodeAll_eq_flatMap, Descriptor.length_frame]
    omega
  next?_encode tag fields children rest hlimit := by
    have hlimit : (Descriptor.encode (.mk tag fields children)).length < _ := hlimit
    rw [Descriptor.encode, Descriptor.encodeAll_eq_flatMap, Descriptor.length_frame] at hlimit
    show nextDescriptor? (Descriptor.encode (.mk tag fields children) ++ rest) = _
    rw [Descriptor.encode, Descriptor.encodeAll_eq_flatMap]
    exact Descriptor.nextDescriptor?_frame (by omega) rest

end LiveHls.Mp4
