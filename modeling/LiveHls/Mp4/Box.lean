import LiveHls.Bytes
import LiveHls.Saturating

/-!
# Boxes of the ISO base media file format

A box is a 32-bit size, a four character type and its content: fields followed by the boxes it
contains. The size counts the whole box. A box whose size does not fit 32 bits states the largest
size instead.

* `Box` : the tree, `Box.encode` and `Box.encodeAll` its bytes;
* `frame` : size and type in front of a given content (`length_frame`);
* `overwrite` : replaces bytes at a position;
* `Box.write` : the same bytes as `encode`, appended to a buffer the way a streaming writer does,
  with the size filled in once the content is known (`write_eq_append_encode`).
-/

namespace LiveHls.Mp4

/-- A four character type. -/
structure FourCC where
  first : UInt8
  second : UInt8
  third : UInt8
  fourth : UInt8
deriving DecidableEq, Repr

namespace FourCC

def ascii (a b c d : Char) : FourCC :=
  ⟨a.val.toUInt8, b.val.toUInt8, c.val.toUInt8, d.val.toUInt8⟩

def bytes (t : FourCC) : Bytes := [t.first, t.second, t.third, t.fourth]

/-- The type spelled by exactly four bytes. -/
def ofBytes? : Bytes → Option FourCC
  | [a, b, c, d] => some ⟨a, b, c, d⟩
  | _ => none

@[simp] theorem length_bytes (t : FourCC) : t.bytes.length = 4 := rfl

@[simp] theorem ofBytes?_bytes (t : FourCC) : ofBytes? t.bytes = some t := rfl

end FourCC

/-- A box: its type, its fields and the boxes it contains. -/
inductive Box where
  | mk (type : FourCC) (fields : Bytes) (children : List Box)

/-- Bytes in front of a box's content. -/
def headerLength : Nat := 8

/-- Size and type in front of `content`. -/
def frame (type : FourCC) (content : Bytes) : Bytes :=
  Bytes.word32 (Saturating.toUInt32 (headerLength + content.length)) ++ (type.bytes ++ content)

@[simp] theorem length_frame (type : FourCC) (content : Bytes) :
    (frame type content).length = headerLength + content.length := by
  simp [frame, headerLength]; omega

namespace Box

def leaf (type : FourCC) (fields : Bytes) : Box := mk type fields []

def container (type : FourCC) (children : List Box) : Box := mk type [] children

/-- Fields of a full box: version, 24 bits of flags, then `fields`. -/
def versioned (version : UInt8) (flags : UInt32) (fields : Bytes) : Bytes :=
  Bytes.word32 ((version.toUInt32 <<< 24) ||| (flags &&& 0x00FFFFFF)) ++ fields

@[simp] theorem length_versioned (version : UInt8) (flags : UInt32) (fields : Bytes) :
    (versioned version flags fields).length = 4 + fields.length := by
  simp [versioned]

mutual

def encode : Box → Bytes
  | mk type fields children => frame type (fields ++ encodeAll children)

def encodeAll : List Box → Bytes
  | [] => []
  | b :: bs => b.encode ++ encodeAll bs

end

@[simp] theorem encodeAll_nil : encodeAll [] = [] := by rw [encodeAll]

@[simp] theorem encodeAll_cons (b : Box) (bs : List Box) :
    encodeAll (b :: bs) = b.encode ++ encodeAll bs := by rw [encodeAll]

theorem encode_mk (type : FourCC) (fields : Bytes) (children : List Box) :
    (mk type fields children).encode = frame type (fields ++ encodeAll children) := by rw [encode]

theorem encodeAll_eq_flatMap (bs : List Box) : encodeAll bs = bs.flatMap encode := by
  induction bs with
  | nil => simp
  | cons b bs ih => simp [ih]

@[simp] theorem encodeAll_append (as bs : List Box) :
    encodeAll (as ++ bs) = encodeAll as ++ encodeAll bs := by
  simp [encodeAll_eq_flatMap]

end Box

/-! ## Writing into a buffer -/

/-- `bytes` in place of the bytes at `position`. -/
def overwrite (buffer : Bytes) (position : Nat) (bytes : Bytes) : Bytes :=
  buffer.take position ++ (bytes ++ buffer.drop (position + bytes.length))

theorem overwrite_middle (front old new back : Bytes) (h : old.length = new.length) :
    overwrite (front ++ (old ++ back)) front.length new = front ++ (new ++ back) := by
  simp [overwrite, ← h, List.drop_append]

/-- Start a box at the end of the buffer: a size of 0 that `close` fills in, and the type. -/
def openBox (buffer : Bytes) (type : FourCC) : Bytes := buffer ++ (Bytes.word32 0 ++ type.bytes)

/-- Fill in the size of the box that was opened when the buffer had `start` bytes. -/
def closeBox (buffer : Bytes) (start : Nat) : Bytes :=
  overwrite buffer start (Bytes.word32 (Saturating.toUInt32 (buffer.length - start)))

/-- Closing a box gives the frame of what was written since it was opened. -/
theorem closeBox_openBox (buffer content : Bytes) (type : FourCC) :
    closeBox (openBox buffer type ++ content) buffer.length = buffer ++ frame type content := by
  have hl : (openBox buffer type ++ content).length - buffer.length
      = headerLength + content.length := by
    simp [openBox, headerLength]; omega
  rw [closeBox, hl, openBox, List.append_assoc, List.append_assoc,
    overwrite_middle _ _ _ _ (by rw [Bytes.length_word32, Bytes.length_word32])]
  rfl

namespace Box

mutual

/-- Append a box to the buffer, filling in its size after its content. -/
def write (buffer : Bytes) : Box → Bytes
  | mk type fields children =>
    closeBox (writeAll (openBox buffer type ++ fields) children) buffer.length

def writeAll (buffer : Bytes) : List Box → Bytes
  | [] => buffer
  | b :: bs => writeAll (write buffer b) bs

end

mutual

/-- Writing appends the bytes of the box and leaves the buffer before it untouched. -/
theorem write_eq_append_encode (buffer : Bytes) : ∀ b : Box, b.write buffer = buffer ++ b.encode
  | mk type fields children => by
    rw [write, writeAll_eq_append_encodeAll, List.append_assoc, closeBox_openBox, encode_mk]

theorem writeAll_eq_append_encodeAll (buffer : Bytes) :
    ∀ bs : List Box, writeAll buffer bs = buffer ++ encodeAll bs
  | [] => by simp [writeAll]
  | b :: bs => by
    rw [writeAll, writeAll_eq_append_encodeAll, write_eq_append_encode]
    simp

end

end Box

end LiveHls.Mp4
