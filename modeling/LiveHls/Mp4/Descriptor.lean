import LiveHls.Bytes

/-!
# MPEG-4 descriptors

A descriptor is a tag byte, a length of four bytes with seven bits in each, and its content: fields
followed by the descriptors it contains. All length bytes but the last have their top bit set.

* `expandableLength` : the four length bytes;
* `Descriptor.encode`, `Descriptor.encodeAll` : the bytes of descriptors.
-/

namespace LiveHls.Mp4

/-- A descriptor: its tag, its fields and the descriptors it contains. -/
inductive Descriptor where
  | mk (tag : UInt8) (fields : Bytes) (children : List Descriptor)

namespace Descriptor

/-- The largest length that four groups of seven bits can state. -/
def maxLength : Nat := 0x0FFFFFFF

/-- A length in four groups of seven bits, all but the last marked as continued. -/
def expandableLength (n : Nat) : Bytes :=
  let m := min n maxLength
  [UInt8.ofNat (128 + m >>> 21 % 128), UInt8.ofNat (128 + m >>> 14 % 128),
    UInt8.ofNat (128 + m >>> 7 % 128), UInt8.ofNat (m % 128)]

/-- Tag and length in front of `content`. -/
def frame (tag : UInt8) (content : Bytes) : Bytes :=
  tag :: (expandableLength content.length ++ content)

@[simp] theorem length_frame (tag : UInt8) (content : Bytes) :
    (frame tag content).length = 5 + content.length := by
  simp [frame, expandableLength]; omega

mutual

def encode : Descriptor → Bytes
  | mk tag fields children => frame tag (fields ++ encodeAll children)

def encodeAll : List Descriptor → Bytes
  | [] => []
  | d :: ds => d.encode ++ encodeAll ds

end

end Descriptor

end LiveHls.Mp4
