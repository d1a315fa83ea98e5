import LiveHls.Proofs.Mp4.Framing

/-!
# Boxes written into a buffer

A box is opened with a size of 0, which is filled in when it is closed; until then the boxes in it
are opened, filled in and closed in the same buffer.

* `Box.spansAll` : where each box was opened and where it was closed;
  `Box.stated_of_mem_spansAll` : its size field states the bytes in between;
* `readForest?` : a reader that is told which boxes contain boxes, by their place among the others;
  `readForest?_encodeAll` : it finds the boxes that were written, with no byte left over;
* `Nests`, `nests_of_length_lt` : both, for boxes written behind other bytes.
-/

namespace LiveHls.Mp4

open Bytes (ofBigEndian ofBigEndian_bigEndian word32)

/-! ## Sizes -/

/-- The bytes of a box in a buffer: those from where it is opened to where it is closed. -/
structure Span where
  start : Nat
  stop : Nat
deriving DecidableEq

/-- The number of bytes is stated in the first four of them. -/
structure Span.StatedIn (buffer : Bytes) (x : Span) : Prop where
  start_le : x.start + headerLength ≤ x.stop
  stop_le : x.stop ≤ buffer.length
  size_eq : ofBigEndian ((buffer.drop x.start).take 4) = x.stop - x.start

/-- What stands in front of a span does not matter. -/
theorem Span.StatedIn.replace_front {x : Span} {front front' back : Bytes}
    (h : x.StatedIn (front ++ back)) (hlength : front'.length = front.length)
    (hstart : front.length ≤ x.start) : x.StatedIn (front' ++ back) where
  start_le := h.start_le
  stop_le := by
    rw [List.length_append, hlength, ← List.length_append]
    exact h.stop_le
  size_eq := by
    rw [List.drop_append, List.drop_of_length_le (hlength ▸ hstart), hlength]
    have hsize := h.size_eq
    rw [List.drop_append, List.drop_of_length_le hstart] at hsize
    exact hsize

theorem stated_frame {type : FourCC} {content : Bytes} (h : headerLength + content.length < 2 ^ 32)
    (buffer after : Bytes) :
    Span.StatedIn (buffer ++ (frame type content ++ after))
      ⟨buffer.length, buffer.length + (headerLength + content.length)⟩ where
  start_le := by
    show buffer.length + headerLength ≤ buffer.length + (headerLength + content.length)
    omega
  stop_le := by
    show buffer.length + (headerLength + content.length) ≤ _
    rw [List.length_append, List.length_append, length_frame]
    omega
  size_eq := by
    show ofBigEndian ((List.drop buffer.length _).take 4) =
      buffer.length + (headerLength + content.length) - buffer.length
    rw [List.drop_left, frame, List.append_assoc, List.take_left' (Bytes.length_word32 _), word32,
      ofBigEndian_bigEndian, Saturating.toNat_toUInt32]
    omega

namespace Box

mutual

/-- Where a box and the boxes in it are opened and closed, written behind `buffer`. -/
def spans (buffer : Bytes) : Box → List Span
  | mk type fields children =>
    let opened := openBox buffer type ++ fields
    ⟨buffer.length, (writeAll opened children).length⟩ :: spansAll opened children

def spansAll (buffer : Bytes) : List Box → List Span
  | [] => []
  | b :: bs => b.spans buffer ++ spansAll (b.write buffer) bs

end

theorem length_openBox (buffer : Bytes) (type : FourCC) :
    (openBox buffer type).length = buffer.length + headerLength := by
  rw [openBox, List.length_append, List.length_append, Bytes.length_word32, FourCC.length_bytes,
    headerLength]

mutual

/-- Each size is right while the box stands behind `buffer`, whatever follows it. -/
theorem stated_of_mem_spans (buffer after : Bytes) :
    ∀ b : Box, b.encode.length < 2 ^ 32 → ∀ x ∈ b.spans buffer,
      buffer.length ≤ x.start ∧ x.StatedIn (buffer ++ (b.encode ++ after))
  | mk type fields children => fun h x hx => by
    rw [encode_mk] at h ⊢
    rw [length_frame] at h
    rw [spans] at hx
    rcases List.mem_cons.1 hx with rfl | hx
    · have hstop : (writeAll (openBox buffer type ++ fields) children).length =
          buffer.length + (headerLength + (fields ++ encodeAll children).length) := by
        rw [writeAll_eq_append_encodeAll, List.append_assoc, List.length_append, length_openBox,
          Nat.add_assoc]
      rw [hstop]
      exact ⟨Nat.le_refl _, stated_frame h buffer after⟩
    · rw [List.length_append] at h
      obtain ⟨hstart, hstated⟩ := stated_of_mem_spansAll (openBox buffer type ++ fields) after
        children (by omega) x hx
      have hlength : (openBox buffer type ++ fields).length =
          buffer.length + (headerLength + fields.length) := by
        rw [List.length_append, length_openBox, Nat.add_assoc]
      -- closing the box changes bytes in front of the boxes in it
      let front := buffer ++ (word32 (Saturating.toUInt32
        (headerLength + (fields ++ encodeAll children).length)) ++ (type.bytes ++ fields))
      have hfront : front.length = (openBox buffer type ++ fields).length := by
        simp only [front, hlength, List.length_append, Bytes.length_word32, FourCC.length_bytes,
          headerLength]
        omega
      have hbytes : buffer ++ (frame type (fields ++ encodeAll children) ++ after) =
          front ++ (encodeAll children ++ after) := by
        simp only [front, frame, List.append_assoc]
      rw [hbytes]
      exact ⟨by omega, hstated.replace_front hfront hstart⟩

theorem stated_of_mem_spansAll (buffer after : Bytes) :
    ∀ bs : List Box, (encodeAll bs).length < 2 ^ 32 → ∀ x ∈ spansAll buffer bs,
      buffer.length ≤ x.start ∧ x.StatedIn (buffer ++ (encodeAll bs ++ after))
  | [] => fun _ x hx => by
    rw [spansAll] at hx
    cases hx
  | b :: bs => fun h x hx => by
    rw [encodeAll_cons, List.length_append] at h
    rw [spansAll] at hx
    rw [encodeAll_cons, List.append_assoc]
    rcases List.mem_append.1 hx with hx | hx
    · exact stated_of_mem_spans buffer (encodeAll bs ++ after) b (by omega) x hx
    · obtain ⟨hstart, hstated⟩ :=
        stated_of_mem_spansAll (b.write buffer) after bs (by omega) x hx
      rw [write_eq_append_encode, List.append_assoc] at hstated
      rw [write_eq_append_encode, List.length_append] at hstart
      exact ⟨by omega, hstated⟩

end

end Box

/-! ## The reader -/

/-- What a reader is told of boxes: for the box at a path, of a type, the bytes of fields in front
of the boxes in it; none if it contains no boxes. A path is a box's position, behind the positions
of the boxes around it. -/
abbrev Layout := List Nat → FourCC → Option Nat

/-- What it is told of the boxes in box `index`. -/
def Layout.within (layout : Layout) (index : Nat) : Layout := fun path => layout (index :: path)

/-- The boxes that follow each other in a byte string from position `index` on, with all boxes in
them, if they fill it. -/
def readForest? (layout : Layout) (index : Nat) (bytes : Bytes) : Option (List Box) :=
  if bytes = [] then some []
  else
    match nextBox? bytes with
    | none => none
    | some (type, content, rest) =>
      if content.length < bytes.length ∧ rest.length < bytes.length then
        match layout [index] type with
        | none => (readForest? layout (index + 1) rest).map (.leaf type content :: ·)
        | some n =>
          if n ≤ content.length then
            (readForest? (layout.within index) 0 (content.drop n)).bind fun children =>
              (readForest? layout (index + 1) rest).map (.mk type (content.take n) children :: ·)
          else none
      else none
termination_by bytes.length

/-- The box at a path. -/
def boxAt? : List Box → List Nat → Option Box
  | _, [] => none
  | bs, [i] => bs[i]?
  | bs, i :: path =>
    match bs[i]? with
    | none => none
    | some (.mk _ _ children) => boxAt? children path

/-- The layout tells of each box, from position `index` on, whether it contains boxes, and behind
which fields. A box without boxes may be told of in either way. -/
def Layout.Describes (layout : Layout) (index : Nat) (bs : List Box) : Prop :=
  ∀ i path type fields children, boxAt? bs (i :: path) = some (.mk type fields children) →
    layout ((index + i) :: path) type = some fields.length ∨
      layout ((index + i) :: path) type = none ∧ children = []

/-- There is such a layout for any boxes. -/
theorem exists_describes (bs : List Box) : ∃ layout : Layout, layout.Describes 0 bs := by
  refine ⟨fun path _ => (boxAt? bs path).map fun | .mk _ fields _ => fields.length, ?_⟩
  intro i path type fields children h
  refine .inl ?_
  show Option.map _ (boxAt? bs ((0 + i) :: path)) = _
  rw [Nat.zero_add, h]
  rfl

namespace Layout.Describes
variable {layout : Layout} {index : Nat} {b : Box} {bs : List Box}

theorem head (h : layout.Describes index (b :: bs)) : layout.Describes index [b] := by
  intro i path type fields children hbox
  cases i with
  | zero =>
    refine h 0 path type fields children ?_
    cases path with
    | nil => exact hbox
    | cons => exact hbox
  | succ i =>
    cases path with
    | nil => cases hbox
    | cons => cases hbox

theorem tail (h : layout.Describes index (b :: bs)) : layout.Describes (index + 1) bs := by
  intro i path type fields children hbox
  rw [Nat.add_assoc, Nat.add_comm 1 i]
  refine h (i + 1) path type fields children ?_
  cases path with
  | nil => exact hbox
  | cons => exact hbox

theorem within {type : FourCC} {fields : Bytes} {children : List Box}
    (h : layout.Describes index (.mk type fields children :: bs)) :
    (layout.within index).Describes 0 children := by
  intro i path t f c hbox
  rw [Nat.zero_add]
  exact h 0 (i :: path) t f c hbox

end Layout.Describes

theorem readForest?_nil (layout : Layout) (index : Nat) :
    readForest? layout index [] = some [] := by
  rw [readForest?, if_pos rfl]

/-- What the reader makes of a box in front of other bytes. -/
theorem readForest?_frame_append {type : FourCC} {content : Bytes}
    (h : headerLength + content.length < 2 ^ 32) (layout : Layout) (index : Nat) (rest : Bytes) :
    readForest? layout index (frame type content ++ rest) =
      match layout [index] type with
      | none => (readForest? layout (index + 1) rest).map (.leaf type content :: ·)
      | some n =>
        if n ≤ content.length then
          (readForest? (layout.within index) 0 (content.drop n)).bind fun children =>
            (readForest? layout (index + 1) rest).map (.mk type (content.take n) children :: ·)
        else none := by
  have hlength : (frame type content ++ rest).length =
      headerLength + content.length + rest.length := by
    rw [List.length_append, length_frame]
  have hne : frame type content ++ rest ≠ [] := by
    intro hnil
    rw [hnil, headerLength] at hlength
    simp at hlength
    omega
  have hshorter : content.length < (frame type content ++ rest).length ∧
      rest.length < (frame type content ++ rest).length := by
    rw [hlength, headerLength]
    omega
  rw [readForest?, if_neg hne, nextBox?_frame h]
  simp only [if_pos hshorter]

mutual

/-- **The boxes that were written are read**, as far as it is told which of them contain boxes. -/
theorem readForest?_encode_append (layout : Layout) (index : Nat) (rest : Bytes) :
    ∀ b : Box, layout.Describes index [b] → b.encode.length < 2 ^ 32 →
      readForest? layout index (b.encode ++ rest) =
        (readForest? layout (index + 1) rest).map (b :: ·)
  | .mk type fields children => fun hlayout h => by
    rw [Box.encode_mk] at h ⊢
    rw [length_frame] at h
    have hchildren := readForest?_encodeAll (layout.within index) 0 children hlayout.within
      (by rw [List.length_append] at h; omega)
    rw [readForest?_frame_append h]
    rcases hlayout 0 [] type fields children rfl with htold | ⟨htold, rfl⟩
    · rw [Nat.add_zero] at htold
      simp only [htold]
      rw [if_pos (by rw [List.length_append]; omega), List.drop_left, List.take_left, hchildren,
        Option.bind_some]
    · rw [Nat.add_zero] at htold
      simp only [htold]
      rw [Box.encodeAll_nil, List.append_nil]
      rfl

theorem readForest?_encodeAll (layout : Layout) (index : Nat) :
    ∀ bs : List Box, layout.Describes index bs → (Box.encodeAll bs).length < 2 ^ 32 →
      readForest? layout index (Box.encodeAll bs) = some bs
  | [] => fun _ _ => by rw [Box.encodeAll_nil, readForest?_nil]
  | b :: bs => fun hlayout h => by
    rw [Box.encodeAll_cons, List.length_append] at h
    rw [Box.encodeAll_cons, readForest?_encode_append layout index _ b hlayout.head (by omega),
      readForest?_encodeAll layout (index + 1) bs hlayout.tail (by omega), Option.map_some]

end

/-! ## Boxes behind other bytes -/

/-- **The boxes `bs` are written behind `buffer`.** -/
structure Nests (buffer : Bytes) (bs : List Box) : Prop where
  /-- The bytes that were there are still there. -/
  earlier_kept : (Box.writeAll buffer bs).take buffer.length = buffer
  /-- Each box states in its first four bytes how many there are to where it was closed. -/
  stated : ∀ x ∈ Box.spansAll buffer bs,
    buffer.length ≤ x.start ∧ x.StatedIn (Box.writeAll buffer bs)
  /-- A reader that is told which boxes contain boxes finds them, with no byte left over. -/
  read_back : ∀ layout : Layout, layout.Describes 0 bs →
    readForest? layout 0 ((Box.writeAll buffer bs).drop buffer.length) = some bs
  /-- It can be told that of any boxes. -/
  described : ∃ layout : Layout, layout.Describes 0 bs

theorem nests_of_length_lt {buffer : Bytes} {bs : List Box}
    (h : (Box.writeAll buffer bs).length < buffer.length + 2 ^ 32) : Nests buffer bs := by
  rw [Box.writeAll_eq_append_encodeAll, List.length_append] at h
  have hlength : (Box.encodeAll bs).length < 2 ^ 32 := by omega
  have hbytes := Box.writeAll_eq_append_encodeAll buffer bs
  exact {
    earlier_kept := by rw [hbytes, List.take_left]
    stated := fun x hx => by
      have hstated := Box.stated_of_mem_spansAll buffer [] bs hlength x hx
      rw [List.append_nil, ← hbytes] at hstated
      exact hstated
    read_back := fun layout hlayout => by
      rw [hbytes, List.drop_left, readForest?_encodeAll layout 0 bs hlayout hlength]
    described := exists_describes bs }

end LiveHls.Mp4
