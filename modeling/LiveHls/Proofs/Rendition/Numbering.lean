import LiveHls.Proofs.Mp4.Framing
import LiveHls.Proofs.Rendition.Failure
import LiveHls.Proofs.Rendition.Listing

/-!
# The numbers of parts

The fragment of a part is numbered by the part's segment and its place in that, a thousand numbers a
segment, in 32 bits that saturate.

* `Place`, `Follows`, `Place.Before.follows` : the number of a later part is greater, until the
  largest number is reached, and then stays there;
* `readSequence?`, `Mp4.Muxer.readSequence?_fragment` : a reader finds the number in a fragment of
  any size;
* `Rendition.place_write`, `Rendition.pairwise_states` : in any run, with packets that fail as well,
  the open part moves on to the next part or to the first one of the next segment;
* `Rendition.numbers_increase` : so the numbers of the parts of a run increase up to the largest
  one; `numbers_repeat` : there they do not any more.
-/

namespace LiveHls

/-! ## Places -/

/-- A part by its segment and its number in that. -/
structure Place where
  segment : Nat
  part : Nat
deriving DecidableEq

namespace Place

/-- In an earlier segment, or earlier in the same one. -/
def Before (p q : Place) : Prop :=
  p.segment < q.segment ∨ p.segment = q.segment ∧ p.part < q.part

instance (p q : Place) : Decidable (p.Before q) := inferInstanceAs (Decidable (_ ∨ _))

/-- The place behind `p`, in the same segment or as the first of the next one. -/
def Next (p q : Place) : Prop :=
  q = ⟨p.segment, p.part + 1⟩ ∨ q = ⟨p.segment + 1, 0⟩

/-- The number of the part's fragment. -/
def number (p : Place) : UInt32 := sequenceNumber p.segment p.part

theorem Before.trans {p q r : Place} (h : p.Before q) (h' : q.Before r) : p.Before r := by
  unfold Before at *
  omega

theorem Next.before {p q : Place} (h : p.Next q) : p.Before q := by
  rcases h with rfl | rfl
  · exact .inr ⟨rfl, Nat.lt_succ_self _⟩
  · exact .inl (Nat.lt_succ_self _)

end Place

/-- The largest number of a fragment. -/
def lastNumber : UInt32 := 0xFFFFFFFF

/-- The second number is greater, or both have come to the last one. -/
def Follows (a b : UInt32) : Prop := a < b ∨ a = lastNumber ∧ b = lastNumber

theorem toNat_sequenceNumber (segment part : Nat) :
    (sequenceNumber segment part).toNat =
      min (segment * partsPerSegment + part + 1) lastNumber.toNat :=
  Saturating.toNat_toUInt32 _

/-- **A later part has a greater number**, until the last number is reached. -/
theorem Place.Before.follows {p q : Place} (h : p.Before q) (hp : p.part < partsPerSegment) :
    Follows p.number q.number := by
  have hpn : p.number.toNat = _ := toNat_sequenceNumber p.segment p.part
  have hqn : q.number.toNat = _ := toNat_sequenceNumber q.segment q.part
  have hlt : p.segment * partsPerSegment + p.part < q.segment * partsPerSegment + q.part := by
    unfold partsPerSegment at *
    rcases h with h | ⟨h, h'⟩ <;> omega
  by_cases hlast : lastNumber.toNat ≤ p.segment * partsPerSegment + p.part + 1
  · refine .inr ⟨UInt32.toNat_inj.1 ?_, UInt32.toNat_inj.1 ?_⟩ <;> omega
  · refine .inl (UInt32.lt_iff_toNat_lt.2 ?_)
    omega

/-! ## Numbers in fragments -/

namespace Mp4

open Bytes (word32)

/-- The sequence number in the content of `moof`, whose first box is `mfhd`. -/
def readHeaderSequence? (content : Bytes) : Option UInt32 := do
  let (type, fields, _) ← nextBox? content
  if type = .ascii 'm' 'f' 'h' 'd' then
    let (_, _, rest) ← versioned? fields
    (word32? rest).map (·.1)
  else none

/-- The sequence number of a fragment, behind the boxes in front of `moof`. -/
def readSequence? (bytes : Bytes) : Option UInt32 :=
  match nextBox? bytes with
  | none => none
  | some (type, content, rest) =>
    if type = .ascii 'm' 'o' 'o' 'f' then readHeaderSequence? content
    else if rest.length < bytes.length then readSequence? rest
    else none
termination_by bytes.length

theorem readSequence?_eq (bytes : Bytes) : readSequence? bytes =
    match nextBox? bytes with
    | none => none
    | some (type, content, rest) =>
      if type = .ascii 'm' 'o' 'o' 'f' then readHeaderSequence? content
      else if rest.length < bytes.length then readSequence? rest
      else none := by
  rw [readSequence?]

theorem readSequence?_append {type : FourCC} {content : Bytes}
    (htype : type ≠ .ascii 'm' 'o' 'o' 'f') (h : headerLength + content.length < 2 ^ 32)
    (rest : Bytes) : readSequence? (frame type content ++ rest) = readSequence? rest := by
  have hlength : rest.length < (frame type content ++ rest).length := by
    rw [List.length_append, length_frame, headerLength]
    omega
  rw [readSequence?_eq, nextBox?_frame h]
  simp only [if_neg htype, if_pos hlength]

/-- The header of a fragment is found in front of a content of any size. -/
theorem readSequence?_movieFragment (f : MovieFragment) (rest : Bytes) :
    readSequence? (f.box.encode ++ rest) = some f.sequence := by
  have hpayload : f.box.encode = frame (.ascii 'm' 'o' 'o' 'f')
      ((fragmentHeader f.sequence).encode ++ Box.encodeAll (f.tracks.map (·.box))) := by
    rw [MovieFragment.box, Box.container, Box.encode_mk, Box.encodeAll_cons, List.nil_append]
  have hheader : (fragmentHeader f.sequence).encode =
      frame (.ascii 'm' 'f' 'h' 'd') (Box.versioned 0 0 (word32 f.sequence)) := by
    rw [fragmentHeader, Box.leaf, Box.encode_mk, Box.encodeAll_nil, List.append_nil]
  have hlength : (fragmentHeader f.sequence).encode.length ≤ maxContent := by
    rw [hheader, length_frame, Box.length_versioned, Bytes.length_word32]
    decide
  have hsequence := word32?_word32 f.sequence []
  rw [List.append_nil] at hsequence
  have hbox := nextBox?_frame_append (.ascii 'm' 'o' 'o' 'f')
    ((fragmentHeader f.sequence).encode ++ Box.encodeAll (f.tracks.map (·.box))) rest
  rw [List.take_append, List.take_of_length_le hlength, hheader] at hbox
  rw [readSequence?_eq, hpayload, hheader, hbox]
  simp only [if_true, readHeaderSequence?]
  rw [nextBox?_frame (by rw [Box.length_versioned, Bytes.length_word32]; decide)]
  simp only [Option.bind_eq_bind, Option.bind_some, if_true, versioned?_versioned, hsequence]
  rfl

theorem readSequence?_encodeAll {bs : List Box}
    (h : ∀ b ∈ bs, b.raw.type ≠ .ascii 'm' 'o' 'o' 'f' ∧ b.raw.size < 2 ^ 32) (rest : Bytes) :
    readSequence? (Box.encodeAll bs ++ rest) = readSequence? rest := by
  induction bs with
  | nil => rw [Box.encodeAll_nil, List.nil_append]
  | cons b bs ih =>
    obtain ⟨type, fields, children⟩ := b
    obtain ⟨htype, hsize⟩ := h _ List.mem_cons_self
    change headerLength + (fields ++ Box.encodeAll children).length < 2 ^ 32 at hsize
    rw [Box.encodeAll_cons, Box.encode_mk, List.append_assoc, readSequence?_append _ hsize,
      ih fun c hc => h c (List.mem_cons_of_mem _ hc)]
    exact htype

/-- **A reader finds the number of a fragment**, whatever its size. -/
theorem Muxer.readSequence?_fragment (m : Muxer) (sequence : UInt32) :
    readSequence? (m.fragment sequence) = some sequence := by
  have hfront : ∀ b ∈ segmentType :: m.activeTracks.map (·.index.box),
      b.raw.type ≠ .ascii 'm' 'o' 'o' 'f' ∧ b.raw.size < 2 ^ 32 := by
    intro b hb
    rcases List.mem_cons.1 hb with rfl | hb
    · decide
    · obtain ⟨t, -, rfl⟩ := List.mem_map.1 hb
      refine ⟨show FourCC.ascii 's' 'i' 'd' 'x' ≠ _ by decide, ?_⟩
      simp only [RawBox.size, SegmentIndex.box, Box.raw_leaf, Box.length_versioned,
        List.length_append, Bytes.length_word16, Bytes.length_word32, Bytes.length_word64,
        headerLength]
      decide
  have hboxes : segmentType.encode ++ Box.encodeAll (m.activeTracks.map (·.index.box)) =
      Box.encodeAll (segmentType :: m.activeTracks.map (·.index.box)) :=
    (Box.encodeAll_cons _ _).symm
  rw [fragment, hboxes]
  simp only [List.append_assoc]
  rw [readSequence?_encodeAll hfront, readSequence?_movieFragment]
  rfl

end Mp4

/-! ## Runs -/

theorem Part.id_write (p : Part) (x : Packet) : (p.write x).1.id = p.id := by
  rw [Part.write_eq]
  split
  · split
    · rfl
    · split <;> rfl
  · rfl

namespace Segment

/-- The parts of a segment are counted from 0. -/
def Counted (s : Segment) : Prop := s.current.id = s.earlier.length

/-- A write keeps a segment's number. It keeps the open part, or opens the one behind it. -/
theorem write_place (s : Segment) (x : Packet) : (s.write x).1.id = s.id ∧
    (((s.write x).1.current.id = s.current.id ∧ (s.write x).1.earlier = s.earlier) ∨
      (s.write x).2 = .remainsOpen ∧ (s.write x).1.current.id = s.current.id + 1 ∧
        ∃ q, (s.write x).1.earlier = s.earlier ++ [q]) := by
  have hid := s.current.id_write x
  unfold write
  rcases hp : s.current.write x with ⟨q, progress⟩
  rw [hp] at hid
  cases progress with
  | remainsOpen => exact ⟨rfl, .inl ⟨hid, rfl⟩⟩
  | overflow => exact ⟨rfl, .inl ⟨hid, rfl⟩⟩
  | closed =>
    simp only [advance]
    split
    · exact ⟨rfl, .inl ⟨hid, rfl⟩⟩
    · split
      · exact ⟨rfl, .inl ⟨hid, rfl⟩⟩
      · exact ⟨rfl, .inr ⟨rfl, congrArg (· + 1) hid, _, rfl⟩⟩

theorem Counted.write {s : Segment} (hs : s.Counted) (x : Packet) : (s.write x).1.Counted := by
  unfold Counted at *
  obtain ⟨-, ⟨hid, hearlier⟩ | ⟨-, hid, q, hearlier⟩⟩ := s.write_place x
  · rw [hid, hearlier, hs]
  · rw [hid, hearlier, hs, List.length_append, List.length_singleton]

/-- A part that there is, is the open one or before it. -/
theorem Counted.le_of_part? {s : Segment} (hs : s.Counted) {i : Nat} {p : Part}
    (hp : s.part? i = some p) : i ≤ s.current.id := by
  have hlt : i < s.parts.length := (List.getElem?_eq_some_iff.1 hp).1
  rw [parts, List.length_append, List.length_singleton] at hlt
  rw [hs]
  omega

end Segment

namespace Rendition

/-- The part that takes the next packet. -/
def place (r : Rendition) : Place := ⟨r.current.id, r.current.current.id⟩

/-- The states of a rendition while packets are written to it, whatever comes of them. -/
def states (r : Rendition) : List Arrival → List Rendition
  | [] => [r]
  | a :: rest => r :: states (r.write a.packet a.time).1 rest

/-- What a write makes of the live segments, whatever comes of it. -/
theorem write_live (r : Rendition) (x : Packet) (now : Instant) :
    (r.write x now).1 = r ∨
      (r.current.write (fold x)).2 ≠ .closed ∧ (r.write x now).1.earlier = r.earlier ∧
        (r.write x now).1.current = (r.current.write (fold x)).1 ∨
      (r.current.write (fold x)).2 = .closed ∧
        (∃ k, (r.write x now).1.earlier =
          (r.earlier ++ [(r.current.write (fold x)).1]).drop k) ∧
        (r.write x now).1.current =
          newSegment r.options r.layout ((r.current.write (fold x)).1.id + 1) now := by
  unfold write
  split
  · exact .inl rfl
  · rcases r.current.write (fold x) with ⟨t, progress⟩
    cases progress with
    | overflow => exact .inr (.inl ⟨nofun, rfl, rfl⟩)
    | remainsOpen => exact .inr (.inl ⟨nofun, rfl, rfl⟩)
    | closed => exact .inr (.inr ⟨rfl, ⟨_, rfl⟩, rfl⟩)

/-- **Each write goes on with the open part**, with the part behind it or with the first part of the
next segment. -/
theorem place_write (r : Rendition) (x : Packet) (now : Instant) :
    (r.write x now).1.place = r.place ∨ r.place.Next (r.write x now).1.place := by
  obtain ⟨hsegment, hpart⟩ := r.current.write_place (fold x)
  unfold place Place.Next
  rcases r.write_live x now with heq | ⟨-, -, hcurrent⟩ | ⟨-, -, hcurrent⟩
  · rw [heq]
    exact .inl rfl
  · rw [hcurrent, hsegment]
    rcases hpart with ⟨hid, -⟩ | ⟨-, hid, -⟩
    · exact .inl (by rw [hid])
    · exact .inr (.inl (by rw [hid]))
  · rw [hcurrent, hsegment]
    exact .inr (.inr rfl)

theorem place_of_mem_states {r r' : Rendition} {arrivals : List Arrival}
    (h : r' ∈ r.states arrivals) : r'.place = r.place ∨ r.place.Before r'.place := by
  induction arrivals generalizing r with
  | nil =>
    rw [List.mem_singleton.1 h]
    exact .inl rfl
  | cons a rest ih =>
    rcases List.mem_cons.1 h with rfl | h
    · exact .inl rfl
    · rcases r.place_write a.packet a.time with hsame | hnext
      · rw [← hsame]
        exact ih h
      · rcases ih h with heq | hbefore
        · rw [heq]
          exact .inr hnext.before
        · exact .inr (hnext.before.trans hbefore)

/-- **The parts of a run are open one after the other.** -/
theorem pairwise_states (r : Rendition) (arrivals : List Arrival) :
    (r.states arrivals).Pairwise fun r₁ r₂ => r₂.place = r₁.place ∨ r₁.place.Before r₂.place := by
  induction arrivals generalizing r with
  | nil => exact List.pairwise_singleton _ _
  | cons a rest ih =>
    refine List.pairwise_cons.2 ⟨fun r' h => ?_, ih _⟩
    have hlater : r' ∈ r.states (a :: rest) := List.mem_cons_of_mem _ h
    exact place_of_mem_states hlater

/-! ### The parts that have been open -/

/-- Every part of the segment, up to the open one, is at a place in `P`. -/
structure Passed (P : Place → Prop) (s : Segment) : Prop where
  counted : s.Counted
  passed : ∀ f ≤ s.current.id, P ⟨s.id, f⟩

theorem Passed.mono {P Q : Place → Prop} {s : Segment} (h : Passed P s) (hPQ : ∀ p, P p → Q p) :
    Passed Q s := ⟨h.counted, fun f hf => hPQ _ (h.passed f hf)⟩

theorem passed_newSegment {P : Place → Prop} {options : Options} {layout : Mp4.Muxer} {id : Nat}
    {now : Instant} (h : P ⟨id, 0⟩) : Passed P (newSegment options layout id now) := by
  refine ⟨rfl, fun f hf => ?_⟩
  rw [Nat.le_zero.1 hf]
  exact h

/-- A write to a segment passes no more than the part it goes on to. -/
theorem Passed.write {P : Place → Prop} {s : Segment} (h : Passed P s) (x : Packet) :
    Passed (fun p => P p ∨ p = ⟨s.id, (s.write x).1.current.id⟩) (s.write x).1 := by
  obtain ⟨hid, hpart⟩ := s.write_place x
  refine ⟨h.counted.write x, fun f hf => ?_⟩
  rw [hid]
  rcases Nat.lt_or_eq_of_le hf with hlt | rfl
  · refine .inl (h.passed f ?_)
    rcases hpart with ⟨hpart, -⟩ | ⟨-, hpart, -⟩ <;> omega
  · exact .inr rfl

/-- A segment closes with the parts that it had. -/
theorem Passed.write_of_closed {P : Place → Prop} {s : Segment} (h : Passed P s) {x : Packet}
    (hclosed : (s.write x).2 = .closed) : Passed P (s.write x).1 := by
  obtain ⟨hid, ⟨hpart, -⟩ | ⟨hopen, -⟩⟩ := s.write_place x
  · refine ⟨h.counted.write x, fun f hf => ?_⟩
    rw [hid]
    exact h.passed f (hpart ▸ hf)
  · rw [hclosed] at hopen
    cases hopen

/-- A write passes no more than the place it goes on to. -/
theorem passed_write {P : Place → Prop} {r : Rendition} (h : ∀ s ∈ r.live, Passed P s)
    (x : Packet) (now : Instant) :
    ∀ s ∈ (r.write x now).1.live, Passed (fun p => P p ∨ p = (r.write x now).1.place) s := by
  have hcurrent := h _ r.current_mem_live
  intro s hs
  rcases r.write_live x now with heq | ⟨-, hearlier, hopen⟩ | ⟨hclosed, ⟨k, hearlier⟩, hopen⟩
  · rw [heq] at hs
    exact (h s hs).mono fun p => .inl
  · rcases List.mem_append.1 hs with hs | hs
    · rw [hearlier] at hs
      exact (h s (List.mem_append_left _ hs)).mono fun p => .inl
    · rw [List.mem_singleton.1 hs, place, hopen, (r.current.write_place (fold x)).1]
      exact hcurrent.write (fold x)
  · rcases List.mem_append.1 hs with hs | hs
    · rw [hearlier] at hs
      rcases List.mem_append.1 (List.mem_of_mem_drop hs) with hs | hs
      · exact (h s (List.mem_append_left _ hs)).mono fun p => .inl
      · rw [List.mem_singleton.1 hs]
        exact (hcurrent.write_of_closed hclosed).mono fun p => .inl
    · rw [List.mem_singleton.1 hs, place, hopen]
      exact passed_newSegment (.inr rfl)

theorem mem_states_self (r : Rendition) (arrivals : List Arrival) : r ∈ r.states arrivals := by
  cases arrivals <;> exact List.mem_cons_self

theorem passed_of_mem_states {P : Place → Prop} {r r' : Rendition} {arrivals : List Arrival}
    (h : ∀ s ∈ r.live, Passed P s) (h' : r' ∈ r.states arrivals) :
    ∀ s ∈ r'.live, Passed (fun p => P p ∨ ∃ r'' ∈ r.states arrivals, r''.place = p) s := by
  intro s hs
  induction arrivals generalizing r P with
  | nil =>
    rw [List.mem_singleton.1 h'] at hs
    exact (h s hs).mono fun p => .inl
  | cons a rest ih =>
    rcases List.mem_cons.1 h' with rfl | h'
    · exact (h s hs).mono fun p => .inl
    · refine (ih (passed_write h a.packet a.time) h').mono fun p hp => ?_
      rcases hp with (hp | rfl) | ⟨r'', h'', hp⟩
      · exact .inl hp
      · exact .inr ⟨_, List.mem_cons_of_mem _ (mem_states_self _ _), rfl⟩
      · exact .inr ⟨r'', List.mem_cons_of_mem _ h'', hp⟩

theorem mem_live_of_segment? {r : Rendition} {id : Nat} {s : Segment} (h : r.segment? id = some s) :
    s ∈ r.live ∧ s.id = id := by
  unfold segment? at h
  have hid := List.find?_some h
  exact ⟨List.mem_of_find?_eq_some h, eq_of_beq hid⟩

/-- The bytes of a part that is read are a fragment of that part's number. -/
theorem readSequence?_of_lookup {r : Rendition} {p : Place} {bytes : Bytes}
    (h : r.lookup (.part p.segment p.part) = .found (.ok (.media bytes))) :
    Mp4.readSequence? bytes = some p.number ∧
      ∃ s q, r.segment? p.segment = some s ∧ s.part? p.part = some q := by
  have hpart := r.lookup_part p.segment p.part
  generalize hfound : r.lookup (.part p.segment p.part) = found at h hpart
  cases hpart with
  | dropped => cases h
  | absent => cases h
  | awaited => cases h
  | served live part closed =>
    refine ⟨?_, _, _, live, part⟩
    rw [Lookup.found.injEq, media] at h
    obtain ⟨m, -, hbytes⟩ := Mp4.exists_of_map_eq_ok h
    cases hbytes
    exact m.readSequence?_fragment _

/-- **The parts of a run in the order of their numbers.** -/
structure NumbersParts (run : List Rendition) : Prop where
  /-- Each part is opened behind those before it and has a greater number. -/
  opened : run.Pairwise fun r r' =>
    r'.place = r.place ∨ r.place.Before r'.place ∧ Follows r.place.number r'.place.number
  /-- A part that is read has been opened in the run. -/
  read_opened : ∀ r ∈ run, ∀ p bytes,
    r.lookup (.part p.segment p.part) = .found (.ok (.media bytes)) → ∃ r' ∈ run, r'.place = p
  /-- Its fragment bears its number. -/
  read_number : ∀ r ∈ run, ∀ (p : Place) bytes,
    r.lookup (.part p.segment p.part) = .found (.ok (.media bytes)) →
      Mp4.readSequence? bytes = some p.number

theorem numbersParts_states {format : SourceFormat} {options : Options} {now : Instant}
    {r : Rendition} {arrivals : List Arrival} (h : new? format options now = .ok r)
    (hparts : ∀ r' ∈ r.states arrivals, r'.place.part < partsPerSegment) :
    NumbersParts (r.states arrivals) where
  opened := by
    refine (r.pairwise_states arrivals).imp_of_mem fun {r₁ r₂} h₁ _ hplace => ?_
    exact hplace.imp_right fun hbefore => ⟨hbefore, hbefore.follows (hparts r₁ h₁)⟩
  read_opened := by
    intro r' hr' p bytes hbytes
    obtain ⟨-, s, q, hs, hq⟩ := readSequence?_of_lookup hbytes
    obtain ⟨-, -, -, hearlier, hcurrent, -⟩ := new?_eq_ok h
    have hstart : ∀ t ∈ r.live, Passed (· = r.place) t := by
      intro t ht
      rw [live, hearlier, hcurrent, List.nil_append] at ht
      rw [List.mem_singleton.1 ht]
      refine passed_newSegment ?_
      rw [place, hcurrent]
      rfl
    obtain ⟨hlive, hid⟩ := mem_live_of_segment? hs
    have hpassed := passed_of_mem_states hstart hr' s hlive
    rcases hpassed.passed p.part (hpassed.counted.le_of_part? hq) with heq | ⟨r'', h'', heq⟩
    · exact ⟨r, mem_states_self r arrivals, by rw [← heq, hid]⟩
    · exact ⟨r'', h'', by rw [heq, hid]⟩
  read_number := fun _ _ _ _ hbytes => (readSequence?_of_lookup hbytes).1

/-- **The numbers of parts increase up to the largest number**, in runs of any length in which no
segment has more parts than are counted for it. -/
theorem numbers_increase :
    (∀ p : Place, p.number.toNat =
      min (p.segment * partsPerSegment + p.part + 1) lastNumber.toNat) ∧
    (∀ p q : Place, p.part < partsPerSegment → p.Before q → Follows p.number q.number) ∧
    ∀ (format : SourceFormat) (options : Options) (now : Instant) (r : Rendition),
      new? format options now = .ok r → ∀ arrivals,
        (∀ r' ∈ r.states arrivals, r'.place.part < partsPerSegment) →
          NumbersParts (r.states arrivals) :=
  ⟨fun p => toNat_sequenceNumber p.segment p.part, fun _ _ hp h => h.follows hp,
    fun _ _ _ _ h _ hparts => numbersParts_states h hparts⟩

/-- With two segments retained, the second part of the second one is read behind five frames: its
number is 1002, and that of the next part is greater. -/
theorem numbers_of_fiveFrames : ∃ r,
    new? camera { shortest with segmentCount := 2 } ⟨0, 0⟩ = .ok r ∧
    NumbersParts (r.states fiveFrames) ∧
    (∃ r' ∈ r.states fiveFrames, ∃ bytes, r'.lookup (.part 1 1) = .found (.ok (.media bytes)) ∧
      Mp4.readSequence? bytes = some 1002) ∧
    Follows (Place.number ⟨1, 1⟩) (Place.number ⟨2, 0⟩) := by
  obtain ⟨r, h, hplaces, r', hr', bytes, hbytes⟩ : ∃ r,
      new? camera { shortest with segmentCount := 2 } ⟨0, 0⟩ = .ok r ∧
        (r.states fiveFrames).map (·.place) =
          [⟨0, 0⟩, ⟨0, 1⟩, ⟨0, 1⟩, ⟨1, 0⟩, ⟨1, 1⟩, ⟨2, 0⟩, ⟨2, 1⟩] ∧
        ∃ r', (r.states fiveFrames)[6]? = some r' ∧
          ∃ bytes, r'.lookup (.part 1 1) = .found (.ok (.media bytes)) :=
    ⟨_, rfl, rfl, _, rfl, _, rfl⟩
  have hparts : ∀ r' ∈ r.states fiveFrames, r'.place.part < partsPerSegment := by
    intro r' hr'
    have hplace := List.mem_map_of_mem (f := (·.place)) hr'
    rw [hplaces] at hplace
    revert hplace
    generalize r'.place = p
    revert p
    decide
  have hnumbers := numbers_increase.2.2 _ _ _ r h fiveFrames hparts
  exact ⟨r, h, hnumbers,
    ⟨r', List.mem_of_getElem? hr', bytes, hbytes,
      hnumbers.read_number r' (List.mem_of_getElem? hr') ⟨1, 1⟩ bytes hbytes⟩,
    numbers_increase.2.1 ⟨1, 1⟩ ⟨2, 0⟩ (by decide) (by decide)⟩

/-- The first parts of these two segments have the same number. -/
theorem numbers_repeat : Place.Before ⟨4294968, 0⟩ ⟨4294969, 0⟩ ∧
    ¬Place.number ⟨4294968, 0⟩ < Place.number ⟨4294969, 0⟩ := by
  decide

end Rendition

end LiveHls
