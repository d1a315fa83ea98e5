import LiveHls.Mp4.Track
import LiveHls.Proofs.Mp4.Runs

/-!
# Reading fragments

The reader of a fragment takes the file apart into its boxes, reads the segment indexes and the runs
of the tracks, and cuts the samples out of the file at the data offsets.

* `ReadFragment`, `readFragment?` : what a reader makes of a file;
* `readFragment?_of_boxes` : it depends on the payloads of `sidx` and `moof` alone;
* `cut`, `Tiles` : the samples of a run, and runs that follow each other without a gap.
-/

namespace LiveHls.Mp4

open Bytes (word32)

/-! ## The reader -/

/-- `sidx` of version 1 with one reference. -/
def readIndex? (payload : Bytes) : Option SegmentIndex := do
  let (version, _, rest) ← versioned? payload
  let (track, rest) ← word32? rest
  let (timescale, rest) ← word32? rest
  let (earliestTime, rest) ← word64? rest
  let (_firstOffset, rest) ← word64? rest
  let (_reserved, rest) ← word16? rest
  let (_count, rest) ← word16? rest
  let (size, rest) ← word32? rest
  let (duration, _) ← word32? rest
  if version = 1 then some ⟨track, timescale, earliestTime, size &&& 0x7FFFFFFF, duration⟩ else none

/-- `moof`: the sequence number and the runs. -/
def readMovieFragment? (firstWins : Bool) (payload : Bytes) : Option (UInt32 × List ReadRun) := do
  let header ← child? (.ascii 'm' 'f' 'h' 'd') payload
  let (_, _, rest) ← versioned? header
  let (sequence, _) ← word32? rest
  let bs ← boxes? payload
  let runs ← (bs.filter (·.type == .ascii 't' 'r' 'a' 'f')).mapM (readRun? firstWins ·.payload)
  return (sequence, runs)

structure ReadFragment where
  kinds : List FourCC
  indexes : List SegmentIndex
  sequence : UInt32
  runs : List ReadRun
  /-- Where `moof` starts. -/
  moofStart : Nat
  /-- Where the payload of `mdat` starts. -/
  dataStart : Nat
  /-- The size of the payload of `mdat`. -/
  dataLength : Nat

/-- Where the first box of a type starts among boxes that follow each other. -/
def startOf (type : FourCC) (bs : List RawBox) : Nat :=
  ((bs.takeWhile (·.type != type)).map RawBox.size).sum

def readFragment? (firstWins : Bool) (file : Bytes) : Option ReadFragment := do
  let bs ← boxes? file
  let indexes ← (bs.filter (·.type == .ascii 's' 'i' 'd' 'x')).mapM (readIndex? ·.payload)
  let moof ← child? (.ascii 'm' 'o' 'o' 'f') file
  let (sequence, runs) ← readMovieFragment? firstWins moof
  let data ← child? (.ascii 'm' 'd' 'a' 't') file
  return {
    kinds := bs.map (·.type)
    indexes, sequence, runs
    moofStart := startOf (.ascii 'm' 'o' 'o' 'f') bs
    dataStart := startOf (.ascii 'm' 'd' 'a' 't') bs + headerLength
    dataLength := data.length }

/-- Whether a sample can be decoded without others. -/
def Sample.isSync (s : Sample) : Bool := s.flags &&& 0x00010000 == 0

namespace ReadRun

def sizes (r : ReadRun) : List Nat := r.samples.map (·.size.toNat)

/-- Where the data of a run start in a file whose `moof` starts at `moofStart`. -/
def start (r : ReadRun) (moofStart : Nat) : Nat := (moofStart + r.dataOffset.toInt).toNat

end ReadRun

/-- The samples of the given sizes that follow each other from `start` on. -/
def cut (file : Bytes) (start : Nat) : List Nat → List Bytes
  | [] => []
  | size :: sizes => (file.drop start).take size :: cut file (start + size) sizes

/-- Stretches of a file, each given by its start and its size, follow each other without a gap from
`start` to `stop`. -/
def Tiles (start stop : Nat) : List (Nat × Nat) → Prop
  | [] => start = stop
  | (first, size) :: rest => first = start ∧ Tiles (start + size) stop rest

/-! ## Segment indexes -/

theorem readIndex?_box (x : SegmentIndex) :
    readIndex? x.box.raw.payload = some { x with size := x.size &&& 0x7FFFFFFF } := by
  have hsize : x.size &&& 0x7FFFFFFF &&& 0x7FFFFFFF = x.size &&& 0x7FFFFFFF := by
    rw [UInt32.and_assoc, UInt32.and_self]
  simp only [readIndex?, SegmentIndex.box, Box.raw_leaf, versioned?_versioned, List.append_assoc,
    word32?_word32, word64?_word64, word16?_word16, Option.bind_eq_bind, Option.bind_some, hsize]
  rfl

theorem toUInt31_and (n : Nat) :
    Saturating.toUInt31 n &&& 0x7FFFFFFF = Saturating.toUInt31 n := by
  apply UInt32.toNat_inj.1
  rw [UInt32.toNat_and]
  show _ &&& 2 ^ 31 - 1 = _
  rw [Nat.and_two_pow_sub_one_eq_mod, Saturating.toNat_toUInt31]
  unfold Saturating.max31
  omega

theorem readMovieFragment?_box {f : MovieFragment} (firstWins : Bool)
    (hsmall : f.box.raw.payload.length < 2 ^ 32) :
    readMovieFragment? firstWins f.box.raw.payload =
      ((f.tracks.map (·.box.raw)).mapM (readRun? firstWins ·.payload)).map (f.sequence, ·) := by
  rw [MovieFragment.box, Box.raw_container] at hsmall ⊢
  have hboxes := boxes?_encodeAll hsmall
  have hheader := child?_encodeAll hsmall (.ascii 'm' 'f' 'h' 'd')
  rw [List.map_cons, show List.find? _ (_ :: _) = some (fragmentHeader f.sequence).raw from rfl,
    Option.map_some] at hheader
  have hfilter : (List.map Box.raw (fragmentHeader f.sequence :: f.tracks.map (·.box))).filter
      (·.type == .ascii 't' 'r' 'a' 'f') = f.tracks.map (·.box.raw) := by
    rw [List.map_cons, List.map_map]
    refine (List.filter_cons_of_neg Bool.false_ne_true).trans (List.filter_eq_self.2 ?_)
    intro b hb
    obtain ⟨t, -, rfl⟩ := List.mem_map.1 hb
    rfl
  have hversioned : versioned? (fragmentHeader f.sequence).raw.payload =
      some (0, 0, word32 f.sequence) := by
    unfold fragmentHeader
    rw [Box.raw_leaf, versioned?_versioned]
    rfl
  have hsequence := word32?_word32 f.sequence []
  rw [List.append_nil] at hsequence
  simp only [readMovieFragment?, hboxes, hheader, hversioned, hsequence, hfilter,
    Option.bind_eq_bind, Option.bind_some]
  rw [Option.map_eq_bind]
  rfl

/-! ## Boxes that follow each other -/

section Lists
variable {type : FourCC} {front : List RawBox} {b : RawBox}

theorem startOf_append (hfront : ∀ a ∈ front, a.type ≠ type) (hb : b.type = type)
    (rest : List RawBox) : startOf type (front ++ b :: rest) = (front.map RawBox.size).sum := by
  unfold startOf
  rw [List.takeWhile_append_of_pos fun a ha => bne_iff_ne.2 (hfront a ha),
    List.takeWhile_cons_of_neg (by rw [hb, bne_self_eq_false]; exact Bool.false_ne_true),
    List.append_nil]

theorem find?_type_append (hfront : ∀ a ∈ front, a.type ≠ type) (hb : b.type = type)
    (rest : List RawBox) : (front ++ b :: rest).find? (·.type == type) = some b := by
  have hnone : front.find? (·.type == type) = none := by
    rw [List.find?_eq_none]
    exact fun a ha h => hfront a ha (beq_iff_eq.1 h)
  rw [List.find?_append, hnone, Option.none_or]
  exact List.find?_cons_of_pos (beq_iff_eq.2 hb)

end Lists

/-- What a reader makes of a file of `styp`, some `sidx`, `moof` and `mdat`. -/
theorem readFragment?_of_boxes {file : Bytes} {firstWins : Bool} {styp moof mdat : RawBox}
    {indexBoxes : List RawBox} {indexes : List SegmentIndex} {sequence : UInt32}
    {runs : List ReadRun} (hboxes : boxes? file = some (styp :: indexBoxes ++ [moof, mdat]))
    (hstyp : styp.type = .ascii 's' 't' 'y' 'p')
    (hsidx : ∀ b ∈ indexBoxes, b.type = .ascii 's' 'i' 'd' 'x')
    (hmoof : moof.type = .ascii 'm' 'o' 'o' 'f') (hmdat : mdat.type = .ascii 'm' 'd' 'a' 't')
    (hindexes : indexBoxes.mapM (readIndex? ·.payload) = some indexes)
    (hread : readMovieFragment? firstWins moof.payload = some (sequence, runs)) :
    readFragment? firstWins file = some {
      kinds := .ascii 's' 't' 'y' 'p' :: (indexBoxes.map fun _ => .ascii 's' 'i' 'd' 'x') ++
        [.ascii 'm' 'o' 'o' 'f', .ascii 'm' 'd' 'a' 't']
      indexes, sequence, runs
      moofStart := ((styp :: indexBoxes).map RawBox.size).sum
      dataStart := ((styp :: indexBoxes).map RawBox.size).sum + (moof.size + headerLength)
      dataLength := mdat.payload.length } := by
  have hfront : ∀ type, FourCC.ascii 's' 't' 'y' 'p' ≠ type → FourCC.ascii 's' 'i' 'd' 'x' ≠ type →
      ∀ b ∈ styp :: indexBoxes, b.type ≠ type := by
    intro type hs hi b hb
    rcases List.mem_cons.1 hb with rfl | hb
    · rwa [hstyp]
    · rwa [hsidx b hb]
  have hdata : styp :: indexBoxes ++ [moof, mdat] = (styp :: indexBoxes ++ [moof]) ++ [mdat] := by
    rw [List.append_assoc]
    rfl
  have hfront' : ∀ b ∈ styp :: indexBoxes ++ [moof], b.type ≠ .ascii 'm' 'd' 'a' 't' := by
    intro b hb
    rcases List.mem_append.1 hb with hb | hb
    · exact hfront _ (by decide) (by decide) b hb
    · rw [List.mem_singleton.1 hb, hmoof]
      decide
  have hfilter : (styp :: indexBoxes ++ [moof, mdat]).filter (·.type == .ascii 's' 'i' 'd' 'x') =
      indexBoxes := by
    have hall : indexBoxes.filter (·.type == .ascii 's' 'i' 'd' 'x') = indexBoxes :=
      List.filter_eq_self.2 fun b hb => beq_iff_eq.2 (hsidx b hb)
    rw [List.filter_append, List.filter_cons, hall, hstyp, List.filter_cons, hmoof,
      List.filter_cons, hmdat]
    exact List.append_nil _
  have hkinds : (styp :: indexBoxes ++ [moof, mdat]).map (·.type) =
      .ascii 's' 't' 'y' 'p' :: (indexBoxes.map fun _ => .ascii 's' 'i' 'd' 'x') ++
        [.ascii 'm' 'o' 'o' 'f', .ascii 'm' 'd' 'a' 't'] := by
    rw [List.map_append, List.map_cons, hstyp, List.map_congr_left hsidx, List.map_cons, hmoof,
      List.map_cons, hmdat]
    rfl
  have hmoofBox : child? (.ascii 'm' 'o' 'o' 'f') file = some moof.payload := by
    unfold child?
    rw [hboxes, Option.bind_some, find?_type_append (hfront _ (by decide) (by decide)) hmoof,
      Option.map_some]
  have hmdatBox : child? (.ascii 'm' 'd' 'a' 't') file = some mdat.payload := by
    unfold child?
    rw [hboxes, Option.bind_some, hdata, find?_type_append hfront' hmdat, Option.map_some]
  have hmoofStart := startOf_append (hfront _ (by decide) (by decide)) hmoof [mdat]
  have hdataStart := startOf_append hfront' hmdat []
  rw [← hdata, List.map_append, List.sum_append] at hdataStart
  simp only [readFragment?, hboxes, hfilter, hindexes, hmoofBox, hread, hmdatBox, hkinds,
    hmoofStart, hdataStart, Option.bind_eq_bind, Option.bind_some, Nat.add_assoc]
  rfl

/-! ## Samples in the file -/

theorem cut_flatten (front back : Bytes) (pieces : List Bytes) :
    cut (front ++ (pieces.flatten ++ back)) front.length (pieces.map List.length) = pieces := by
  induction pieces generalizing front with
  | nil => rfl
  | cons piece pieces ih =>
    have hrest := ih (front ++ piece)
    rw [List.length_append, List.append_assoc] at hrest
    rw [List.map_cons, cut, List.flatten_cons, List.append_assoc, List.drop_left, List.take_left,
      hrest]

end LiveHls.Mp4
