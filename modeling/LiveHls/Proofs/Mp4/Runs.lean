import LiveHls.Mp4.MovieFragment
import LiveHls.Proofs.Mp4.Reading

/-!
# Reading the run of a track

The reader of `traf` fills in for each sample what the run does not state: the flags of the first
sample may stand in front of the samples, all else that is missing is a default of `tfhd`.

* `ReadRun`, `readRun?` : what a reader makes of a `traf` box;
* `Sample.GivenBy` : what a run states of a sample and the defaults together are the sample;
* `ofSamples_given` : the fields that `TrackFragment.ofSamples` leaves out are the defaults;
* `readRun?_ofSamples` : a run reads back as its samples, whichever of two statements of the flags
  of its first sample wins.
-/

namespace LiveHls.Mp4

open Bytes (word16 word32 word64 int32)

/-! ## The reader -/

/-- A track fragment as a reader finds it. -/
structure ReadRun where
  track : UInt32
  decodeTime : UInt64
  dataOffset : Int32
  samples : List Sample
deriving DecidableEq

/-- The next word if `flags` has the bit `flag` set, else `default`. -/
def optional? (flags flag default : UInt32) (bytes : Bytes) : Option (UInt32 × Bytes) :=
  if flags &&& flag = 0 then some (default, bytes) else word32? bytes

/-- The bytes behind a field that is there if `flags` has the bit `flag` set. -/
def skip (flags flag : UInt32) (width : Nat) (bytes : Bytes) : Bytes :=
  if flags &&& flag = 0 then bytes else bytes.drop width

/-- `tfhd`: the track and the defaults of its samples. -/
def readDefaults? (payload : Bytes) : Option (UInt32 × Sample) := do
  let (_, flags, rest) ← versioned? payload
  let (track, rest) ← word32? rest
  let rest := skip flags 0x02 4 (skip flags 0x01 8 rest)
  let (duration, rest) ← optional? flags 0x08 0 rest
  let (size, rest) ← optional? flags 0x10 0 rest
  let (sampleFlags, _) ← optional? flags 0x20 0 rest
  return (track, ⟨duration, size, sampleFlags⟩)

/-- `tfdt`, whose time has 64 bits in version 1. -/
def readDecodeTime? (payload : Bytes) : Option UInt64 := do
  let (version, _, rest) ← versioned? payload
  if version = 1 then (word64? rest).map (·.1) else (word32? rest).map (·.1.toUInt64)

/-- The flags of the first sample, if they stand in front of the samples. -/
def readFirstFlags? (flags : UInt32) (bytes : Bytes) : Option (Option UInt32 × Bytes) :=
  if flags &&& 0x004 = 0 then some (none, bytes)
  else (word32? bytes).map fun (first, rest) => (some first, rest)

/-- The next sample of a run. Where both the flags in front of the samples and its own are there,
`firstWins` tells which count. -/
def readSample? (firstWins : Bool) (flags : UInt32) (defaults : Sample) (first? : Option UInt32)
    (bytes : Bytes) : Option (Sample × Bytes) := do
  let (duration, rest) ← optional? flags 0x100 defaults.duration bytes
  let (size, rest) ← optional? flags 0x200 defaults.size rest
  let (own, rest) ← optional? flags 0x400 (first?.getD defaults.flags) rest
  return (⟨duration, size, if firstWins then first?.getD own else own⟩, rest)

/-- The next samples of a run; `first?` is only for the first of them. -/
def readSamples? (firstWins : Bool) (flags : UInt32) (defaults : Sample) :
    Option UInt32 → Nat → Bytes → Option (List Sample × Bytes)
  | _, 0, bytes => some ([], bytes)
  | first?, count + 1, bytes => do
    let (s, rest) ← readSample? firstWins flags defaults first? bytes
    let (samples, rest) ← readSamples? firstWins flags defaults none count rest
    return (s :: samples, rest)

/-- `trun`: the data offset and the samples, with no byte left over. -/
def readSampleRun? (firstWins : Bool) (defaults : Sample) (payload : Bytes) :
    Option (Int32 × List Sample) := do
  let (_, flags, rest) ← versioned? payload
  let (count, rest) ← word32? rest
  let (offset, rest) ← optional? flags 0x001 0 rest
  let (first?, rest) ← readFirstFlags? flags rest
  let (samples, rest) ← readSamples? firstWins flags defaults first? count.toNat rest
  if rest.isEmpty then some (offset.toInt32, samples) else none

/-- `traf`. -/
def readRun? (firstWins : Bool) (payload : Bytes) : Option ReadRun := do
  let header ← child? (.ascii 't' 'f' 'h' 'd') payload
  let (track, defaults) ← readDefaults? header
  let time ← child? (.ascii 't' 'f' 'd' 't') payload
  let ticks ← readDecodeTime? time
  let run ← child? (.ascii 't' 'r' 'u' 'n') payload
  let (offset, samples) ← readSampleRun? firstWins defaults run
  return ⟨track, ticks, offset, samples⟩

/-! ## Fields that may be missing -/

theorem hasFlag_eq_true_iff {flags flag : UInt32} :
    hasFlag flags flag = true ↔ ¬flags &&& flag = 0 := by
  unfold hasFlag
  rw [bne_iff_ne]

theorem hasFlag_eq_false_iff {flags flag : UInt32} :
    hasFlag flags flag = false ↔ flags &&& flag = 0 := by
  unfold hasFlag
  rw [bne_eq_false_iff_eq]

theorem optional?_whenFlag (flags flag default n : UInt32) (rest : Bytes) :
    optional? flags flag default (whenFlag flags flag (word32 n) ++ rest) =
      some (if hasFlag flags flag then n else default, rest) := by
  cases h : hasFlag flags flag with
  | true =>
    unfold optional?
    rw [if_neg (hasFlag_eq_true_iff.1 h), whenFlag, h, if_pos rfl, word32?_word32]
    rfl
  | false =>
    unfold optional?
    rw [if_pos (hasFlag_eq_false_iff.1 h), whenFlag, h]
    rfl

theorem length_whenFlag (flags flag : UInt32) {a b : Bytes} (h : a.length = b.length) :
    (whenFlag flags flag a).length = (whenFlag flags flag b).length := by
  unfold whenFlag
  split
  · exact h
  · rfl

theorem readFirstFlags?_whenFlag (flags n : UInt32) (rest : Bytes) :
    readFirstFlags? flags (whenFlag flags 0x004 (word32 n) ++ rest) =
      some (if hasFlag flags 0x004 then some n else none, rest) := by
  cases h : hasFlag flags 0x004 with
  | true =>
    unfold readFirstFlags?
    rw [if_neg (hasFlag_eq_true_iff.1 h), whenFlag, h, if_pos rfl, word32?_word32]
    rfl
  | false =>
    unfold readFirstFlags?
    rw [if_pos (hasFlag_eq_false_iff.1 h), whenFlag, h]
    rfl

theorem skip_of_not_hasFlag {flags flag : UInt32} (h : hasFlag flags flag = false) (width : Nat)
    (bytes : Bytes) : skip flags flag width bytes = bytes := by
  unfold skip
  rw [if_pos (hasFlag_eq_false_iff.1 h)]

/-! ## Samples -/

namespace Sample

/-- What a run with these flags states of a sample and the defaults together are the sample. -/
structure GivenBy (s : Sample) (flags : UInt32) (defaults : Sample) (first? : Option UInt32) :
    Prop where
  duration_given : hasFlag flags 0x100 = true ∨ defaults.duration = s.duration
  size_given : hasFlag flags 0x200 = true ∨ defaults.size = s.size
  flags_given : hasFlag flags 0x400 = true ∨ first?.getD defaults.flags = s.flags
  first_eq : ∀ first, first? = some first → first = s.flags

end Sample

section Samples
variable {flags : UInt32} {defaults : Sample} {first? : Option UInt32}

theorem ite_eq_of_or {α : Type} {b : Bool} {x y : α} (h : b = true ∨ y = x) :
    (if b then x else y) = x := by
  cases b with
  | true => rfl
  | false => exact h.resolve_left Bool.false_ne_true

theorem readSample?_sampleFields {s : Sample} (h : s.GivenBy flags defaults first?)
    (firstWins : Bool) (rest : Bytes) :
    readSample? firstWins flags defaults first? (TrackRun.sampleFields flags s ++ rest) =
      some (s, rest) := by
  have hfirst : first?.getD s.flags = s.flags := by
    cases hf : first? with
    | none => rfl
    | some first => exact h.first_eq first hf
  simp only [readSample?, TrackRun.sampleFields, TrackRun.hasDurations, TrackRun.hasSizes,
    TrackRun.hasSampleFlags, List.append_assoc, optional?_whenFlag, Option.bind_eq_bind,
    Option.bind_some, ite_eq_of_or h.duration_given, ite_eq_of_or h.size_given,
    ite_eq_of_or h.flags_given, hfirst, ite_self]
  rfl

/-- **Samples read back from the fields that the run states of them.** -/
theorem readSamples?_flatMap (firstWins : Bool) (rest : Bytes) {samples : List Sample}
    (hhead : ∀ s, samples.head? = some s → s.GivenBy flags defaults first?)
    (htail : ∀ s ∈ samples.tail, s.GivenBy flags defaults none) {count : Nat}
    (hcount : count ≤ samples.length) :
    readSamples? firstWins flags defaults first? count
        (samples.flatMap (TrackRun.sampleFields flags) ++ rest) =
      some (samples.take count,
        (samples.drop count).flatMap (TrackRun.sampleFields flags) ++ rest) := by
  induction samples generalizing first? count with
  | nil =>
    rw [Nat.le_zero.1 hcount]
    rfl
  | cons s samples ih =>
    cases count with
    | zero => rfl
    | succ count =>
      have htail' : ∀ t ∈ samples.tail, t.GivenBy flags defaults none :=
        fun t ht => htail t (List.mem_of_mem_tail ht)
      have hhead' : ∀ t, samples.head? = some t → t.GivenBy flags defaults none :=
        fun t ht => htail t (List.mem_of_head? ht)
      unfold readSamples?
      rw [List.flatMap_cons, List.append_assoc, readSample?_sampleFields (hhead s rfl)]
      simp only [Option.bind_eq_bind, Option.bind_some]
      rw [ih hhead' htail' (Nat.le_of_succ_le_succ hcount)]
      rfl

end Samples

/-! ## Boxes of a track fragment -/

/-- The defaults that a header states; what it leaves out is read as 0. -/
def TrackFragmentHeader.stated (h : TrackFragmentHeader) : Sample where
  duration := if hasFlag h.flags 0x08 then h.duration else 0
  size := if hasFlag h.flags 0x10 then h.size else 0
  flags := if hasFlag h.flags 0x20 then h.sampleFlags else 0

theorem readDefaults?_box {h : TrackFragmentHeader} (hfit : h.flags &&& 0x00FFFFFF = h.flags)
    (hbase : hasFlag h.flags 0x01 = false) (hdescription : hasFlag h.flags 0x02 = false) :
    readDefaults? h.box.raw.payload = some (h.track, h.stated) := by
  have hlast := optional?_whenFlag h.flags 0x20 0 h.sampleFlags []
  rw [List.append_nil] at hlast
  simp only [readDefaults?, TrackFragmentHeader.box, Box.raw_leaf, versioned?_versioned, hfit,
    TrackFragmentHeader.defaultDuration, TrackFragmentHeader.defaultSize,
    TrackFragmentHeader.defaultFlags, List.append_assoc, word32?_word32, Option.bind_eq_bind,
    Option.bind_some, skip_of_not_hasFlag hbase, skip_of_not_hasFlag hdescription,
    optional?_whenFlag, hlast]
  rfl

theorem readDecodeTime?_box (ticks : UInt64) :
    readDecodeTime? (decodeTime ticks).raw.payload = some ticks := by
  have hticks := word64?_word64 ticks []
  rw [List.append_nil] at hticks
  simp only [readDecodeTime?, decodeTime, Box.raw_leaf, versioned?_versioned, hticks,
    Option.bind_eq_bind, Option.bind_some]
  rfl

namespace TrackRun

theorem length_sampleFields (flags : UInt32) (s t : Sample) :
    (sampleFields flags s).length = (sampleFields flags t).length := by
  have h (flag m n : UInt32) :
      (whenFlag flags flag (word32 m)).length = (whenFlag flags flag (word32 n)).length :=
    length_whenFlag flags flag (by rw [Bytes.length_word32, Bytes.length_word32])
  unfold sampleFields
  rw [List.length_append, List.length_append, List.length_append, List.length_append,
    h _ s.duration t.duration, h _ s.size t.size, h _ s.flags t.flags]

/-- The largest number of samples that a run can state. -/
def maxCount : Nat := 0xFFFFFFFF

theorem length_flatMap_sampleFields (flags : UInt32) (s : Sample) (samples : List Sample) :
    (samples.flatMap (sampleFields flags)).length =
      samples.length * (sampleFields flags s).length := by
  induction samples with
  | nil => exact (Nat.zero_mul _).symm
  | cons t samples ih =>
    rw [List.flatMap_cons, List.length_append, ih, length_sampleFields flags t s, List.length_cons,
      Nat.succ_mul, Nat.add_comm]

theorem four_le_length_sampleFields {flags : UInt32} (h : hasFlag flags hasSizes = true)
    (s : Sample) : 4 ≤ (sampleFields flags s).length := by
  have hsize : (whenFlag flags hasSizes (word32 s.size)).length = 4 := by
    unfold whenFlag
    rw [h, if_pos rfl, Bytes.length_word32]
  unfold sampleFields
  rw [List.length_append, List.length_append, hsize]
  omega

/-- A run that fits a file of four gigabytes states nothing of samples that its count leaves out. -/
theorem flatMap_drop_maxCount {flags : UInt32} {samples : List Sample}
    (h : (samples.flatMap (sampleFields flags)).length < 2 ^ 32) :
    (samples.drop maxCount).flatMap (sampleFields flags) = [] := by
  cases samples with
  | nil => rfl
  | cons s rest =>
    rw [length_flatMap_sampleFields flags s] at h
    apply List.eq_nil_of_length_eq_zero
    rw [length_flatMap_sampleFields flags s, List.length_drop]
    rcases Nat.eq_zero_or_pos (sampleFields flags s).length with hw | hw
    · rw [hw, Nat.mul_zero]
    · have hle := Nat.le_mul_of_pos_right (s :: rest).length hw
      have hmax : (s :: rest).length ≤ maxCount := by
        unfold maxCount
        omega
      rw [Nat.sub_eq_zero_of_le hmax, Nat.zero_mul]

/-- The flags of the first sample, if the run states them in front of the samples. -/
def first? (r : TrackRun) : Option UInt32 :=
  if hasFlag r.flags 0x004 then some r.firstSampleFlags else none

end TrackRun

/-- Nothing is stated of samples that the count of a run leaves out. -/
theorem TrackRun.flatMap_drop_count {r : TrackRun} (h : r.box.raw.payload.length < 2 ^ 32) :
    (r.samples.drop (min r.samples.length maxCount)).flatMap (sampleFields r.flags) = [] := by
  have heq : r.samples.drop (min r.samples.length maxCount) = r.samples.drop maxCount := by
    rw [List.drop_eq_drop_iff]
    omega
  rw [heq]
  refine flatMap_drop_maxCount (Nat.lt_of_le_of_lt ?_ h)
  simp only [box, Box.raw_leaf, Box.length_versioned, List.length_append]
  omega

/-- What a reader makes of a run: its offset, and the samples that fill the bytes behind it. -/
theorem readSampleRun?_eq {r : TrackRun} (firstWins : Bool) (defaults : Sample)
    (hfit : r.flags &&& 0x00FFFFFF = r.flags) (hoffset : hasFlag r.flags 0x001 = true) :
    readSampleRun? firstWins defaults r.box.raw.payload =
      (readSamples? firstWins r.flags defaults r.first? (min r.samples.length TrackRun.maxCount)
        (r.samples.flatMap (TrackRun.sampleFields r.flags) ++ [])).bind fun found =>
          if found.2.isEmpty then some (r.dataOffset, found.1) else none := by
  have hcount : (Saturating.toUInt32 r.samples.length).toNat =
      min r.samples.length TrackRun.maxCount := Saturating.toNat_toUInt32 _
  simp only [readSampleRun?, TrackRun.box, Box.raw_leaf, versioned?_versioned, hfit,
    TrackRun.hasDataOffset, TrackRun.hasFirstSampleFlags, int32, List.append_assoc, word32?_word32,
    Option.bind_eq_bind, Option.bind_some, optional?_whenFlag, readFirstFlags?_whenFlag, hoffset,
    if_true, hcount, List.append_nil]
  rfl

theorem readSampleRun?_box {r : TrackRun} (firstWins : Bool) {defaults : Sample}
    (hfit : r.flags &&& 0x00FFFFFF = r.flags) (hoffset : hasFlag r.flags 0x001 = true)
    (hhead : ∀ s, r.samples.head? = some s → s.GivenBy r.flags defaults r.first?)
    (htail : ∀ s ∈ r.samples.tail, s.GivenBy r.flags defaults none)
    (hlength : r.box.raw.payload.length < 2 ^ 32) :
    readSampleRun? firstWins defaults r.box.raw.payload =
      some (r.dataOffset, r.samples.take TrackRun.maxCount) := by
  have htake : r.samples.take (min r.samples.length TrackRun.maxCount) =
      r.samples.take TrackRun.maxCount := by
    rw [List.take_eq_take_iff]
    omega
  rw [readSampleRun?_eq firstWins defaults hfit hoffset,
    readSamples?_flatMap firstWins [] hhead htail (Nat.min_le_left ..), htake,
    TrackRun.flatMap_drop_count hlength]
  rfl

/-! ## The fields that a run leaves out -/

namespace TrackFragment
variable {track : UInt32} {time : UInt64} {samples : List Sample}

/-- The flags of a run, by the fields that it states. -/
def runFlags (firstFlags durations sizes sampleFlags : Bool) : UInt32 :=
  TrackRun.hasDataOffset
    ||| (if firstFlags then TrackRun.hasFirstSampleFlags else 0)
    ||| (if durations then TrackRun.hasDurations else 0)
    ||| (if sizes then TrackRun.hasSizes else 0)
    ||| (if sampleFlags then TrackRun.hasSampleFlags else 0)

/-- All sixteen combinations of fields are told apart. -/
theorem hasFlag_runFlags : ∀ a b c d : Bool,
    runFlags a b c d &&& 0x00FFFFFF = runFlags a b c d ∧
    hasFlag (runFlags a b c d) 0x001 = true ∧ hasFlag (runFlags a b c d) 0x004 = a ∧
    hasFlag (runFlags a b c d) 0x100 = b ∧ hasFlag (runFlags a b c d) 0x200 = c ∧
    hasFlag (runFlags a b c d) 0x400 = d := by
  decide

theorem headerFlags_ofSamples : (ofSamples track time samples).header.flags =
    TrackFragmentHeader.defaultDuration ||| TrackFragmentHeader.defaultSize
      ||| TrackFragmentHeader.defaultFlags ||| TrackFragmentHeader.baseIsMoof := rfl

/-- The first sample of a run as its writer sees it. -/
def firstOf (samples : List Sample) : Sample := samples.head?.getD ⟨0, 0, Sample.dependentFlags⟩

/-- The flags that are the default of a run: those of the second sample, or of the only one. -/
def defaultFlagsOf (samples : List Sample) : UInt32 :=
  (samples[1]?.map (·.flags)).getD (firstOf samples).flags

theorem hasFlag_ofSamples :
    let flags := (ofSamples track time samples).run.flags
    flags &&& 0x00FFFFFF = flags ∧ hasFlag flags 0x001 = true ∧
    hasFlag flags 0x004 = ((firstOf samples).flags != defaultFlagsOf samples) ∧
    hasFlag flags 0x100 = samples.any (·.duration != (firstOf samples).duration) ∧
    hasFlag flags 0x200 = samples.any (·.size != (firstOf samples).size) ∧
    hasFlag flags 0x400 = samples.tail.any (·.flags == Sample.independentFlags) :=
  hasFlag_runFlags _ _ _ _

theorem any_eq_true_or_eq {α β : Type} [BEq β] [LawfulBEq β] {f : α → β} {l : List α} {b : β}
    {a : α} (ha : a ∈ l) : l.any (f · != b) = true ∨ b = f a := by
  by_cases h : f a = b
  · exact Or.inr h.symm
  · exact Or.inl (List.any_eq_true.2 ⟨a, ha, bne_iff_ne.2 h⟩)

/-- Where the flags of no sample behind the first are stated, they are the default. -/
theorem defaultFlagsOf_eq
    (hflags : ∀ s ∈ samples, s.flags = Sample.independentFlags ∨ s.flags = Sample.dependentFlags)
    (hnone : samples.tail.any (·.flags == Sample.independentFlags) = false)
    {s : Sample} (hs : s ∈ samples.tail) : defaultFlagsOf samples = s.flags := by
  have hdependent : ∀ t ∈ samples.tail, t.flags = Sample.dependentFlags := by
    intro t ht
    apply (hflags t (List.mem_of_mem_tail ht)).resolve_left
    intro h
    rw [List.any_eq_false] at hnone
    exact hnone t ht (beq_iff_eq.2 h)
  cases samples with
  | nil => cases hs
  | cons first rest =>
    cases rest with
    | nil => cases hs
    | cons second rest =>
      show second.flags = s.flags
      rw [hdependent s hs, hdependent second List.mem_cons_self]

/-- A run states nothing of samples that are all the same, unless they are independent. -/
theorem flatMap_sampleFields_replicate {count : Nat} {s : Sample}
    (hs : s.flags ≠ Sample.independentFlags) :
    (List.replicate count s).flatMap (TrackRun.sampleFields
      (ofSamples track time (List.replicate count s)).run.flags) = [] := by
  cases count with
  | zero => rfl
  | succ count =>
    obtain ⟨-, -, -, hdurations, hsizes, hflags⟩ :=
      @hasFlag_ofSamples track time (List.replicate (count + 1) s)
    have hfirst : firstOf (List.replicate (count + 1) s) = s := rfl
    have hsame {β : Type} [BEq β] [LawfulBEq β] (g : Sample → β) :
        (List.replicate (count + 1) s).any (g · != g s) = false := by
      rw [List.any_eq_false]
      intro t ht
      rw [List.eq_of_mem_replicate ht, bne_self_eq_false]
      exact Bool.false_ne_true
    have hdependent : (List.replicate (count + 1) s).tail.any
        (·.flags == Sample.independentFlags) = false := by
      rw [List.any_eq_false]
      intro t ht
      rw [List.eq_of_mem_replicate (List.mem_of_mem_tail ht), beq_iff_eq]
      exact hs
    rw [hfirst, hsame] at hdurations hsizes
    rw [hdependent] at hflags
    refine List.flatMap_eq_nil_iff.2 fun t _ => ?_
    simp only [TrackRun.sampleFields, TrackRun.hasDurations, TrackRun.hasSizes,
      TrackRun.hasSampleFlags, whenFlag, hdurations, hsizes, hflags, Bool.false_eq_true, if_false,
      List.append_nil]

/-- In a file of two gigabytes, samples that the count of a run leaves out are empty. -/
theorem sum_sizes_take
    (hlength :
      (samples.flatMap (TrackRun.sampleFields (ofSamples track time samples).run.flags)).length <
        2 ^ 31)
    (hsum : (samples.map (·.size.toNat)).sum < 2 ^ 31) :
    ((samples.take TrackRun.maxCount).map (·.size.toNat)).sum =
      (samples.map (·.size.toNat)).sum := by
  rcases Nat.lt_or_ge TrackRun.maxCount samples.length with hmany | hfew
  · obtain ⟨-, -, -, -, hsizes, -⟩ := @hasFlag_ofSamples track time samples
    cases hany : samples.any (·.size != (firstOf samples).size) with
    | true =>
      exfalso
      have hfour := TrackRun.four_le_length_sampleFields (hsizes.trans hany) (firstOf samples)
      rw [TrackRun.length_flatMap_sampleFields _ (firstOf samples)] at hlength
      have := Nat.mul_le_mul_left samples.length hfour
      unfold TrackRun.maxCount at hmany
      omega
    | false =>
      have hsame : samples.map (·.size.toNat) =
          List.replicate samples.length (firstOf samples).size.toNat := by
        rw [List.eq_replicate_iff, List.length_map]
        refine ⟨rfl, fun n hn => ?_⟩
        obtain ⟨s, hs, rfl⟩ := List.mem_map.1 hn
        rw [List.any_eq_false] at hany
        rw [Decidable.of_not_not fun h => hany s hs (bne_iff_ne.2 h)]
      rw [List.map_take, hsame, List.take_replicate, List.sum_replicate_nat, List.sum_replicate_nat]
      rw [hsame, List.sum_replicate_nat] at hsum
      have hzero : (firstOf samples).size.toNat = 0 := by
        apply Nat.eq_zero_of_not_pos
        intro hpos
        have := Nat.le_mul_of_pos_right samples.length hpos
        unfold TrackRun.maxCount at hmany
        omega
      rw [hzero, Nat.mul_zero, Nat.mul_zero]
  · rw [List.take_of_length_le hfew]

/-- **The fields that a run leaves out are the defaults**, as long as there are two kinds of flags:
first the samples behind the first one, then the first. -/
theorem ofSamples_given
    (hflags : ∀ s ∈ samples, s.flags = Sample.independentFlags ∨ s.flags = Sample.dependentFlags) :
    let f := ofSamples track time samples
    let defaults : Sample := ⟨f.header.duration, f.header.size, f.header.sampleFlags⟩
    (∀ s ∈ samples.tail, s.GivenBy f.run.flags defaults none) ∧
      ∀ s, samples.head? = some s → s.GivenBy f.run.flags defaults f.run.first? := by
  intro f defaults
  obtain ⟨-, -, hfirst, hdurations, hsizes, hsampleFlags⟩ := @hasFlag_ofSamples track time samples
  constructor
  · intro s hs
    have hmem := List.mem_of_mem_tail hs
    refine ⟨?_, ?_, ?_, nofun⟩
    · rw [hdurations]
      exact any_eq_true_or_eq hmem
    · rw [hsizes]
      exact any_eq_true_or_eq hmem
    · rw [hsampleFlags]
      cases hany : samples.tail.any (·.flags == Sample.independentFlags) with
      | true => exact Or.inl rfl
      | false => exact Or.inr (defaultFlagsOf_eq hflags hany hs)
  · intro s hs
    have hmem := List.mem_of_head? hs
    have hs' : firstOf samples = s := by rw [firstOf, hs]; rfl
    -- the first sample's flags are in front of the samples, or they are the default
    have hown : f.run.first?.getD defaults.flags = s.flags := by
      unfold TrackRun.first?
      rw [hfirst]
      by_cases h : (firstOf samples).flags = defaultFlagsOf samples
      · rw [if_neg (by rw [bne_iff_ne]; exact not_not_intro h), ← hs']
        exact h.symm
      · rw [if_pos (bne_iff_ne.2 h), ← hs']
        rfl
    refine ⟨?_, ?_, Or.inr hown, fun first h => ?_⟩
    · rw [hdurations]
      exact any_eq_true_or_eq hmem
    · rw [hsizes]
      exact any_eq_true_or_eq hmem
    · rwa [h] at hown

end TrackFragment

/-- What a reader makes of a track fragment: the defaults of its header, and with them the run. -/
theorem readRun?_box (firstWins : Bool) {f : TrackFragment}
    (h : f.box.raw.payload.length < 2 ^ 32) :
    readRun? firstWins f.box.raw.payload =
      (readDefaults? f.header.box.raw.payload).bind fun header =>
        (readSampleRun? firstWins header.2 f.run.box.raw.payload).map fun run =>
          ⟨header.1, f.time, run.1, run.2⟩ := by
  have hpayload : f.box.raw.payload =
      Box.encodeAll [f.header.box, decodeTime f.time, f.run.box] := by
    unfold TrackFragment.box
    rw [Box.raw_container]
    rfl
  rw [hpayload] at h ⊢
  have hchild := child?_encodeAll h
  have htfhd := hchild (.ascii 't' 'f' 'h' 'd')
  have htfdt := hchild (.ascii 't' 'f' 'd' 't')
  have htrun := hchild (.ascii 't' 'r' 'u' 'n')
  rw [show List.find? _ _ = some f.header.box.raw from rfl, Option.map_some] at htfhd
  rw [show List.find? _ _ = some (decodeTime f.time).raw from rfl, Option.map_some] at htfdt
  rw [show List.find? _ _ = some f.run.box.raw from rfl, Option.map_some] at htrun
  simp only [readRun?, htfhd, htfdt, htrun, readDecodeTime?_box, Option.bind_eq_bind,
    Option.bind_some, Option.pure_def]
  refine Option.bind_congr fun header _ => ?_
  cases readSampleRun? firstWins header.2 f.run.box.raw.payload <;> rfl

theorem TrackFragment.length_run_le (f : TrackFragment) :
    f.run.box.raw.payload.length ≤ f.box.raw.payload.length := by
  unfold box
  rw [Box.raw_container, Box.encodeAll_append, List.length_append, Box.encodeAll_cons,
    Box.encodeAll_nil, List.append_nil, Box.length_encode, RawBox.size]
  omega

/-- **A run reads back as its samples**, as many as its count can state. -/
theorem readRun?_ofSamples {track : UInt32} {time : UInt64} {samples : List Sample} {offset : Int32}
    (firstWins : Bool)
    (hflags : ∀ s ∈ samples, s.flags = Sample.independentFlags ∨ s.flags = Sample.dependentFlags)
    (hlength :
      ((TrackFragment.ofSamples track time samples).withOffset offset).box.raw.payload.length <
        2 ^ 31) :
    readRun? firstWins
        ((TrackFragment.ofSamples track time samples).withOffset offset).box.raw.payload =
      some ⟨track, time, offset, samples.take TrackRun.maxCount⟩ := by
  obtain ⟨htail, hhead⟩ := @TrackFragment.ofSamples_given track time samples hflags
  obtain ⟨hfit, hoffset, -⟩ := @TrackFragment.hasFlag_ofSamples track time samples
  have hlength' := Nat.lt_trans hlength (by decide : 2 ^ 31 < 2 ^ 32)
  generalize hf : TrackFragment.ofSamples track time samples = f at *
  have hheader : f.header.flags = 0x020038 := by
    rw [← hf, TrackFragment.headerFlags_ofSamples]
    decide
  have hstated : f.header.stated = ⟨f.header.duration, f.header.size, f.header.sampleFlags⟩ := by
    rw [TrackFragmentHeader.stated, hheader]
    rfl
  have hsamples : f.run.samples = samples := by rw [← hf]; rfl
  have hdefaults := readDefaults?_box (h := f.header) (by rw [hheader]; decide)
    (by rw [hheader]; decide) (by rw [hheader]; decide)
  have hrun := readSampleRun?_box (r := (f.withOffset offset).run) firstWins hfit hoffset
    (hsamples ▸ hhead) (hsamples ▸ htail)
    (Nat.lt_of_le_of_lt (TrackFragment.length_run_le _) hlength')
  rw [hstated] at hdefaults
  rw [show (f.withOffset offset).run.samples = samples from hsamples] at hrun
  rw [readRun?_box firstWins hlength', show (f.withOffset offset).header = f.header from rfl,
    hdefaults, Option.bind_some, hrun, Option.map_some, ← hf]
  rfl

end LiveHls.Mp4
