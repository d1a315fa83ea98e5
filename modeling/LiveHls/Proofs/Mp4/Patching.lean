import LiveHls.Proofs.Mp4.Fragments
import LiveHls.Proofs.Mp4.Nesting
import LiveHls.Proofs.Mp4.Placing

/-!
# Patching a data offset

A fragment is written front to back, and the writer keeps for each run where its data offset stands.

* `MovieFragment.write_eq` : the streaming writer writes the box of the fragment and keeps
  `offsetPositions`;
* `MovieFragment.offsetAt_offsetPositions` : these are the positions of the data offsets, whatever
  else the runs state;
* `readRun?_withOffset` : nothing that is read of a run but its data offset depends on that;
* `readFragmentFrom?_setOffset` : so other bytes there are read as another data offset of that run,
  and change nothing else;
* `PatchesOffsets`, `boxes_nest_and_offsets_patch` : boxes are nested, and offsets patched, behind
  any bytes.
-/

namespace LiveHls.Mp4

open Bytes (int32 word32)

/-! ## The streaming writer -/

namespace TrackFragment

theorem write_eq (buffer : Bytes) (f : TrackFragment) :
    f.write buffer = (buffer ++ f.box.encode, f.offsetPosition buffer.length) := by
  have hbox : f.box.encode = frame (.ascii 't' 'r' 'a' 'f')
      (Box.encodeAll f.boxesBeforeRun ++ f.run.box.encode) := by
    unfold box Box.container
    rw [Box.encode_mk, Box.encodeAll_append, Box.encodeAll_cons, Box.encodeAll_nil,
      List.append_nil, List.nil_append]
  simp only [write, Box.writeAll_eq_append_encodeAll, Box.write_eq_append_encode,
    List.append_assoc, closeBox_openBox, hbox, List.length_append, Box.length_openBox]
  rfl

end TrackFragment

namespace MovieFragment

theorem writeTracks_eq (buffer : Bytes) (tracks : List TrackFragment) :
    writeTracks buffer tracks =
      (buffer ++ Box.encodeAll (tracks.map (·.box)), positionsFrom buffer.length tracks) := by
  induction tracks generalizing buffer with
  | nil =>
    rw [writeTracks, List.map_nil, Box.encodeAll_nil, List.append_nil]
    rfl
  | cons f tracks ih =>
    simp only [writeTracks, positionsFrom, TrackFragment.write_eq, ih, List.map_cons,
      Box.encodeAll_cons, List.append_assoc, List.length_append]

/-- **The streaming writer writes the box and keeps its positions.** -/
theorem write_eq (buffer : Bytes) (m : MovieFragment) :
    m.write buffer = (buffer ++ m.box.encode, m.offsetPositions buffer.length) := by
  have hbox : m.box.encode = frame (.ascii 'm' 'o' 'o' 'f')
      ((fragmentHeader m.sequence).encode ++ Box.encodeAll (m.tracks.map (·.box))) := by
    unfold box Box.container
    rw [Box.encode_mk, Box.encodeAll_cons, List.nil_append]
  simp only [write, Box.write_eq_append_encode, writeTracks_eq, List.append_assoc,
    closeBox_openBox, hbox, List.length_append, Box.length_openBox]
  rfl

/-- The fragment with another data offset of one run. -/
def setOffset (m : MovieFragment) (i : Nat) (offset : Int32) : MovieFragment :=
  { m with tracks := m.tracks.modify i (·.withOffset offset) }

/-! ## Positions -/

theorem length_positionsFrom (start : Nat) (tracks : List TrackFragment) :
    (positionsFrom start tracks).length = tracks.length := by
  induction tracks generalizing start with
  | nil => rfl
  | cons f tracks ih => rw [positionsFrom, List.length_cons, List.length_cons, ih]

section Offset
variable {i : Nat} {f : TrackFragment}

/-- The position kept for a run is that of its data offset. -/
theorem offsetAt_positionsFrom (before : Bytes) {tracks : List TrackFragment}
    (hi : tracks[i]? = some f) (hflag : hasFlag f.run.flags TrackRun.hasDataOffset = true) :
    ∃ p, (positionsFrom before.length tracks)[i]? = some p ∧
      OffsetAt p fun offset =>
        before ++ Box.encodeAll ((tracks.modify i (·.withOffset offset)).map (·.box)) := by
  induction tracks generalizing before i with
  | nil => cases hi
  | cons g tracks ih =>
    cases i with
    | zero =>
      cases hi
      have hat := ((TrackFragment.offsetAt hflag).append_right
        (Box.encodeAll (tracks.map (·.box)))).append_left before
      have hposition : before.length + f.offsetPosition 0 = f.offsetPosition before.length := by
        unfold TrackFragment.offsetPosition
        omega
      rw [hposition] at hat
      refine ⟨_, rfl, hat.congr fun offset => ?_⟩
      rw [List.modify_zero_cons, List.map_cons, Box.encodeAll_cons]
    | succ i =>
      obtain ⟨p, hp, hat⟩ := ih (before ++ g.box.encode) hi
      rw [List.length_append] at hp
      refine ⟨p, hp, hat.congr fun offset => ?_⟩
      rw [List.modify_succ_cons, List.map_cons, Box.encodeAll_cons, List.append_assoc]

theorem sizes_modify_withOffset (tracks : List TrackFragment) (i : Nat) (offset : Int32) :
    (tracks.modify i (·.withOffset offset)).map (·.box.raw.size) =
      tracks.map (·.box.raw.size) := by
  refine List.ext_getElem? fun j => ?_
  rw [List.getElem?_map, List.getElem?_map, List.getElem?_modify, Option.map_eq_map,
    Option.map_map]
  refine Option.map_congr fun g _ => ?_
  simp only [Function.comp_apply]
  split
  · exact TrackFragment.size_withOffset ..
  · rfl

theorem size_setOffset (m : MovieFragment) (i : Nat) (offset : Int32) :
    (m.setOffset i offset).box.raw.size = m.box.raw.size := by
  rw [size_box, size_box, setOffset, sizes_modify_withOffset]

theorem offsetAt_offsetPositions (before : Bytes) {m : MovieFragment} (hi : m.tracks[i]? = some f)
    (hflag : hasFlag f.run.flags TrackRun.hasDataOffset = true) :
    ∃ p, (m.offsetPositions before.length)[i]? = some p ∧
      OffsetAt p fun offset => before ++ (m.setOffset i offset).box.encode := by
  have hstart : before.length + headerLength + (fragmentHeader m.sequence).encode.length =
      (before ++ m.opening).length := by
    rw [List.length_append, length_opening]
    omega
  obtain ⟨p, hp, hat⟩ := offsetAt_positionsFrom (before ++ m.opening) hi hflag
  unfold offsetPositions
  rw [hstart]
  refine ⟨p, hp, hat.congr fun offset => ?_⟩
  have hopening : (m.setOffset i offset).opening = m.opening := by
    unfold opening
    rw [size_setOffset]
    rfl
  rw [encode_box, hopening, List.append_assoc]
  rfl

theorem setOffset_self {m : MovieFragment} (hi : m.tracks[i]? = some f) :
    m.setOffset i f.run.dataOffset = m := by
  obtain ⟨sequence, tracks⟩ := m
  refine congrArg (MovieFragment.mk sequence) (List.ext_getElem? fun j => ?_)
  rw [List.getElem?_modify]
  by_cases hij : i = j
  · subst hij
    rw [show tracks[i]? = some f from hi]
    simp only [if_true]
    rfl
  · simp [hij]

end Offset

end MovieFragment

/-- The four bytes at the position are the data offset. -/
theorem OffsetAt.take_drop {position : Nat} {bytes : Int32 → Bytes} (h : OffsetAt position bytes)
    (offset : Int32) : ((bytes offset).drop position).take 4 = int32 offset := by
  obtain ⟨front, back, rfl, hbytes⟩ := h
  rw [hbytes, List.drop_left, List.take_left' (Bytes.length_int32 offset)]

/-! ## Flags that are not written -/

section Masked
variable {flag : UInt32}

theorem hasFlag_masked (h : 0x00FFFFFF &&& flag = flag) (flags : UInt32) :
    hasFlag (flags &&& 0x00FFFFFF) flag = hasFlag flags flag := by
  unfold hasFlag
  rw [UInt32.and_assoc, h]

theorem whenFlag_masked (h : 0x00FFFFFF &&& flag = flag) (flags : UInt32) (bytes : Bytes) :
    whenFlag (flags &&& 0x00FFFFFF) flag bytes = whenFlag flags flag bytes := by
  unfold whenFlag
  rw [hasFlag_masked h]

end Masked

theorem and_masked (flags : UInt32) :
    flags &&& 0x00FFFFFF &&& 0x00FFFFFF = flags &&& 0x00FFFFFF := by
  rw [UInt32.and_assoc, UInt32.and_self]

theorem Box.versioned_masked (version : UInt8) (flags : UInt32) (fields : Bytes) :
    versioned version (flags &&& 0x00FFFFFF) fields = versioned version flags fields := by
  unfold versioned
  rw [and_masked]

/-- The header with the flags that its box has room for. -/
def TrackFragmentHeader.masked (h : TrackFragmentHeader) : TrackFragmentHeader :=
  { h with flags := h.flags &&& 0x00FFFFFF }

theorem TrackFragmentHeader.box_masked (h : TrackFragmentHeader) : h.masked.box = h.box := by
  simp only [masked, box, Box.versioned_masked,
    whenFlag_masked (show 0x00FFFFFF &&& defaultDuration = defaultDuration by decide),
    whenFlag_masked (show 0x00FFFFFF &&& defaultSize = defaultSize by decide),
    whenFlag_masked (show 0x00FFFFFF &&& defaultFlags = defaultFlags by decide)]

namespace TrackRun

/-- The run with the flags that its box has room for. -/
def masked (r : TrackRun) : TrackRun := { r with flags := r.flags &&& 0x00FFFFFF }

theorem sampleFields_masked (flags : UInt32) :
    sampleFields (flags &&& 0x00FFFFFF) = sampleFields flags := by
  funext s
  simp only [sampleFields,
    whenFlag_masked (show 0x00FFFFFF &&& hasDurations = hasDurations by decide),
    whenFlag_masked (show 0x00FFFFFF &&& hasSizes = hasSizes by decide),
    whenFlag_masked (show 0x00FFFFFF &&& hasSampleFlags = hasSampleFlags by decide)]

theorem box_masked (r : TrackRun) : r.masked.box = r.box := by
  simp only [masked, box, Box.versioned_masked, sampleFields_masked,
    whenFlag_masked (show 0x00FFFFFF &&& hasDataOffset = hasDataOffset by decide),
    whenFlag_masked (show 0x00FFFFFF &&& hasFirstSampleFlags = hasFirstSampleFlags by decide)]

end TrackRun

/-! ## Reading -/

/-- The fields of a sample are there to be read, whichever they are. -/
theorem exists_readSamples? (firstWins : Bool) (flags : UInt32) (defaults : Sample) (rest : Bytes)
    (first? : Option UInt32) {samples : List Sample} {count : Nat}
    (hcount : count ≤ samples.length) :
    ∃ found, readSamples? firstWins flags defaults first? count
        (samples.flatMap (TrackRun.sampleFields flags) ++ rest) =
      some (found, (samples.drop count).flatMap (TrackRun.sampleFields flags) ++ rest) := by
  induction samples generalizing first? count with
  | nil =>
    rw [Nat.le_zero.1 hcount]
    exact ⟨[], rfl⟩
  | cons s samples ih =>
    cases count with
    | zero => exact ⟨[], rfl⟩
    | succ count =>
      obtain ⟨found, hfound⟩ := ih none (Nat.le_of_succ_le_succ hcount)
      have hsample (rest : Bytes) : ∃ t, readSample? firstWins flags defaults first?
          (TrackRun.sampleFields flags s ++ rest) = some (t, rest) := by
        simp only [readSample?, TrackRun.sampleFields, TrackRun.hasDurations, TrackRun.hasSizes,
          TrackRun.hasSampleFlags, List.append_assoc, optional?_whenFlag, Option.bind_eq_bind,
          Option.bind_some]
        exact ⟨_, rfl⟩
      obtain ⟨t, ht⟩ := hsample (samples.flatMap (TrackRun.sampleFields flags) ++ rest)
      refine ⟨t :: found, ?_⟩
      unfold readSamples?
      rw [List.flatMap_cons, List.append_assoc, ht]
      simp only [Option.bind_eq_bind, Option.bind_some, hfound]
      rfl

/-- A run is read back with its data offset, and with samples that do not depend on it. -/
theorem readSampleRun?_setOffset {r : TrackRun} (firstWins : Bool) (defaults : Sample)
    (hflag : hasFlag r.flags TrackRun.hasDataOffset = true)
    (hlength : r.box.raw.payload.length < 2 ^ 32) :
    ∃ found, ∀ offset, readSampleRun? firstWins defaults
      ({ r with dataOffset := offset } : TrackRun).box.raw.payload = some (offset, found) := by
  obtain ⟨found, hfound⟩ := exists_readSamples? firstWins r.masked.flags defaults []
    r.masked.first? (Nat.min_le_left r.samples.length TrackRun.maxCount)
  refine ⟨found, fun offset => ?_⟩
  have hmasked : hasFlag r.masked.flags 0x001 = true :=
    (hasFlag_masked (show 0x00FFFFFF &&& 0x001 = 0x001 by decide) r.flags).trans hflag
  have hdrop : (r.samples.drop (min r.samples.length TrackRun.maxCount)).flatMap
      (TrackRun.sampleFields r.masked.flags) = [] :=
    TrackRun.flatMap_drop_count (r := r.masked) (by rwa [TrackRun.box_masked])
  rw [← TrackRun.box_masked,
    readSampleRun?_eq (r := TrackRun.masked { r with dataOffset := offset }) firstWins defaults
      (and_masked r.flags) hmasked]
  change (readSamples? firstWins r.masked.flags defaults r.masked.first?
    (min r.samples.length TrackRun.maxCount)
    (r.samples.flatMap (TrackRun.sampleFields r.masked.flags) ++ [])).bind _ = _
  rw [hfound, hdrop]
  rfl

section Run
variable {f : TrackFragment} (firstWins : Bool)
  (hflag : hasFlag f.run.flags TrackRun.hasDataOffset = true)
  (hlength : f.box.raw.payload.length < 2 ^ 32)
include hflag hlength

/-- **A track fragment is read with the data offset of its run**, and all else that is read does not
depend on it. -/
theorem readRun?_withOffset : ∃ run? : Option ReadRun, ∀ offset,
    readRun? firstWins (f.withOffset offset).box.raw.payload =
      run?.map ({ · with dataOffset := offset }) := by
  have hsame (offset : Int32) : (f.withOffset offset).box.raw.payload.length < 2 ^ 32 := by
    have hsize := f.size_withOffset offset
    unfold RawBox.size at hsize
    omega
  have hrun := Nat.lt_of_le_of_lt f.length_run_le hlength
  cases hheader : readDefaults? f.header.box.raw.payload with
  | none =>
    refine ⟨none, fun offset => ?_⟩
    rw [readRun?_box firstWins (hsame offset)]
    change (readDefaults? f.header.box.raw.payload).bind _ = _
    rw [hheader]
    rfl
  | some header =>
    obtain ⟨found, hfound⟩ := readSampleRun?_setOffset firstWins header.2 hflag hrun
    refine ⟨some ⟨header.1, f.time, f.run.dataOffset, found⟩, fun offset => ?_⟩
    rw [readRun?_box firstWins (hsame offset)]
    change (readDefaults? f.header.box.raw.payload).bind _ = _
    rw [hheader]
    change (readSampleRun? firstWins header.2
      ({ f.run with dataOffset := offset } : TrackRun).box.raw.payload).map _ = _
    rw [hfound]
    rfl

/-- A track fragment is read, if its header promises no fields that are not written. -/
theorem exists_readRun? (hbase : hasFlag f.header.flags 0x01 = false)
    (hdescription : hasFlag f.header.flags 0x02 = false) :
    ∃ found, readRun? firstWins f.box.raw.payload =
      some ⟨f.header.track, f.time, f.run.dataOffset, found⟩ := by
  have hdefaults := readDefaults?_box (h := f.header.masked) (and_masked _)
    ((hasFlag_masked (show 0x00FFFFFF &&& 0x01 = 0x01 by decide) _).trans hbase)
    ((hasFlag_masked (show 0x00FFFFFF &&& 0x02 = 0x02 by decide) _).trans hdescription)
  rw [TrackFragmentHeader.box_masked] at hdefaults
  obtain ⟨found, hfound⟩ := readSampleRun?_setOffset firstWins f.header.masked.stated hflag
    (Nat.lt_of_le_of_lt f.length_run_le hlength)
  refine ⟨found, ?_⟩
  rw [readRun?_box firstWins hlength, hdefaults, Option.bind_some]
  change (readSampleRun? firstWins f.header.masked.stated f.run.box.raw.payload).map _ = _
  rw [show f.run.box.raw.payload = _ from rfl, hfound f.run.dataOffset]
  rfl

end Run

/-- A change of one element that shows in what is read of it shows there only. -/
theorem mapM_modify {α β : Type} {read : α → Option β} {f : α → α} {g : β → β} {l : List α}
    {i : Nat} (h : ∀ a, l[i]? = some a → read (f a) = (read a).map g) :
    (l.modify i f).mapM read = (l.mapM read).map (·.modify i g) := by
  induction l generalizing i with
  | nil => cases i <;> rfl
  | cons a l ih =>
    cases i with
    | zero =>
      rw [List.modify_zero_cons, List.mapM_cons, List.mapM_cons, h a rfl]
      cases read a with
      | none => rfl
      | some b =>
        cases l.mapM read <;> rfl
    | succ i =>
      rw [List.modify_succ_cons, List.mapM_cons, List.mapM_cons, ih fun b hb => h b hb]
      cases read a with
      | none => rfl
      | some b => cases l.mapM read <;> rfl

/-! ## Fragments -/

/-- The fragment that is written from `start` to the end of the bytes. -/
def readFragmentFrom? (firstWins : Bool) (start : Nat) (bytes : Bytes) :
    Option (UInt32 × List ReadRun) :=
  (child? (.ascii 'm' 'o' 'o' 'f') (bytes.drop start)).bind (readMovieFragment? firstWins)

namespace MovieFragment
variable {m : MovieFragment}

theorem readFragmentFrom?_box (firstWins : Bool) (h : m.box.encode.length < 2 ^ 32)
    (before : Bytes) :
    readFragmentFrom? firstWins before.length (before ++ m.box.encode) =
      (m.tracks.mapM (readRun? firstWins ·.box.raw.payload)).map (m.sequence, ·) := by
  have hbytes : m.box.encode = Box.encodeAll [m.box] := by
    rw [Box.encodeAll_cons, Box.encodeAll_nil, List.append_nil]
  have hpayload : m.box.raw.payload.length < 2 ^ 32 := by
    rw [Box.length_encode, RawBox.size] at h
    omega
  unfold readFragmentFrom?
  rw [List.drop_left, hbytes, child?_encodeAll (hbytes ▸ h)]
  change (readMovieFragment? firstWins m.box.raw.payload) = _
  rw [readMovieFragment?_box firstWins hpayload, List.mapM_map]
  rfl

theorem length_track_lt (h : m.box.encode.length < 2 ^ 32) {f : TrackFragment}
    (hf : f ∈ m.tracks) : f.box.raw.payload.length < 2 ^ 32 := by
  have hle : f.box.raw.size ≤ m.box.raw.payload.length :=
    Box.size_le_of_mem (List.mem_cons_of_mem _ (List.mem_map_of_mem hf))
  rw [Box.length_encode] at h
  unfold RawBox.size at h hle
  omega

/-- Another data offset of one run is read as that, and all else as before. -/
theorem readFragmentFrom?_setOffset (firstWins : Bool) (h : m.box.encode.length < 2 ^ 32)
    {i : Nat} {f : TrackFragment} (hi : m.tracks[i]? = some f)
    (hflag : hasFlag f.run.flags TrackRun.hasDataOffset = true) (before : Bytes) (offset : Int32) :
    readFragmentFrom? firstWins before.length (before ++ (m.setOffset i offset).box.encode) =
      (readFragmentFrom? firstWins before.length (before ++ m.box.encode)).map fun found =>
        (found.1, found.2.modify i ({ · with dataOffset := offset })) := by
  have hsize : (m.setOffset i offset).box.encode.length < 2 ^ 32 := by
    rw [Box.length_encode, size_setOffset, ← Box.length_encode]
    exact h
  rw [readFragmentFrom?_box firstWins hsize, readFragmentFrom?_box firstWins h, setOffset,
    mapM_modify (g := ({ · with dataOffset := offset }))]
  · rw [Option.map_map, Option.map_map]
    rfl
  · intro g hg
    obtain rfl := Option.some.inj (hi.symm.trans hg)
    obtain ⟨run?, hrun⟩ := readRun?_withOffset firstWins hflag
      (length_track_lt h (List.mem_of_getElem? hi))
    have hself : readRun? firstWins f.box.raw.payload = _ := hrun f.run.dataOffset
    rw [hrun offset, hself, Option.map_map]
    rfl

theorem exists_readFragmentFrom? (firstWins : Bool) (h : m.box.encode.length < 2 ^ 32)
    (hread : ∀ f ∈ m.tracks, ∃ found, readRun? firstWins f.box.raw.payload =
      some ⟨f.header.track, f.time, f.run.dataOffset, found⟩) (before : Bytes) :
    ∃ runs, readFragmentFrom? firstWins before.length (before ++ m.box.encode) =
        some (m.sequence, runs) ∧
      runs.map (fun r => (r.track, r.decodeTime, r.dataOffset)) =
        m.tracks.map (fun f => (f.header.track, f.time, f.run.dataOffset)) := by
  choose! found hfound using hread
  have hruns := mapM_map_eq_some
    (f := fun f : TrackFragment => readRun? firstWins f.box.raw.payload) (g := id) hfound
  rw [List.map_id] at hruns
  rw [readFragmentFrom?_box firstWins h]
  refine ⟨_, congrArg (Option.map _) hruns, ?_⟩
  rw [List.map_map]
  rfl

end MovieFragment

/-- The run states its data offset, and the header promises no fields that are not written. -/
structure TrackFragment.IsReadable (f : TrackFragment) : Prop where
  offset_stated : hasFlag f.run.flags TrackRun.hasDataOffset = true
  no_base : hasFlag f.header.flags 0x01 = false
  no_description : hasFlag f.header.flags 0x02 = false

/-- Every track fragment that is made of samples is. -/
theorem isReadable_ofSamples (track : UInt32) (time : UInt64) (samples : List Sample) :
    (TrackFragment.ofSamples track time samples).IsReadable where
  offset_stated := TrackFragment.hasFlag_ofSamples.2.1
  no_base := by
    rw [TrackFragment.headerFlags_ofSamples]
    decide
  no_description := by
    rw [TrackFragment.headerFlags_ofSamples]
    decide

/-- **Data offsets can be filled in behind `buffer`**, whatever else the runs state. -/
structure PatchesOffsets (buffer : Bytes) (m : MovieFragment) : Prop where
  /-- The streaming writer writes the box. -/
  written : m.write buffer = (buffer ++ m.box.encode, m.offsetPositions buffer.length)
  /-- It keeps a position for each run. -/
  positions_length : (m.write buffer).2.length = m.tracks.length
  /-- In the four bytes there stands the data offset of the run, if it states one; other bytes
  there are what is written of a fragment with another data offset of that run. -/
  placed : ∀ i f, m.tracks[i]? = some f → hasFlag f.run.flags TrackRun.hasDataOffset = true →
    ∃ p, (m.write buffer).2[i]? = some p ∧
      ((m.write buffer).1.drop p).take 4 = int32 f.run.dataOffset ∧
      ∀ offset, overwrite (m.write buffer).1 p (int32 offset) =
        ((m.setOffset i offset).write buffer).1
  /-- A reader finds that data offset for that run, and all else as it was. -/
  patched : ∀ firstWins i f p offset, m.tracks[i]? = some f →
    hasFlag f.run.flags TrackRun.hasDataOffset = true → (m.write buffer).2[i]? = some p →
      readFragmentFrom? firstWins buffer.length (overwrite (m.write buffer).1 p (int32 offset)) =
        (readFragmentFrom? firstWins buffer.length (m.write buffer).1).map fun found =>
          (found.1, found.2.modify i ({ · with dataOffset := offset }))
  /-- It does find the runs. -/
  read : (∀ f ∈ m.tracks, f.IsReadable) → ∀ firstWins,
    ∃ runs, readFragmentFrom? firstWins buffer.length (m.write buffer).1 =
        some (m.sequence, runs) ∧
      runs.map (fun r => (r.track, r.decodeTime, r.dataOffset)) =
        m.tracks.map (fun f => (f.header.track, f.time, f.run.dataOffset))

theorem patchesOffsets_of_length_lt {buffer : Bytes} {m : MovieFragment}
    (h : (m.write buffer).1.length < buffer.length + 2 ^ 32) : PatchesOffsets buffer m := by
  have hwrite := m.write_eq buffer
  have hlength : m.box.encode.length < 2 ^ 32 := by
    rw [hwrite, List.length_append] at h
    omega
  have hplaced (i : Nat) (f : TrackFragment) (hi : m.tracks[i]? = some f)
      (hflag : hasFlag f.run.flags TrackRun.hasDataOffset = true) :
      ∃ p, (m.write buffer).2[i]? = some p ∧
        ((m.write buffer).1.drop p).take 4 = int32 f.run.dataOffset ∧
        ∀ offset, overwrite (m.write buffer).1 p (int32 offset) =
          ((m.setOffset i offset).write buffer).1 := by
    obtain ⟨p, hp, hat⟩ := MovieFragment.offsetAt_offsetPositions buffer hi hflag
    have hself := MovieFragment.setOffset_self hi
    have htake := hat.take_drop f.run.dataOffset
    rw [hself] at htake
    refine ⟨p, by rw [hwrite]; exact hp, by rw [hwrite]; exact htake, fun offset => ?_⟩
    have hover := hat.overwrite f.run.dataOffset offset
    rw [hself] at hover
    rw [hwrite, MovieFragment.write_eq]
    exact hover
  refine ⟨hwrite, ?_, hplaced, fun firstWins i f p offset hi hflag hp => ?_,
    fun hread firstWins => ?_⟩
  · rw [hwrite]
    exact MovieFragment.length_positionsFrom _ _
  · obtain ⟨p', hp', -, hover⟩ := hplaced i f hi hflag
    obtain rfl := Option.some.inj (hp'.symm.trans hp)
    rw [hover, MovieFragment.write_eq, MovieFragment.write_eq]
    exact MovieFragment.readFragmentFrom?_setOffset firstWins hlength hi hflag buffer offset
  · rw [hwrite]
    refine MovieFragment.exists_readFragmentFrom? firstWins hlength (fun f hf => ?_) buffer
    have hreadable := hread f hf
    exact exists_readRun? firstWins hreadable.offset_stated
      (MovieFragment.length_track_lt hlength hf) hreadable.no_base hreadable.no_description

/-- **Boxes nest and data offsets are patched behind any bytes**, as long as what is written is less
than four gigabytes. -/
theorem boxes_nest_and_offsets_patch :
    (∀ (buffer : Bytes) (bs : List Box),
      (Box.writeAll buffer bs).length < buffer.length + 2 ^ 32 → Nests buffer bs) ∧
    (∀ (buffer : Bytes) (m : MovieFragment),
      (m.write buffer).1.length < buffer.length + 2 ^ 32 → PatchesOffsets buffer m) ∧
    ∀ track time samples, (TrackFragment.ofSamples track time samples).IsReadable :=
  ⟨fun _ _ h => nests_of_length_lt h, fun _ _ h => patchesOffsets_of_length_lt h,
    isReadable_ofSamples⟩

/-- Two boxes in a box, behind four bytes. -/
def nested : List Box :=
  [.container (.ascii 'c' 'o' 'n' 't')
    [.leaf (.ascii 'c' 'h' '_' '1') [0xAA], .leaf (.ascii 'c' 'h' '_' '2') [0xBB, 0xCC]]]

/-- A fragment of two tracks. -/
def twoTracks : MovieFragment where
  sequence := 1
  tracks :=
    [.ofSamples 1 0 [⟨3000, 100, 0x02000000⟩, ⟨3000, 20, 0x01010000⟩],
     .ofSamples 2 0 [⟨1024, 7, 0x02000000⟩]]

/-- Boxes behind four bytes, and a fragment behind them. -/
theorem nested_and_patched :
    Box.spansAll [1, 2, 3, 4] nested = [⟨4, 31⟩, ⟨12, 21⟩, ⟨21, 31⟩] ∧ Nests [1, 2, 3, 4] nested ∧
      PatchesOffsets [1, 2, 3, 4] twoTracks ∧
      ∃ runs, readFragmentFrom? true 4 (twoTracks.write [1, 2, 3, 4]).1 = some (1, runs) ∧
        runs.map (·.track) = [1, 2] := by
  have hboxes := boxes_nest_and_offsets_patch.1 [1, 2, 3, 4] nested (by decide)
  have hpatch := boxes_nest_and_offsets_patch.2.1 [1, 2, 3, 4] twoTracks (by decide +kernel)
  have hreadable : ∀ f ∈ twoTracks.tracks, f.IsReadable := by
    intro f hf
    rcases List.mem_cons.1 hf with rfl | hf
    · exact boxes_nest_and_offsets_patch.2.2 ..
    · rw [List.mem_singleton.1 hf]
      exact boxes_nest_and_offsets_patch.2.2 ..
  obtain ⟨runs, hread, htracks⟩ := hpatch.read hreadable true
  have hfirst := congrArg (List.map Prod.fst) htracks
  rw [List.map_map, List.map_map] at hfirst
  exact ⟨by decide, hboxes, hpatch, runs, hread, hfirst⟩

end LiveHls.Mp4
