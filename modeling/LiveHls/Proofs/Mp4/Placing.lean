import LiveHls.Mp4.Muxer
import LiveHls.Proofs.Mp4.Reading
import LiveHls.Proofs.Mp4.Runs

/-!
# Placing runs

The data offset of a run is not known before the boxes around it are written. A streaming writer
leaves four bytes for it and fills them in once the header of `mdat` is there.

* `OffsetAt position bytes` : the bytes depend on a data offset at one position only
  (`OffsetAt.append_left/append_right/frame`: whatever stands around them);
* `TrackRun.offsetAt`, `TrackFragment.offsetAt` : `offsetPosition` is that position, whatever other
  fields the run states;
* `MovieFragment.patch_offsetPositions` : all offsets of a `moof` filled in at their positions;
* `MovieFragment.sizes_placeRuns` : no size depends on an offset;
* `Muxer.fragment_eq_patch` : a muxer's fragment is written with all offsets 0 and patched.
-/

namespace LiveHls.Mp4

open Bytes (int32 word32)

/-! ## Sizes -/

theorem TrackRun.size_setOffset (r : TrackRun) (offset : Int32) :
    ({ r with dataOffset := offset } : TrackRun).box.raw.size = r.box.raw.size := by
  have hoffset : (whenFlag r.flags hasDataOffset (int32 offset)).length =
      (whenFlag r.flags hasDataOffset (int32 r.dataOffset)).length := by
    apply length_whenFlag
    rw [Bytes.length_int32, Bytes.length_int32]
  unfold RawBox.size box
  rw [Box.raw_leaf, Box.raw_leaf, Box.length_versioned, Box.length_versioned]
  simp only [List.length_append, hoffset]

/-- The box of a track fragment does not change its size with the data offset. -/
theorem TrackFragment.size_withOffset (f : TrackFragment) (offset : Int32) :
    (f.withOffset offset).box.raw.size = f.box.raw.size := by
  have hrun : (f.withOffset offset).run.box.raw.size = f.run.box.raw.size :=
    TrackRun.size_setOffset ..
  have hbefore : (f.withOffset offset).boxesBeforeRun = f.boxesBeforeRun := rfl
  unfold RawBox.size box
  rw [Box.raw_container, Box.raw_container, hbefore, Box.encodeAll_append, Box.encodeAll_append]
  simp only [List.length_append, Box.encodeAll_cons, Box.encodeAll_nil, Box.length_encode, hrun]

namespace MovieFragment

theorem size_box (f : MovieFragment) :
    f.box.raw.size =
      headerLength +
        ((fragmentHeader f.sequence).raw.size + (f.tracks.map (·.box.raw.size)).sum) := by
  unfold RawBox.size box
  rw [Box.raw_container, Box.length_encodeAll, List.map_cons, List.map_cons, List.sum_cons,
    List.map_map, List.map_map]
  rfl

theorem sizes_zipWith_withOffset {tracks : List TrackFragment} {offsets : List Int32}
    (hlength : offsets.length = tracks.length) :
    (List.zipWith TrackFragment.withOffset tracks offsets).map (·.box.raw.size) =
      tracks.map (·.box.raw.size) := by
  induction tracks generalizing offsets with
  | nil => rfl
  | cons f tracks ih =>
    cases offsets with
    | nil => simp at hlength
    | cons offset offsets =>
      rw [List.zipWith_cons_cons, List.map_cons, List.map_cons, ih (by simpa using hlength),
        TrackFragment.size_withOffset]

/-- The offsets of data of the given sizes that follow each other from `offset`. -/
def dataOffsets (offset : Nat) : List Nat → List Int32
  | [] => []
  | size :: sizes => Saturating.toInt32 offset :: dataOffsets (offset + size) sizes

theorem length_dataOffsets (offset : Nat) (sizes : List Nat) :
    (dataOffsets offset sizes).length = sizes.length := by
  induction sizes generalizing offset with
  | nil => rfl
  | cons size sizes ih => rw [dataOffsets, List.length_cons, List.length_cons, ih]

theorem placeRuns_eq_zipWith (offset : Nat) (runs : List (TrackFragment × Nat)) :
    placeRuns offset runs =
      List.zipWith TrackFragment.withOffset (runs.map (·.1))
        (dataOffsets offset (runs.map (·.2))) := by
  induction runs generalizing offset with
  | nil => rfl
  | cons run runs ih =>
    unfold placeRuns
    rw [ih, List.map_cons, List.map_cons, dataOffsets, List.zipWith_cons_cons]

theorem sizes_placeRuns (offset : Nat) (runs : List (TrackFragment × Nat)) :
    (placeRuns offset runs).map (·.box.raw.size) = runs.map (·.1.box.raw.size) := by
  rw [placeRuns_eq_zipWith, sizes_zipWith_withOffset, List.map_map]
  · rfl
  · rw [length_dataOffsets, List.length_map, List.length_map]

end MovieFragment

theorem length_mediaDataHeader {n : Nat} (h : n < 2 ^ 31) : (mediaDataHeader n).length = 8 := by
  unfold mediaDataHeader
  rw [if_neg (by omega), List.length_append, Bytes.length_bigEndian]
  rfl

/-- Header and data are a box. -/
theorem mediaDataHeader_append {data : Bytes} (h : data.length < 2 ^ 31) :
    mediaDataHeader data.length ++ data =
      (Box.leaf (.ascii 'm' 'd' 'a' 't') data).encode := by
  have hsize : (Saturating.toUInt32 (headerLength + data.length)).toNat = data.length + 8 := by
    rw [Saturating.toNat_toUInt32, headerLength]
    omega
  unfold mediaDataHeader
  rw [if_neg (by omega), Box.leaf, Box.encode_mk, Box.encodeAll_nil, List.append_nil, frame, word32,
    hsize, List.append_assoc]

/-! ## One offset -/

/-- The bytes depend on a data offset at `position` only. -/
def OffsetAt (position : Nat) (bytes : Int32 → Bytes) : Prop :=
  ∃ front back, front.length = position ∧ ∀ offset, bytes offset = front ++ (int32 offset ++ back)

namespace OffsetAt
variable {position : Nat} {bytes : Int32 → Bytes}

theorem append_left (h : OffsetAt position bytes) (before : Bytes) :
    OffsetAt (before.length + position) fun offset => before ++ bytes offset := by
  obtain ⟨front, back, hfront, hbytes⟩ := h
  refine ⟨before ++ front, back, ?_, ?_⟩
  · rw [List.length_append, hfront]
  · intro offset
    simp only [hbytes, List.append_assoc]

theorem append_right (h : OffsetAt position bytes) (after : Bytes) :
    OffsetAt position fun offset => bytes offset ++ after := by
  obtain ⟨front, back, hfront, hbytes⟩ := h
  refine ⟨front, back ++ after, hfront, ?_⟩
  intro offset
  simp only [hbytes, List.append_assoc]

/-- The size in front of the bytes does not depend on the offset. -/
theorem frame (h : OffsetAt position bytes) (type : FourCC) :
    OffsetAt (headerLength + position) fun offset => Mp4.frame type (bytes offset) := by
  obtain ⟨front, back, hfront, hbytes⟩ := h
  have hlength : ∀ offset, (bytes offset).length = front.length + (4 + back.length) := by
    intro offset
    rw [hbytes, List.length_append, List.length_append, Bytes.length_int32]
  refine ⟨word32 (Saturating.toUInt32 (headerLength + (front.length + (4 + back.length)))) ++
    (type.bytes ++ front), back, ?_, ?_⟩
  · simp [headerLength, hfront]
    omega
  · intro offset
    simp only [Mp4.frame, hlength]
    simp only [hbytes, List.append_assoc]

theorem congr {other : Int32 → Bytes} (h : OffsetAt position bytes)
    (heq : ∀ offset, other offset = bytes offset) : OffsetAt position other := by
  obtain ⟨front, back, hfront, hbytes⟩ := h
  refine ⟨front, back, hfront, ?_⟩
  intro offset
  rw [heq, hbytes]

/-- Filling in another offset changes the offset and nothing else. -/
theorem overwrite (h : OffsetAt position bytes) (old new : Int32) :
    Mp4.overwrite (bytes old) position (int32 new) = bytes new := by
  obtain ⟨front, back, rfl, hbytes⟩ := h
  rw [hbytes, hbytes]
  apply overwrite_middle
  rw [Bytes.length_int32, Bytes.length_int32]

end OffsetAt

/-- The offset follows the header, version and flags, and the sample count; the fields that the
run may state all stand behind it. -/
theorem TrackRun.offsetAt {r : TrackRun} (h : hasFlag r.flags hasDataOffset = true) :
    OffsetAt offsetDistance fun offset =>
      ({ r with dataOffset := offset } : TrackRun).box.encode := by
  have hfield : OffsetAt 0 fun offset => whenFlag r.flags hasDataOffset (int32 offset) := by
    refine ⟨[], [], rfl, ?_⟩
    intro offset
    simp only [whenFlag, if_pos h, List.append_nil, List.nil_append]
  have hcount := hfield.append_left (word32 (Saturating.toUInt32 r.samples.length))
  have hfields := (hcount.append_right
    (whenFlag r.flags hasFirstSampleFlags (word32 r.firstSampleFlags))).append_right
    (r.samples.flatMap (sampleFields r.flags))
  have hbox := (hfields.append_left
    (word32 (((0 : UInt8).toUInt32 <<< 24) ||| (r.flags &&& 0x00FFFFFF)))).frame
    (.ascii 't' 'r' 'u' 'n')
  rw [Bytes.length_word32, Bytes.length_word32] at hbox
  apply hbox.congr
  intro offset
  unfold box Box.leaf
  rw [Box.encode_mk, Box.encodeAll_nil, List.append_nil, Box.versioned]

theorem TrackFragment.offsetAt {f : TrackFragment}
    (h : hasFlag f.run.flags TrackRun.hasDataOffset = true) :
    OffsetAt (f.offsetPosition 0) fun offset => (f.withOffset offset).box.encode := by
  have hbox := ((TrackRun.offsetAt h).append_left (Box.encodeAll f.boxesBeforeRun)).frame
    (.ascii 't' 'r' 'a' 'f')
  have hposition : f.offsetPosition 0 =
      headerLength + ((Box.encodeAll f.boxesBeforeRun).length + TrackRun.offsetDistance) := by
    unfold offsetPosition
    omega
  rw [hposition]
  apply hbox.congr
  intro offset
  have hbefore : (f.withOffset offset).boxesBeforeRun = f.boxesBeforeRun := rfl
  unfold box Box.container
  rw [Box.encode_mk, Box.encodeAll_append, Box.encodeAll_cons, Box.encodeAll_nil, List.append_nil,
    List.nil_append, hbefore]
  rfl

/-! ## All offsets -/

def patch (buffer : Bytes) (offsets : List (Nat × Int32)) : Bytes :=
  offsets.foldl (fun bytes x => overwrite bytes x.1 (int32 x.2)) buffer

theorem patch_cons (buffer : Bytes) (position : Nat) (offset : Int32)
    (offsets : List (Nat × Int32)) :
    patch buffer ((position, offset) :: offsets) =
      patch (overwrite buffer position (int32 offset)) offsets := rfl

namespace MovieFragment

/-- The positions are those in the buffer, after the bytes that it already has, and only the
offsets change. -/
theorem patch_positionsFrom {tracks : List TrackFragment} {offsets : List Int32}
    (hlength : offsets.length = tracks.length)
    (hflags : ∀ f ∈ tracks, hasFlag f.run.flags TrackRun.hasDataOffset = true)
    (before after : Bytes) :
    patch (before ++ (Box.encodeAll (tracks.map (·.box)) ++ after))
      ((positionsFrom before.length tracks).zip offsets) =
      before ++ (Box.encodeAll ((List.zipWith TrackFragment.withOffset tracks offsets).map (·.box))
        ++ after) := by
  induction tracks generalizing offsets before with
  | nil => rfl
  | cons f tracks ih =>
    cases offsets with
    | nil => simp at hlength
    | cons offset offsets =>
      have hf : (f.withOffset f.run.dataOffset) = f := rfl
      have hplaced := (((TrackFragment.offsetAt (hflags f (by simp))).append_right
        (Box.encodeAll (tracks.map (·.box)) ++ after)).append_left before).overwrite
        f.run.dataOffset offset
      have hposition : before.length + f.offsetPosition 0 = f.offsetPosition before.length := by
        unfold TrackFragment.offsetPosition
        omega
      have hsize : before.length + f.box.encode.length =
          (before ++ (f.withOffset offset).box.encode).length := by
        rw [List.length_append, Box.length_encode, Box.length_encode, TrackFragment.size_withOffset]
      rw [hf, hposition] at hplaced
      unfold positionsFrom
      rw [List.zip_cons_cons, patch_cons, List.map_cons, Box.encodeAll_cons, List.append_assoc,
        hplaced, hsize, ← List.append_assoc,
        ih (by simpa using hlength) fun g hg => hflags g (List.mem_cons_of_mem _ hg),
        List.zipWith_cons_cons, List.map_cons, Box.encodeAll_cons]
      simp only [List.append_assoc]

def opening (m : MovieFragment) : Bytes :=
  word32 (Saturating.toUInt32 m.box.raw.size) ++
    ((FourCC.ascii 'm' 'o' 'o' 'f').bytes ++ (fragmentHeader m.sequence).encode)

theorem length_opening (m : MovieFragment) :
    m.opening.length = headerLength + (fragmentHeader m.sequence).encode.length := by
  simp [opening, headerLength]
  omega

theorem encode_box (m : MovieFragment) :
    m.box.encode = m.opening ++ Box.encodeAll (m.tracks.map (·.box)) := by
  unfold opening box Box.container
  rw [Box.encode_mk, Box.encodeAll_cons]
  simp only [List.nil_append, List.append_assoc]
  rfl

theorem patch_offsetPositions {m : MovieFragment} {offsets : List Int32}
    (hlength : offsets.length = m.tracks.length)
    (hflags : ∀ f ∈ m.tracks, hasFlag f.run.flags TrackRun.hasDataOffset = true)
    (before after : Bytes) :
    patch (before ++ (m.box.encode ++ after)) ((m.offsetPositions before.length).zip offsets) =
      before ++ (({ m with tracks := List.zipWith TrackFragment.withOffset m.tracks offsets } :
        MovieFragment).box.encode ++ after) := by
  have hopening : opening
      { m with tracks := List.zipWith TrackFragment.withOffset m.tracks offsets } =
        m.opening := by
    unfold opening
    rw [size_box, size_box, sizes_zipWith_withOffset hlength]
  have hstart : before.length + headerLength + (fragmentHeader m.sequence).encode.length =
      (before ++ m.opening).length := by
    rw [List.length_append, length_opening]
    omega
  have hpatch := patch_positionsFrom hlength hflags (before ++ m.opening) after
  unfold offsetPositions
  rw [hstart, encode_box, encode_box, hopening]
  simp only [List.append_assoc] at hpatch ⊢
  exact hpatch

end MovieFragment

/-! ## A muxer's fragment -/

namespace Muxer

/-- The fragment's description before its data is placed. -/
def unplaced (m : Muxer) (sequence : UInt32) : MovieFragment :=
  ⟨sequence, m.activeTracks.map (·.fragment)⟩

/-- **A fragment written front to back, with all data offsets 0, and patched at the positions that
its description gives, is the fragment.** The offsets count from the start of `moof`, the first
right behind the header of `mdat`. -/
theorem fragment_eq_patch (m : Muxer) (sequence : UInt32) :
    let before := segmentType.encode ++ Box.encodeAll (m.activeTracks.map (·.index.box))
    let written := (m.unplaced sequence).box.encode ++ mediaDataHeader m.dataSize
    m.fragment sequence =
      patch (before ++ written)
          (((m.unplaced sequence).offsetPositions before.length).zip
            (MovieFragment.dataOffsets written.length (m.activeTracks.map (·.dataSize)))) ++
        m.activeTracks.flatMap (·.data) := by
  intro before written
  have hplaced : m.movieFragment sequence =
      { m.unplaced sequence with
        tracks := List.zipWith TrackFragment.withOffset (m.unplaced sequence).tracks
          (MovieFragment.dataOffsets written.length (m.activeTracks.map (·.dataSize))) } := by
    simp only [movieFragment, MovieFragment.placeRuns_eq_zipWith, written, unplaced,
      List.length_append, List.map_map, Function.comp_def]
  rw [MovieFragment.patch_offsetPositions, ← hplaced, fragment]
  · simp only [before, List.append_assoc]
  · simp only [MovieFragment.length_dataOffsets, unplaced, List.length_map]
  · intro f hf
    obtain ⟨t, -, rfl⟩ := List.mem_map.1 hf
    exact TrackFragment.hasFlag_ofSamples.2.1

end Muxer

end LiveHls.Mp4
