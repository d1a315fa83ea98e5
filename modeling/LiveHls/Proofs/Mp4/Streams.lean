import LiveHls.Mp4.Muxer
import LiveHls.Proofs.Mp4.Fragments
import LiveHls.Proofs.Mp4.Placing

/-!
# The packets in a fragment

* `Stream`, `Stream.IsRead`, `ReadFragment.IsOf` : a reader finds the packets of the tracks;
* `Track.Coherent.isRead` : it does where the file has a track's data at the offset of its run;
* `Track.getElem?_runsAt`, `Track.tiles_runsAt` : the data of each track follow those of the track
  before it;
* `Muxer.exists_readFragment?` : a reader finds the packets of all tracks in each fragment that a
  muxer writes, below two gigabytes.
-/

namespace LiveHls.Mp4

/-! ## What is to be read -/

/-- The packets that a fragment has of one track. -/
structure Stream where
  track : UInt32
  timescale : UInt32
  packets : List Packet

/-- An index and a run of a file are those of a stream. There is one sample a packet, for as many
packets as the run can count. -/
structure Stream.IsRead (s : Stream) (file : Bytes) (moofStart : Nat) (x : SegmentIndex)
    (r : ReadRun) : Prop where
  track_eq : r.track = s.track
  index_track_eq : x.track = s.track
  timescale_eq : x.timescale = s.timescale
  decodeTime_eq : s.packets.head?.map (·.timestamp.ticks s.timescale) = some r.decodeTime
  earliestTime_eq : x.earliestTime = r.decodeTime
  samples_eq : r.samples.map (fun a => (a.duration.toNat, a.size.toNat, a.isSync)) =
    (s.packets.take TrackRun.maxCount).map fun p =>
      (min (p.duration.ticks s.timescale).toNat 0xFFFFFFFF, p.payload.length, p.isKeyframe)
  payloads_eq : cut file (r.start moofStart) r.sizes =
    (s.packets.take TrackRun.maxCount).map (·.payload)
  size_eq : x.size.toNat = (s.packets.map (·.payload.length)).sum
  duration_eq : ∃ total : Duration, total.nanos = (s.packets.map (·.duration.nanos)).sum ∧
    x.duration.toNat = min (total.ticks s.timescale).toNat 0xFFFFFFFF

/-- What a reader has made of a file is the fragment of these streams. -/
structure ReadFragment.IsOf (f : ReadFragment) (file : Bytes) (sequence : UInt32)
    (streams : List Stream) : Prop where
  kinds_eq : f.kinds = .ascii 's' 't' 'y' 'p' :: (streams.map fun _ => .ascii 's' 'i' 'd' 'x') ++
    [.ascii 'm' 'o' 'o' 'f', .ascii 'm' 'd' 'a' 't']
  sequence_eq : f.sequence = sequence
  indexes_length : f.indexes.length = streams.length
  runs_length : f.runs.length = streams.length
  stream_read : ∀ (i : Nat) (s : Stream), streams[i]? = some s →
    ∃ x r, f.indexes[i]? = some x ∧ f.runs[i]? = some r ∧ s.IsRead file f.moofStart x r
  /-- The runs fill the payload of `mdat` one after the other. -/
  tiles : Tiles f.dataStart (f.dataStart + f.dataLength)
    (f.runs.map fun r => (r.start f.moofStart, r.sizes.sum))

/-! ## Tracks -/

namespace Track

/-- The sums that a track keeps are those of its packets. -/
structure Coherent (t : Track) : Prop where
  duration_eq : t.duration.nanos = (t.packets.map (·.duration.nanos)).sum
  dataSize_eq : t.dataSize = (t.packets.map (·.payload.length)).sum

def stream (t : Track) : Stream := ⟨t.layout.id, t.layout.timescale, t.packets⟩

def samples (t : Track) : List Sample := t.packets.map (sample t.layout.timescale)

/-- The run of a track whose data start `offset` bytes behind the start of `moof`. -/
def runAt (t : Track) (offset : Nat) : ReadRun :=
  ⟨t.layout.id, t.decodeTime, Saturating.toInt32 offset, t.samples.take TrackRun.maxCount⟩

/-- The runs of tracks whose data follow each other. -/
def runsAt (offset : Nat) : List Track → List ReadRun
  | [] => []
  | t :: ts => t.runAt offset :: runsAt (offset + t.dataSize) ts

section Sizes
variable {t : Track}

theorem Coherent.length_data (ht : t.Coherent) : t.data.length = t.dataSize := by
  unfold data
  rw [List.length_flatMap, ht.dataSize_eq]

theorem Coherent.length_payload_le (ht : t.Coherent) {p : Packet} (hp : p ∈ t.packets) :
    p.payload.length ≤ t.dataSize := by
  rw [ht.dataSize_eq]
  exact List.single_le_sum (fun _ _ => Nat.zero_le _) _ (List.mem_map_of_mem hp)

theorem toNat_size_sample (timescale : UInt32) {p : Packet} (hp : p.payload.length < 2 ^ 31) :
    (sample timescale p).size.toNat = p.payload.length := by
  show (Saturating.toUInt32 p.payload.length).toNat = _
  rw [Saturating.toNat_toUInt32]
  omega

theorem Coherent.sizes_eq (ht : t.Coherent) (hsmall : t.dataSize < 2 ^ 31) :
    t.samples.map (·.size.toNat) = t.packets.map (·.payload.length) := by
  unfold samples
  rw [List.map_map]
  apply List.map_congr_left
  intro p hp
  apply toNat_size_sample
  have hle := ht.length_payload_le hp
  omega

theorem sample_flags_eq (t : Track) : ∀ s ∈ t.samples,
    s.flags = Sample.independentFlags ∨ s.flags = Sample.dependentFlags := by
  intro s hs
  obtain ⟨p, -, rfl⟩ := List.mem_map.1 hs
  show (if p.isKeyframe then _ else _) = _ ∨ (if p.isKeyframe then _ else _) = _
  cases p.isKeyframe with
  | true => exact Or.inl rfl
  | false => exact Or.inr rfl

theorem isSync_sample (timescale : UInt32) (p : Packet) :
    (sample timescale p).isSync = p.isKeyframe := by
  show ((if p.isKeyframe then Sample.independentFlags else Sample.dependentFlags) &&& _ == _) = _
  cases p.isKeyframe with
  | true => decide
  | false => decide

end Sizes

theorem toInt_toInt32 {n : Nat} (h : n < 2 ^ 31) : (Saturating.toInt32 n).toInt = n := by
  rw [Saturating.toInt32, Nat.min_eq_left (by unfold Saturating.max31; omega)]
  exact Int32.toInt_ofNat_of_lt h

theorem start_runAt (t : Track) {moofStart offset : Nat} (h : offset < 2 ^ 31) :
    (t.runAt offset).start moofStart = moofStart + offset := by
  unfold ReadRun.start runAt
  rw [toInt_toInt32 h, ← Int.natCast_add, Int.toNat_natCast]

theorem readIndex?_index (t : Track) : readIndex? t.index.box.raw.payload = some t.index := by
  rw [readIndex?_box, index, toUInt31_and]

/-- A reader finds the packets of a track in a file that has their data where it says. -/
theorem Coherent.isRead {t : Track} (ht : t.Coherent) (hne : t.packets ≠ [])
    {file front back : Bytes} {moofStart offset : Nat} (hfile : file = front ++ (t.data ++ back))
    (hfront : front.length = moofStart + offset) (hsmall : file.length < 2 ^ 31) :
    t.stream.IsRead file moofStart t.index (t.runAt offset) := by
  have hlength : front.length + t.dataSize + back.length < 2 ^ 31 := by
    rw [hfile, List.length_append, List.length_append, ht.length_data] at hsmall
    omega
  have hpayload : ∀ p ∈ t.packets, p.payload.length < 2 ^ 31 := by
    intro p hp
    have := ht.length_payload_le hp
    omega
  have hsizes : (t.runAt offset).sizes =
      ((t.packets.take TrackRun.maxCount).map (·.payload)).map List.length := by
    show (t.samples.take _).map _ = _
    rw [List.map_take, ht.sizes_eq (by omega), ← List.map_take, List.map_map]
    rfl
  refine ⟨rfl, rfl, rfl, ?_, rfl, ?_, ?_, ?_, t.duration, ht.duration_eq, ?_⟩
  · show t.packets.head?.map _ = some ((t.packets.head?.map _).getD 0)
    cases hp : t.packets with
    | nil => exact absurd hp hne
    | cons p rest => rfl
  · show (t.samples.take _).map _ = _
    unfold samples
    rw [← List.map_take, List.map_map]
    apply List.map_congr_left
    intro p hp
    have hp' := hpayload p (List.mem_of_mem_take hp)
    refine Prod.ext ?_ (Prod.ext (toNat_size_sample t.layout.timescale hp')
      (isSync_sample t.layout.timescale p))
    exact Saturating.toNat_toUInt32 _
  · rw [hsizes, start_runAt t (by omega), ← hfront, hfile]
    have hdata : t.data = ((t.packets.take TrackRun.maxCount).map (·.payload)).flatten ++
        (t.packets.drop TrackRun.maxCount).flatMap (·.payload) := by
      unfold data
      rw [← List.flatMap_def, ← List.flatMap_append, List.take_append_drop]
    rw [hdata, List.append_assoc]
    exact cut_flatten ..
  · show (Saturating.toUInt31 t.dataSize).toNat = _
    rw [Saturating.toNat_toUInt31, Nat.min_eq_left (by unfold Saturating.max31; omega)]
    exact ht.dataSize_eq
  · exact Saturating.toNat_toUInt32 _

end Track

/-! ## Runs in their places -/

section Places
variable {ts : List Track} {offset : Nat}

theorem Track.length_runsAt : (Track.runsAt offset ts).length = ts.length := by
  induction ts generalizing offset with
  | nil => rfl
  | cons t ts ih => exact congrArg (· + 1) ih

/-- The data of a track start behind those of the tracks before it. -/
theorem Track.getElem?_runsAt {i : Nat} {t : Track} (h : ts[i]? = some t) :
    (Track.runsAt offset ts)[i]? =
      some (t.runAt (offset + ((ts.take i).map (·.dataSize)).sum)) := by
  induction ts generalizing offset i with
  | nil => cases h
  | cons s ts ih =>
    cases i with
    | zero =>
      cases h
      rfl
    | succ i =>
      unfold Track.runsAt
      rw [List.getElem?_cons_succ, ih h, List.take_succ_cons, List.map_cons, List.sum_cons,
        Nat.add_assoc]

/-- The runs of tracks whose samples have all their bytes tile their data. -/
theorem Track.tiles_runsAt {moofStart : Nat}
    (hsizes : ∀ t ∈ ts, ∀ o, (t.runAt o).sizes.sum = t.dataSize)
    (hsmall : offset + (ts.map (·.dataSize)).sum < 2 ^ 31) :
    Tiles (moofStart + offset) (moofStart + offset + (ts.map (·.dataSize)).sum)
      ((Track.runsAt offset ts).map fun r => (r.start moofStart, r.sizes.sum)) := by
  induction ts generalizing offset with
  | nil => exact (Nat.add_zero _).symm
  | cons t ts ih =>
    rw [List.map_cons, List.sum_cons] at hsmall ⊢
    have hrest := @ih (offset + t.dataSize) (fun s hs => hsizes s (List.mem_cons_of_mem _ hs))
      (by omega)
    unfold Track.runsAt
    rw [List.map_cons, hsizes t List.mem_cons_self]
    refine ⟨start_runAt t (by omega), ?_⟩
    rw [← Nat.add_assoc, Nat.add_assoc moofStart]
    exact hrest

/-- The runs that are placed read back, if each of their boxes is small. -/
theorem Track.readRuns?_placeRuns (firstWins : Bool)
    (hsmall : ∀ f ∈ MovieFragment.placeRuns offset (ts.map fun t => (t.fragment, t.dataSize)),
      f.box.raw.payload.length < 2 ^ 31) :
    ((MovieFragment.placeRuns offset (ts.map fun t => (t.fragment, t.dataSize))).map
        (·.box.raw)).mapM (readRun? firstWins ·.payload) = some (Track.runsAt offset ts) := by
  induction ts generalizing offset with
  | nil => rfl
  | cons t ts ih =>
    rw [List.map_cons, MovieFragment.placeRuns] at hsmall ⊢
    have hrun :
        readRun? firstWins (t.fragment.withOffset (Saturating.toInt32 offset)).box.raw.payload =
          some (t.runAt offset) :=
      readRun?_ofSamples firstWins t.sample_flags_eq (hsmall _ List.mem_cons_self)
    rw [List.map_cons, List.mapM_cons, hrun, ih fun f hf => hsmall f (List.mem_cons_of_mem _ hf)]
    rfl

end Places

theorem TrackFragment.length_samples_le (f : TrackFragment) :
    (f.run.samples.flatMap (TrackRun.sampleFields f.run.flags)).length ≤ f.box.raw.size := by
  simp only [RawBox.size, box, boxesBeforeRun, Box.raw_container, Box.encodeAll_append,
    Box.encodeAll_cons, Box.encodeAll_nil, List.length_append, Box.length_encode, TrackRun.box,
    Box.raw_leaf, Box.length_versioned]
  omega

/-- Beside the fields of its samples a track fragment has no more than 88 bytes. -/
theorem TrackFragment.size_le (f : TrackFragment) :
    f.box.raw.size ≤ 88 + (f.run.samples.flatMap (TrackRun.sampleFields f.run.flags)).length := by
  have hfield : ∀ flags flag n, (whenFlag flags flag (Bytes.word32 n)).length ≤ 4 := by
    intro flags flag n
    unfold whenFlag
    split
    · exact Nat.le_of_eq (Bytes.length_word32 n)
    · exact Nat.zero_le _
  have hduration := hfield f.header.flags TrackFragmentHeader.defaultDuration f.header.duration
  have hsize := hfield f.header.flags TrackFragmentHeader.defaultSize f.header.size
  have hflags := hfield f.header.flags TrackFragmentHeader.defaultFlags f.header.sampleFlags
  have hoffset := hfield f.run.flags TrackRun.hasDataOffset f.run.dataOffset.toUInt32
  have hfirst := hfield f.run.flags TrackRun.hasFirstSampleFlags f.run.firstSampleFlags
  simp only [RawBox.size, box, boxesBeforeRun, Box.raw_container, Box.encodeAll_append,
    Box.encodeAll_cons, Box.encodeAll_nil, List.length_append, Box.length_encode, TrackRun.box,
    TrackFragmentHeader.box, decodeTime, Box.raw_leaf, Box.length_versioned, Bytes.length_word32,
    Bytes.length_word64, Bytes.int32, headerLength, List.length_nil]
  omega

/-- In a small file the sizes of the samples of a track are all its data. -/
theorem Track.Coherent.sum_sizes {t : Track} (ht : t.Coherent) (hdata : t.dataSize < 2 ^ 31)
    (hbox : t.fragment.box.raw.size < 2 ^ 31) (offset : Nat) :
    (t.runAt offset).sizes.sum = t.dataSize := by
  have hlength := Nat.lt_of_le_of_lt t.fragment.length_samples_le hbox
  have hsizes := ht.sizes_eq hdata
  show ((t.samples.take _).map _).sum = _
  rw [ht.dataSize_eq, ← hsizes] at hdata ⊢
  exact TrackFragment.sum_sizes_take hlength hdata

/-! ## The file -/

namespace Muxer
variable {m : Muxer} {sequence : UInt32}

def boxesBefore (m : Muxer) : List Box := segmentType :: m.activeTracks.map (·.index.box)

/-- `mdat`. -/
def dataBox (m : Muxer) : Box := .leaf (.ascii 'm' 'd' 'a' 't') (m.activeTracks.flatMap (·.data))

theorem dataSize_eq (m : Muxer) : m.dataSize = (m.activeTracks.map (·.dataSize)).sum := by
  unfold dataSize
  rw [List.sum_eq_foldl, List.foldl_map]

theorem length_flatMap_data {ts : List Track} (hts : ∀ t ∈ ts, t.Coherent) :
    (ts.flatMap (·.data)).length = (ts.map (·.dataSize)).sum := by
  rw [List.length_flatMap]
  exact congrArg List.sum (List.map_congr_left fun t ht => (hts t ht).length_data)

theorem length_data (hm : ∀ t ∈ m.activeTracks, t.Coherent) :
    (m.activeTracks.flatMap (·.data)).length = m.dataSize := by
  rw [dataSize_eq, length_flatMap_data hm]

theorem fragment_eq_encodeAll (hm : ∀ t ∈ m.activeTracks, t.Coherent)
    (hdata : m.dataSize < 2 ^ 31) :
    m.fragment sequence =
      Box.encodeAll (m.boxesBefore ++ [(m.movieFragment sequence).box, m.dataBox]) := by
  have hlength := length_data hm
  have hbox := mediaDataHeader_append (hlength ▸ hdata)
  rw [hlength] at hbox
  unfold fragment
  rw [List.append_assoc, hbox, boxesBefore, dataBox]
  simp only [List.cons_append, Box.encodeAll_cons, Box.encodeAll_append, Box.encodeAll_nil,
    List.append_nil, List.append_assoc]

theorem tracks_movieFragment (hdata : m.dataSize < 2 ^ 31) :
    (m.movieFragment sequence).tracks =
      MovieFragment.placeRuns ((m.movieFragment sequence).box.raw.size + headerLength)
        (m.activeTracks.map fun t => (t.fragment, t.dataSize)) := by
  have hsize : (m.movieFragment sequence).box.raw.size =
      (MovieFragment.mk sequence (m.activeTracks.map (·.fragment))).box.raw.size := by
    rw [MovieFragment.size_box, MovieFragment.size_box, movieFragment]
    simp only [MovieFragment.sizes_placeRuns, List.map_map, Function.comp_def]
  rw [hsize, ← Box.length_encode, headerLength, ← length_mediaDataHeader hdata, movieFragment]
  simp only [List.map_map, Function.comp_def]

theorem dataSize_lt (hm : ∀ t ∈ m.activeTracks, t.Coherent)
    (hsmall : (m.fragment sequence).length < 2 ^ 31) : m.dataSize < 2 ^ 31 := by
  rw [fragment, List.length_append, length_data hm] at hsmall
  omega

theorem size_fragment_lt (hm : ∀ t ∈ m.activeTracks, t.Coherent)
    (hsmall : (m.fragment sequence).length < 2 ^ 31) :
    (m.movieFragment sequence).box.raw.size < 2 ^ 31 := by
  have hdata := dataSize_lt hm hsmall
  rw [fragment_eq_encodeAll hm hdata] at hsmall
  exact Nat.lt_of_le_of_lt (Box.size_le_of_mem (by simp)) hsmall

theorem size_track_lt (hm : ∀ t ∈ m.activeTracks, t.Coherent)
    (hsmall : (m.fragment sequence).length < 2 ^ 31) {t : Track} (ht : t ∈ m.activeTracks) :
    t.fragment.box.raw.size < 2 ^ 31 := by
  have hsize := size_fragment_lt hm hsmall
  rw [MovieFragment.size_box, tracks_movieFragment (dataSize_lt hm hsmall),
    MovieFragment.sizes_placeRuns, List.map_map] at hsize
  have hle := List.single_le_sum (fun _ _ => Nat.zero_le _) _
    (List.mem_map_of_mem (f := (·.1.box.raw.size) ∘ fun t : Track => (t.fragment, t.dataSize)) ht)
  simp only [Function.comp_apply] at hle
  omega

theorem readMovieFragment?_movieFragment (hm : ∀ t ∈ m.activeTracks, t.Coherent) (firstWins : Bool)
    (hsmall : (m.fragment sequence).length < 2 ^ 31) :
    readMovieFragment? firstWins (m.movieFragment sequence).box.raw.payload =
      some (sequence, Track.runsAt ((m.movieFragment sequence).box.raw.size + headerLength)
        m.activeTracks) := by
  have hsize := size_fragment_lt hm hsmall
  have htracks := @tracks_movieFragment m sequence (dataSize_lt hm hsmall)
  have hpayload : (m.movieFragment sequence).box.raw.payload.length < 2 ^ 31 := by
    unfold RawBox.size at hsize
    omega
  rw [readMovieFragment?_box firstWins (Nat.lt_trans hpayload (by decide)), htracks,
    Track.readRuns?_placeRuns]
  · rfl
  intro f hf
  rw [← htracks] at hf
  have hle : f.box.raw.size ≤ (m.movieFragment sequence).box.raw.payload.length :=
    Box.size_le_of_mem (List.mem_cons_of_mem _ (List.mem_map_of_mem hf))
  rw [RawBox.size] at hle
  omega

def front (m : Muxer) (sequence : UInt32) : Bytes :=
  Box.encodeAll m.boxesBefore ++
    ((m.movieFragment sequence).box.encode ++ mediaDataHeader m.dataSize)

theorem fragment_eq_front_append :
    m.fragment sequence = m.front sequence ++ m.activeTracks.flatMap (·.data) := by
  unfold fragment front boxesBefore
  rw [Box.encodeAll_cons]
  simp only [List.append_assoc]

theorem length_front (hdata : m.dataSize < 2 ^ 31) : (m.front sequence).length =
    (Box.encodeAll m.boxesBefore).length +
      ((m.movieFragment sequence).box.raw.size + headerLength) := by
  unfold front
  rw [List.length_append, List.length_append, Box.length_encode, length_mediaDataHeader hdata]
  rfl

/-- A reader finds the packets of each track behind those of the tracks before it. -/
theorem isRead_of_getElem? (hm : ∀ t ∈ m.activeTracks, t.Coherent)
    (hsmall : (m.fragment sequence).length < 2 ^ 31) {i : Nat} {t : Track}
    (ht : m.activeTracks[i]? = some t) :
    t.stream.IsRead (m.fragment sequence) (Box.encodeAll m.boxesBefore).length t.index
      (t.runAt ((m.movieFragment sequence).box.raw.size + headerLength +
        ((m.activeTracks.take i).map (·.dataSize)).sum)) := by
  obtain ⟨hi, hget⟩ := List.getElem?_eq_some_iff.1 ht
  have hmem := List.mem_of_getElem? ht
  have hne : t.packets ≠ [] := by
    intro hnil
    have := (List.mem_filter.1 hmem).2
    rw [Track.isEmpty, hnil] at this
    cases this
  have hbefore := length_flatMap_data fun s hs => hm s (List.mem_of_mem_take (i := i) hs)
  have hsplit : m.activeTracks.flatMap (·.data) = (m.activeTracks.take i).flatMap (·.data) ++
      (t.data ++ (m.activeTracks.drop (i + 1)).flatMap (·.data)) := by
    rw [← List.flatMap_cons, ← hget, ← List.drop_eq_getElem_cons hi, ← List.flatMap_append,
      List.take_append_drop]
  have hfile : m.fragment sequence =
      (m.front sequence ++ (m.activeTracks.take i).flatMap (·.data)) ++
        (t.data ++ (m.activeTracks.drop (i + 1)).flatMap (·.data)) := by
    rw [fragment_eq_front_append, hsplit, List.append_assoc]
  refine (hm t hmem).isRead hne hfile ?_ hsmall
  rw [List.length_append, length_front (dataSize_lt hm hsmall), hbefore, Nat.add_assoc]

/-- **A reader finds the packets of the tracks** in each fragment below two gigabytes. -/
theorem exists_readFragment? (hm : ∀ t ∈ m.activeTracks, t.Coherent) (firstWins : Bool)
    (hsmall : (m.fragment sequence).length < 2 ^ 31) :
    ∃ f, readFragment? firstWins (m.fragment sequence) = some f ∧
      f.IsOf (m.fragment sequence) sequence (m.activeTracks.map Track.stream) := by
  have hdata := dataSize_lt hm hsmall
  have hread := readMovieFragment?_movieFragment hm firstWins hsmall
  have hsize := size_fragment_lt hm hsmall
  have hfile := @fragment_eq_encodeAll m sequence hm hdata
  have hindexes := mapM_map_eq_some (f := fun b : RawBox => readIndex? b.payload)
    (g := fun t : Track => t.index.box.raw) (l := m.activeTracks) fun t _ => t.readIndex?_index
  have hbefore : m.boxesBefore.map Box.raw =
      segmentType.raw :: m.activeTracks.map (·.index.box.raw) := by
    unfold boxesBefore
    rw [List.map_cons, List.map_map]
    rfl
  have hboxes : boxes? (m.fragment sequence) = some (segmentType.raw ::
      m.activeTracks.map (·.index.box.raw) ++
        [(m.movieFragment sequence).box.raw, m.dataBox.raw]) := by
    rw [hfile] at hsmall ⊢
    rw [boxes?_encodeAll (Nat.lt_trans hsmall (by decide : 2 ^ 31 < 2 ^ 32)), List.map_append,
      hbefore]
    rfl
  have hsidx : ∀ b ∈ m.activeTracks.map (·.index.box.raw), b.type = .ascii 's' 'i' 'd' 'x' := by
    intro b hb
    obtain ⟨t, -, rfl⟩ := List.mem_map.1 hb
    rfl
  have hstart : ((segmentType.raw :: m.activeTracks.map (·.index.box.raw)).map RawBox.size).sum =
      (Box.encodeAll m.boxesBefore).length := by
    rw [Box.length_encodeAll, hbefore]
  have hlength : m.dataBox.raw.payload.length = m.dataSize := by
    unfold dataBox
    rw [Box.raw_leaf]
    exact length_data hm
  have hfits : (m.movieFragment sequence).box.raw.size + headerLength + m.dataSize < 2 ^ 31 := by
    rw [fragment_eq_front_append, List.length_append, length_front hdata, length_data hm] at hsmall
    omega
  refine ⟨_, readFragment?_of_boxes hboxes rfl hsidx rfl rfl hindexes hread, ?_⟩
  rw [hstart, hlength]
  refine ⟨?_, rfl, ?_, ?_, ?_, ?_⟩
  · rw [List.map_map, List.map_map]
    rfl
  · rw [List.length_map, List.length_map]
  · rw [Track.length_runsAt, List.length_map]
  · intro i s hs
    rw [List.getElem?_map] at hs
    obtain ⟨t, ht, rfl⟩ := Option.map_eq_some_iff.1 hs
    refine ⟨t.index, _, ?_, Track.getElem?_runsAt ht, isRead_of_getElem? hm hsmall ht⟩
    rw [List.getElem?_map, ht, Option.map_some]
  · rw [dataSize_eq] at hdata hfits ⊢
    apply Track.tiles_runsAt _ hfits
    intro t ht offset
    apply (hm t ht).sum_sizes
    · exact Nat.lt_of_le_of_lt (List.single_le_sum (fun _ _ => Nat.zero_le _) _
        (List.mem_map_of_mem ht)) hdata
    · exact size_track_lt hm hsmall ht

end Muxer

end LiveHls.Mp4
