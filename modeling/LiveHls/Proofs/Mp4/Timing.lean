import LiveHls.Proofs.Duration.Ticks
import LiveHls.Proofs.Mp4.Media

/-!
# The times in a fragment

* `Timing`, `Muxer.timing?` : what the boxes of a fragment say about the times of one track;
* `Muxer.Collected.timing?_eq` : they are those of the packets that the track has collected;
* `readTiming?`, `Muxer.Collected.readTiming?_fragment` : a reader finds them in the file;
* `Track.durations_eq`, `Track.Coherent.exists_index_eq` : no sample is saturated while
  all of them together are below `2 ^ 32` ticks, and the index then has at most one tick more for
  each sample but the first.
-/

namespace LiveHls.Mp4

/-- What a fragment says about the times of one track, in ticks. -/
structure Timing where
  /-- The decode time of the first sample, as in `tfdt`. -/
  decodeTime : Nat
  /-- The durations of the samples, as in `trun`. -/
  durations : List Nat
  /-- The duration of all samples, as in `sidx`. -/
  indexDuration : Nat
deriving DecidableEq

/-- The times that the next fragment has of a track, looked up by its number in the boxes of that
fragment. -/
def Muxer.timing? (m : Muxer) (sequence track : UInt32) : Option Timing :=
  match (m.activeTracks.map (·.index)).find? (·.track == track),
    (m.movieFragment sequence).tracks.find? (·.header.track == track) with
  | some index, some f =>
    some ⟨f.time.toNat, f.run.samples.map (·.duration.toNat), index.duration.toNat⟩
  | _, _ => none

namespace Track

def timing (t : Track) : Timing where
  decodeTime := t.decodeTime.toNat
  durations := t.samples.map (·.duration.toNat)
  indexDuration := t.index.duration.toNat

section Ticks
variable {t : Track}

theorem toNat_duration_sample {timescale : UInt32} {x : Packet}
    (h : (x.duration.ticks timescale).toNat < UInt32.size) :
    (sample timescale x).duration.toNat = ticksIn x.duration.nanos timescale.toNat := by
  rw [← Duration.toNat_ticks_of_lt (Nat.lt_trans h (by decide))]
  show (Saturating.toUInt32 _).toNat = _
  rw [Saturating.toNat_toUInt32]
  exact Nat.min_eq_left (Nat.le_sub_one_of_lt h)

/-- The durations of samples are not saturated if they are below `2 ^ 32` ticks together. -/
theorem durations_eq
    (h : (t.packets.map fun x => (x.duration.ticks t.layout.timescale).toNat).sum < UInt32.size) :
    t.timing.durations =
      (t.packets.map (·.duration.nanos)).map (ticksIn · t.layout.timescale.toNat) := by
  unfold timing samples
  rw [List.map_map, List.map_map]
  refine List.map_congr_left fun x hx => toNat_duration_sample (Nat.lt_of_le_of_lt ?_ h)
  exact List.single_le_sum (fun _ _ => Nat.zero_le _) _
    (List.mem_map_of_mem (f := fun x : Packet => (x.duration.ticks t.layout.timescale).toNat) hx)

/-- The index has at most one tick more for each sample but the first. -/
theorem Coherent.exists_index_eq (ht : t.Coherent) (hne : t.packets ≠ [])
    (h : (t.packets.map fun x => (x.duration.ticks t.layout.timescale).toNat).sum < UInt32.size) :
    ∃ e ≤ t.packets.length - 1, t.timing.indexDuration = t.timing.durations.sum + e := by
  have hsum : t.timing.durations.sum < UInt32.size := by
    refine Nat.lt_of_le_of_lt ?_ h
    unfold timing samples
    rw [List.map_map]
    refine List.sum_le_sum fun x _ => ?_
    show (Saturating.toUInt32 _).toNat ≤ _
    rw [Saturating.toNat_toUInt32]
    exact Nat.min_le_left ..
  have hne' : t.packets.map (·.duration.nanos) ≠ [] := fun h => hne (List.map_eq_nil_iff.1 h)
  obtain ⟨e, he, heq⟩ := ticksIn_sum t.layout.timescale.toNat hne'
  rw [← t.durations_eq h, ← ht.duration_eq] at heq
  rw [List.length_map] at he
  have hindex : t.timing.indexDuration =
      min (min (ticksIn t.duration.nanos t.layout.timescale.toNat) 0xFFFFFFFFFFFFFFFF)
        0xFFFFFFFF := by
    show (Saturating.toUInt32 _).toNat = _
    rw [Saturating.toNat_toUInt32, Duration.toNat_ticks]
  refine ⟨min e (0xFFFFFFFF - t.timing.durations.sum), by omega, ?_⟩
  rw [hindex, heq]
  unfold UInt32.size at hsum
  omega

end Ticks

end Track

/-! ## The boxes of a track -/

theorem MovieFragment.map_placeRuns {α : Type} {f : TrackFragment → α}
    (hf : ∀ x offset, f (x.withOffset offset) = f x) (offset : Nat)
    (runs : List (TrackFragment × Nat)) :
    (placeRuns offset runs).map f = runs.map (f ·.1) := by
  induction runs generalizing offset with
  | nil => rfl
  | cons run runs ih => rw [placeRuns, List.map_cons, List.map_cons, hf, ih]

namespace Muxer
variable {m₀ m : Muxer} {format : SourceFormat} {packets : List Packet}

theorem mem_activeTracks {t : Track} :
    t ∈ m.activeTracks ↔ (∃ v, m.trackOf v = some t) ∧ t.packets ≠ [] := by
  rw [activeTracks, List.mem_filter, tracks_eq, List.mem_append, Option.mem_toList,
    Option.mem_toList, Bool.exists_bool, or_comm, Track.isEmpty]
  simp

/-- The packets of a medium are all that its track can be told by. -/
theorem Collected.find?_activeTracks (h₀ : ofFormat? format = .ok m₀) (h : m₀.Collected m packets)
    {v : Bool} {t : Track} (ht : m.trackOf v = some t) (hne : t.packets ≠ []) :
    m.activeTracks.find? (·.layout.id == t.layout.id) = some t := by
  have hmem : t ∈ m.activeTracks := mem_activeTracks.2 ⟨⟨v, ht⟩, hne⟩
  have hlayout : ∀ {w : Bool} {u : Track}, m.trackOf w = some u →
      ∃ u₀, m₀.trackOf w = some u₀ ∧ u.layout = u₀.layout := by
    intro w u hu
    obtain ⟨u₀, hu₀⟩ := Option.isSome_iff_exists.1
      ((h.isSome_eq w).symm.trans (Option.isSome_of_eq_some hu))
    exact ⟨u₀, hu₀, (h.collected w u₀ u hu₀ hu).layout_eq⟩
  have hsome : (m.activeTracks.find? (·.layout.id == t.layout.id)).isSome :=
    List.find?_isSome.2 ⟨t, hmem, beq_self_eq_true t.layout.id⟩
  obtain ⟨u, hu⟩ := Option.isSome_iff_exists.1 hsome
  obtain ⟨⟨w, hw⟩, -⟩ := mem_activeTracks.1 (List.mem_of_find?_eq_some hu)
  have hid : u.layout.id = t.layout.id := by simpa using List.find?_some hu
  obtain ⟨t₀, ht₀, htl⟩ := hlayout ht
  obtain ⟨u₀, hu₀, hul⟩ := hlayout hw
  obtain rfl := eq_of_id_eq h₀ hu₀ ht₀ (by rw [← hul, ← htl, hid])
  rw [hu, ← hw, ht]

/-- **The boxes of a fragment have the times of the packets** that each track has collected. -/
theorem Collected.timing?_eq (h₀ : ofFormat? format = .ok m₀) (h : m₀.Collected m packets)
    {v : Bool} {t : Track} (ht : m.trackOf v = some t) (hne : t.packets ≠ []) (sequence : UInt32) :
    m.timing? sequence t.layout.id = some t.timing := by
  have hfind := h.find?_activeTracks h₀ ht hne
  have hindex : (m.activeTracks.map (·.index)).find? (·.track == t.layout.id) = some t.index := by
    rw [List.find?_map]
    exact congrArg (Option.map _) hfind
  -- the offset of a run is the only thing that is placed
  let times (f : TrackFragment) :=
    (f.header.track, f.time.toNat, f.run.samples.map (·.duration.toNat))
  have hruns : (m.movieFragment sequence).tracks.map times =
      m.activeTracks.map fun t => (t.layout.id, t.timing.decodeTime, t.timing.durations) := by
    rw [movieFragment]
    simp only
    rw [MovieFragment.map_placeRuns (fun _ _ => rfl), List.map_map]
    rfl
  have hrun : ((m.movieFragment sequence).tracks.find? (·.header.track == t.layout.id)).map times =
      some (t.layout.id, t.timing.decodeTime, t.timing.durations) := by
    have := congrArg (List.find? (·.1 == t.layout.id)) hruns
    rw [List.find?_map, List.find?_map] at this
    exact this.trans (congrArg (Option.map _) hfind)
  obtain ⟨f, hf, htimes⟩ := Option.map_eq_some_iff.1 hrun
  obtain ⟨-, htime, hdurations⟩ : _ ∧ _ ∧ _ := by simpa [times] using htimes
  rw [timing?, hindex, hf]
  simp only [htime, hdurations]
  rfl

/-! ## The times in a file -/

end Muxer

/-- The times that a reader finds of a track in a file. -/
def readTiming? (firstWins : Bool) (file : Bytes) (track : UInt32) : Option Timing :=
  (readFragment? firstWins file).bind fun f =>
    match f.indexes.find? (·.track == track), f.runs.find? (·.track == track) with
    | some index, some run =>
      some ⟨run.decodeTime.toNat, run.samples.map (·.duration.toNat), index.duration.toNat⟩
    | _, _ => none

/-- A run that is read as the stream of a track has the times of that track. -/
theorem Stream.IsRead.timing_eq {t : Track} (ht : t.Coherent) {file : Bytes} {moofStart : Nat}
    {x : SegmentIndex} {r : ReadRun} (h : t.stream.IsRead file moofStart x r)
    (hne : ∀ p ∈ t.packets, p.payload ≠ []) :
    (⟨r.decodeTime.toNat, r.samples.map (·.duration.toNat), x.duration.toNat⟩ : Timing) =
      t.timing := by
  have htime : r.decodeTime = t.decodeTime := by
    have hhead := h.decodeTime_eq
    rw [Track.decodeTime]
    exact (congrArg (Option.getD · 0) hhead).symm
  have hsamples := congrArg (List.map Prod.fst) h.samples_eq
  rw [List.take_of_length_le (h.length_le hne), List.map_map, List.map_map] at hsamples
  have hdurations : r.samples.map (·.duration.toNat) = t.timing.durations := by
    unfold Track.timing Track.samples
    rw [List.map_map]
    refine hsamples.trans (List.map_congr_left fun p _ => ?_)
    exact (Saturating.toNat_toUInt32 _).symm
  obtain ⟨total, htotal, hindex⟩ := h.duration_eq
  obtain rfl : total = t.duration := Duration.ext (htotal.trans ht.duration_eq.symm)
  have hindex : x.duration.toNat = t.index.duration.toNat :=
    hindex.trans (Saturating.toNat_toUInt32 _).symm
  rw [htime, hdurations, hindex]
  rfl

/-- Lists that agree in what is looked for have it in the same place. -/
theorem find?_eq_of_map_eq {α β : Type} {p : α → Bool} {q : β → Bool} {xs : List α} {ys : List β}
    (h : xs.map p = ys.map q) : ys.find? q = ys[xs.findIdx p]? := by
  have hidx := congrArg (List.findIdx id) h
  rw [List.findIdx_map, List.findIdx_map] at hidx
  rw [List.find?_eq_getElem?_findIdx]
  exact congrArg (ys[·]?) hidx.symm

namespace Muxer
variable {m₀ m : Muxer} {format : SourceFormat} {packets : List Packet}

/-- **A reader finds the times that are written**, in a fragment below two gigabytes. -/
theorem Collected.readTiming?_fragment (h₀ : ofFormat? format = .ok m₀)
    (h : m₀.Collected m packets) {v : Bool} {t : Track} (ht : m.trackOf v = some t)
    (hne : t.packets ≠ []) (hpayloads : ∀ p ∈ t.packets, p.payload ≠ []) (sequence : UInt32)
    (firstWins : Bool) (hsmall : (m.fragment sequence).length < 2 ^ 31) :
    readTiming? firstWins (m.fragment sequence) t.layout.id =
      m.timing? sequence t.layout.id := by
  obtain ⟨f, hf, hof⟩ := exists_readFragment? h.coherent firstWins hsmall
  have hread : ∀ i (u : Track), m.activeTracks[i]? = some u → ∃ x r, f.indexes[i]? = some x ∧
      f.runs[i]? = some r ∧ u.stream.IsRead (m.fragment sequence) f.moofStart x r :=
    fun i u hu => hof.stream_read i u.stream (by rw [List.getElem?_map, hu]; rfl)
  have hnone : ∀ i : Nat, m.activeTracks[i]? = none → f.indexes[i]? = none ∧ f.runs[i]? = none := by
    intro i hi
    rw [List.getElem?_eq_none_iff] at hi ⊢
    rw [List.getElem?_eq_none_iff, hof.indexes_length, hof.runs_length, List.length_map]
    exact ⟨hi, hi⟩
  -- index and run of each track are in its place
  have hindexes : m.activeTracks.map (·.layout.id == t.layout.id) =
      f.indexes.map (·.track == t.layout.id) := by
    refine List.ext_getElem? fun i => ?_
    rw [List.getElem?_map, List.getElem?_map]
    cases hu : m.activeTracks[i]? with
    | none => rw [(hnone i hu).1]; rfl
    | some u =>
      obtain ⟨x, _, hx, -, hisRead⟩ := hread i u hu
      rw [hx, Option.map_some, Option.map_some, hisRead.index_track_eq]
      rfl
  have hruns : m.activeTracks.map (·.layout.id == t.layout.id) =
      f.runs.map (·.track == t.layout.id) := by
    refine List.ext_getElem? fun i => ?_
    rw [List.getElem?_map, List.getElem?_map]
    cases hu : m.activeTracks[i]? with
    | none => rw [(hnone i hu).2]; rfl
    | some u =>
      obtain ⟨_, r, -, hr, hisRead⟩ := hread i u hu
      rw [hr, Option.map_some, Option.map_some, hisRead.track_eq]
      rfl
  have hfind := h.find?_activeTracks h₀ ht hne
  rw [List.find?_eq_getElem?_findIdx] at hfind
  obtain ⟨x, r, hx, hr, hisRead⟩ := hread _ t hfind
  have hcoherent := h.coherent t (List.mem_of_getElem? hfind)
  rw [h.timing?_eq h₀ ht hne, readTiming?, hf, Option.bind_some, find?_eq_of_map_eq hindexes,
    find?_eq_of_map_eq hruns, hx, hr]
  exact congrArg some (hisRead.timing_eq hcoherent hpayloads)

end Muxer

end LiveHls.Mp4
