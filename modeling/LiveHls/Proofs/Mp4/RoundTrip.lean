import LiveHls.Proofs.Mp4.Initialization
import LiveHls.Proofs.Mp4.Streams

/-!
# The round trip through fragmented MP4

* `Call`, `Muxer.afterAll?` : what a muxer has been through, unless a duration leaves its range;
* `Muxer.pending`, `Muxer.Collected` : the packets that wait for the next fragment, and that the
  tracks hold exactly these;
* `Muxer.Fits`, `Collected.afterAll?_writes_isSome_iff` : packets can be collected exactly if the
  durations of each track have a sum in range;
* `Muxer.fragment_round_trip` : a reader finds in a fragment the packets that waited for it, of each
  track as many as a run can count;
* `Muxer.blanks_are_not_all_read` : of 2³² packets without bytes it does not find the last.
-/

namespace LiveHls.Mp4

/-! ## Calls of a muxer -/

inductive Call where
  | write (p : Packet)
  | fragment (sequence : UInt32)

namespace Muxer

/-- The muxer after a call; none if the duration of a track leaves its range. -/
def after? (m : Muxer) : Call → Option Muxer
  | .write p =>
    match m.write p with
    | .ok m' => some m'
    | .error (.error _) => some m
    | .error .durationOverflow => none
  | .fragment _ => some m.reset

def afterAll? (m : Muxer) : List Call → Option Muxer
  | [] => some m
  | call :: rest => (m.after? call).bind (afterAll? · rest)

/-- The packets that wait for the next fragment after some calls, if `waiting` did before them. -/
def pending (m : Muxer) (waiting : List Packet) : List Call → List Packet
  | [] => waiting
  | .write p :: rest => pending m (if m.accepts p then waiting ++ [p] else waiting) rest
  | .fragment _ :: rest => pending m [] rest

def trackOf (m : Muxer) (isVideo : Bool) : Option Track := if isVideo then m.video else m.audio

/-- The packets of one medium in its track, if there is one. -/
def streamOf (m : Muxer) (packets : List Packet) (isVideo : Bool) : List Stream :=
  (m.trackOf isVideo).toList.map fun t =>
    ⟨t.layout.id, t.layout.timescale, packets.filter (·.isVideo == isVideo)⟩

/-- The packets of each track, video first, without the tracks that have none. -/
def streams (m : Muxer) (packets : List Packet) : List Stream :=
  (m.streamOf packets true ++ m.streamOf packets false).filter (!·.packets.isEmpty)

end Muxer

/-! ## What the tracks hold -/

/-- A track has the layout of `t₀` and holds these packets. -/
structure Track.Collected (t₀ t : Track) (packets : List Packet) : Prop where
  layout_eq : t.layout = t₀.layout
  packets_eq : t.packets = packets
  coherent : t.Coherent

theorem Track.collected_reset (t₀ t : Track) (h : t.layout = t₀.layout) :
    t₀.Collected t.reset [] := ⟨h, rfl, rfl, rfl⟩

theorem Track.Collected.push {t₀ t t' : Track} {packets : List Packet} {p : Packet}
    (h : t₀.Collected t packets) (hp : t.push p = some t') : t₀.Collected t' (packets ++ [p]) := by
  obtain ⟨total, htotal, rfl⟩ := Option.map_eq_some_iff.1 hp
  refine ⟨h.layout_eq, congrArg (· ++ [p]) h.packets_eq, ?_, ?_⟩
  · show total.nanos = _
    rw [Duration.nanos_add? htotal, h.coherent.duration_eq, List.map_append, List.sum_append]
    rfl
  · show t.dataSize + p.payload.length = _
    rw [h.coherent.dataSize_eq, List.map_append, List.sum_append]
    rfl

namespace Muxer
variable {m₀ m m' : Muxer} {packets : List Packet}

/-- The tracks of `m` are those of `m₀` with these packets, each in the track of its medium. -/
structure Collected (m₀ m : Muxer) (packets : List Packet) : Prop where
  isSome_eq : ∀ v, (m.trackOf v).isSome = (m₀.trackOf v).isSome
  collected : ∀ v t₀ t, m₀.trackOf v = some t₀ → m.trackOf v = some t →
    t₀.Collected t (packets.filter (·.isVideo == v))

theorem accepts_eq (m : Muxer) (p : Packet) : m.accepts p = (m.trackOf p.isVideo).isSome := by
  unfold accepts trackOf
  cases p.isVideo <;> rfl

/-- A packet with a track goes there; any other changes nothing. -/
theorem after?_write {p : Packet} (h : m.after? (.write p) = some m') :
    if m.accepts p then ∃ t t', m.trackOf p.isVideo = some t ∧ t.push p = some t' ∧
      m'.trackOf p.isVideo = some t' ∧ m'.trackOf (!p.isVideo) = m.trackOf (!p.isVideo)
    else m' = m := by
  rw [accepts_eq]
  cases htrack : m.trackOf p.isVideo with
  | none =>
    have hnone : (if p.isVideo then m.video else m.audio) = none := htrack
    simp only [after?, write, hnone] at h
    cases h
    rfl
  | some t =>
    have hsome : (if p.isVideo then m.video else m.audio) = some t := htrack
    rw [if_pos Option.isSome_some]
    cases hpush : t.push p with
    | none =>
      simp only [after?, write, hsome, hpush] at h
      cases h
    | some t' =>
      simp only [after?, write, hsome, hpush] at h
      cases h
      refine ⟨t, t', rfl, hpush, ?_, ?_⟩
      · cases p.isVideo <;> rfl
      · cases p.isVideo <;> rfl

theorem Collected.write {p : Packet} (h : m₀.Collected m packets)
    (hm : m.after? (.write p) = some m') :
    m₀.Collected m' (if m₀.accepts p then packets ++ [p] else packets) := by
  have haccepts : m.accepts p = m₀.accepts p := by
    rw [accepts_eq, accepts_eq, h.isSome_eq]
  have hw := after?_write hm
  rw [haccepts] at hw
  split at hw
  · rename_i ha
    obtain ⟨t, t', ht, hpush, ht', hother⟩ := hw
    have hunchanged : ∀ v, p.isVideo ≠ v → m'.trackOf v = m.trackOf v := by
      intro v hv
      rw [show v = !p.isVideo from Bool.eq_not_of_ne hv.symm]
      exact hother
    rw [if_pos ha]
    refine ⟨fun v => ?_, fun v t₀ t₁ h₀ h₁ => ?_⟩
    · by_cases hv : p.isVideo = v
      · rw [← hv, ht', ← h.isSome_eq, ht]
        rfl
      · rw [hunchanged v hv, h.isSome_eq]
    · rw [List.filter_append, List.filter_cons, List.filter_nil]
      by_cases hv : p.isVideo = v
      · rw [← hv] at h₀ h₁ ⊢
        rw [ht'] at h₁
        cases h₁
        rw [beq_self_eq_true, if_pos rfl]
        exact (h.collected _ t₀ t h₀ ht).push hpush
      · rw [if_neg (by rwa [beq_iff_eq]), List.append_nil]
        exact h.collected v t₀ t₁ h₀ (hunchanged v hv ▸ h₁)
  · rename_i ha
    rw [if_neg ha, hw]
    exact h

theorem Collected.reset (h : m₀.Collected m packets) : m₀.Collected m.reset [] := by
  have hreset : ∀ v, m.reset.trackOf v = (m.trackOf v).map .reset := by
    intro v
    cases v <;> rfl
  refine ⟨fun v => ?_, fun v t₀ t₁ h₀ h₁ => ?_⟩
  · rw [hreset, Option.isSome_map, h.isSome_eq]
  · rw [hreset] at h₁
    obtain ⟨t, ht, rfl⟩ := Option.map_eq_some_iff.1 h₁
    exact t₀.collected_reset t (h.collected v t₀ t h₀ ht).layout_eq

/-- **After any calls the tracks hold the packets that wait for the next fragment.** -/
theorem Collected.afterAll {calls : List Call} (h : m₀.Collected m packets)
    (hm : m.afterAll? calls = some m') : m₀.Collected m' (m₀.pending packets calls) := by
  induction calls generalizing m packets with
  | nil =>
    cases hm
    exact h
  | cons call rest ih =>
    obtain ⟨m₁, hcall, hrest⟩ := Option.bind_eq_some_iff.1 hm
    cases call with
    | write p => exact ih (h.write hcall) hrest
    | fragment sequence =>
      cases hcall
      exact ih h.reset hrest

/-- A new muxer has nothing to write. -/
theorem collected_of_ofFormat? {format : SourceFormat} (h : ofFormat? format = .ok m₀) :
    m₀.Collected m₀ [] := by
  obtain ⟨hvideo, haudio⟩ := ofFormat?_eq_ok h
  refine ⟨fun v => rfl, fun v t₀ t h₀ h₁ => ?_⟩
  rw [h₀] at h₁
  cases h₁
  cases v with
  | true =>
    obtain ⟨-, l, -, -, rfl⟩ := exists_of_isTrackOf hvideo h₀
    exact Track.collected_reset _ (.empty l) rfl
  | false =>
    obtain ⟨-, l, -, -, rfl⟩ := exists_of_isTrackOf haudio h₀
    exact Track.collected_reset _ (.empty l) rfl

theorem tracks_eq (m : Muxer) : m.tracks = (m.trackOf true).toList ++ (m.trackOf false).toList :=
  rfl

theorem Collected.coherent (h : m₀.Collected m packets) : ∀ t ∈ m.activeTracks, t.Coherent := by
  intro t ht
  have htrack : ∃ v, m.trackOf v = some t := by
    have hmem := (List.mem_filter.1 ht).1
    rw [tracks_eq, List.mem_append, Option.mem_toList, Option.mem_toList] at hmem
    exact hmem.elim (⟨true, ·⟩) (⟨false, ·⟩)
  obtain ⟨v, hv⟩ := htrack
  obtain ⟨t₀, h₀⟩ := Option.isSome_iff_exists.1 (h.isSome_eq v ▸ Option.isSome_of_eq_some hv)
  exact (h.collected v t₀ t h₀ hv).coherent

theorem Collected.streams_eq (h : m₀.Collected m packets) :
    m.activeTracks.map Track.stream = m₀.streams packets := by
  have hof : ∀ v, (m.trackOf v).toList.map Track.stream = m₀.streamOf packets v := by
    intro v
    unfold streamOf
    have hsome := h.isSome_eq v
    cases h₁ : m.trackOf v with
    | none =>
      rw [h₁, Option.isSome_none] at hsome
      rw [Option.isNone_iff_eq_none.1 (Option.isSome_eq_false_iff.1 hsome.symm)]
      rfl
    | some t =>
      rw [h₁, Option.isSome_some] at hsome
      obtain ⟨t₀, h₀⟩ := Option.isSome_iff_exists.1 hsome.symm
      obtain ⟨hlayout, hpackets, -⟩ := h.collected v t₀ t h₀ h₁
      rw [h₀, Option.toList_some, Option.toList_some, List.map_singleton, List.map_singleton,
        Track.stream, hlayout, hpackets]
  unfold streams
  rw [← hof, ← hof, ← List.map_append, ← tracks_eq, List.filter_map, activeTracks]
  rfl

/-! ## Packets that can be collected -/

/-- The nanoseconds of the packets of one medium. -/
def nanosOf (isVideo : Bool) (packets : List Packet) : Nat :=
  ((packets.filter (·.isVideo == isVideo)).map (·.duration.nanos)).sum

/-- The durations of each track's packets have a sum in range. -/
def Fits (m₀ : Muxer) (packets : List Packet) : Prop :=
  ∀ v, (m₀.trackOf v).isSome → nanosOf v packets < UInt64.size * nanosPerSecond

theorem nanosOf_le_of_sublist {xs ys : List Packet} (h : xs.Sublist ys) (v : Bool) :
    nanosOf v xs ≤ nanosOf v ys :=
  ((h.filter _).map _).sum_le_sum fun _ _ => Nat.zero_le _

theorem Fits.sublist {xs ys : List Packet} (h : m₀.Fits ys) (hs : xs.Sublist ys) : m₀.Fits xs :=
  fun v hv => Nat.lt_of_le_of_lt (nanosOf_le_of_sublist hs v) (h v hv)

/-- A packet is only refused with a fault because the duration of its track leaves its range. -/
theorem exists_of_after?_eq_none {p : Packet} (h : m.after? (.write p) = none) :
    ∃ t, m.trackOf p.isVideo = some t ∧
      UInt64.size * nanosPerSecond ≤ t.duration.nanos + p.duration.nanos := by
  cases htrack : m.trackOf p.isVideo with
  | none =>
    have hnone : (if p.isVideo then m.video else m.audio) = none := htrack
    simp only [after?, write, hnone] at h
    cases h
  | some t =>
    have hsome : (if p.isVideo then m.video else m.audio) = some t := htrack
    refine ⟨t, rfl, Duration.add?_eq_none_iff.1 ?_⟩
    cases hpush : t.push p with
    | none => exact Option.map_eq_none_iff.1 hpush
    | some t' =>
      simp only [after?, write, hsome, hpush] at h
      cases h

theorem Collected.duration_eq {waiting : List Packet} (h : m₀.Collected m waiting) {v : Bool}
    {t : Track} (ht : m.trackOf v = some t) : t.duration.nanos = nanosOf v waiting := by
  have hsome := h.isSome_eq v
  rw [ht, Option.isSome_some] at hsome
  obtain ⟨t₀, h₀⟩ := Option.isSome_iff_exists.1 hsome.symm
  have hc := h.collected v t₀ t h₀ ht
  rw [hc.coherent.duration_eq, hc.packets_eq, nanosOf]

/-- What waits in the tracks is in range. -/
theorem Collected.fits {waiting : List Packet} (h : m₀.Collected m waiting) :
    m₀.Fits waiting := by
  intro v hv
  obtain ⟨t, ht⟩ := Option.isSome_iff_exists.1 ((h.isSome_eq v).trans hv)
  rw [← h.duration_eq ht]
  exact t.duration.bounded

/-- **Packets can be collected** exactly if the durations of each track have a sum in range. -/
theorem Collected.afterAll?_writes_isSome_iff {waiting packets : List Packet}
    (h : m₀.Collected m waiting) (hp : ∀ p ∈ packets, m₀.accepts p = true) :
    (m.afterAll? (packets.map .write)).isSome = true ↔ m₀.Fits (waiting ++ packets) := by
  induction packets generalizing m waiting with
  | nil =>
    rw [List.append_nil]
    exact iff_of_true rfl h.fits
  | cons p rest ih =>
    rw [List.map_cons, afterAll?]
    cases hm : m.after? (.write p) with
    | some m' =>
      have hcollected := h.write hm
      rw [if_pos (hp p List.mem_cons_self)] at hcollected
      rw [Option.bind_some, ih hcollected fun q hq => hp q (List.mem_cons_of_mem _ hq),
        List.append_assoc]
      rfl
    | none =>
      refine iff_of_false Bool.false_ne_true fun hfits => ?_
      obtain ⟨t, ht, hover⟩ := exists_of_after?_eq_none hm
      have hnow : nanosOf p.isVideo (waiting ++ [p]) = t.duration.nanos + p.duration.nanos := by
        rw [h.duration_eq ht]
        simp [nanosOf]
      have hle : nanosOf p.isVideo (waiting ++ [p]) ≤ nanosOf p.isVideo (waiting ++ p :: rest) :=
        nanosOf_le_of_sublist (((List.nil_sublist rest).cons_cons p).append_left waiting) _
      have hfit := hfits p.isVideo (h.isSome_eq _ ▸ Option.isSome_of_eq_some ht)
      omega

theorem pending_writes {waiting packets : List Packet}
    (hp : ∀ p ∈ packets, m₀.accepts p = true) :
    m₀.pending waiting (packets.map .write) = waiting ++ packets := by
  induction packets generalizing waiting with
  | nil => exact (List.append_nil _).symm
  | cons p rest ih =>
    rw [List.map_cons, pending, if_pos (hp p List.mem_cons_self),
      ih fun q hq => hp q (List.mem_cons_of_mem _ hq), List.append_assoc]
    rfl

/-! ## The round trip -/

/-- **The round trip.** After any calls a reader finds in the next fragment, below two gigabytes,
the packets that waited for it, in the tracks that the initialization segment lists. A run counts up
to 2³² - 1 samples: of a track with no more packets all are found, one sample each, and of any other
the first 2³² - 1. This does not depend on which flags of a run's first sample win. -/
theorem fragment_round_trip {format : SourceFormat} {calls : List Call}
    (h₀ : ofFormat? format = .ok m₀) (h : m₀.afterAll? calls = some m) (sequence : UInt32)
    (firstWins : Bool) (hsmall : (m.fragment sequence).length < 2 ^ 31) :
    (∃ f, readFragment? firstWins (m.fragment sequence) = some f ∧
      f.IsOf (m.fragment sequence) sequence (m₀.streams (m₀.pending [] calls))) ∧
    (∀ t ∈ m₀.tracks, t.layout.IsDescribed) ∧
    (m₀.initialization.length < 2 ^ 32 → readTracks? m₀.initialization =
      some (m₀.tracks.map fun t => (t.layout.id, t.layout.timescale))) := by
  have hcollected := (collected_of_ofFormat? h₀).afterAll h
  refine ⟨?_, isDescribed_of_ofFormat? h₀, readTracks?_initialization h₀⟩
  rw [← hcollected.streams_eq]
  exact exists_readFragment? hcollected.coherent firstWins hsmall

/-! ### Sound and pictures in turn -/

def pictureFormat : VideoFormat := ⟨.h264, 640, 360, 25, 0, [1, 2, 3]⟩

def soundFormat : AudioFormat := ⟨.aac, 48000, 2, 0, [17, 144]⟩

def picture (keyframe : Bool) (millis : UInt64) (payload : Bytes) : Packet :=
  ⟨.ofMillis millis, .ofMillis 40, payload, "camera", 0, .video pictureFormat keyframe⟩

def sound (millis : UInt64) (payload : Bytes) : Packet :=
  ⟨.ofMillis millis, .ofMillis 21, payload, "camera", 0, .audio soundFormat⟩

/-- A fragment is written, then sound and three pictures of different sizes wait for the next. -/
def inTurn : List Call :=
  [.write (picture true 0 [1]), .fragment 1, .write (sound 21 [2, 3]), .write (picture true 40 [4]),
    .write (picture false 80 [5, 6]), .write (picture false 120 [])]

theorem fragment_round_trip_inTurn :
    ∃ m₀ m, ofFormat? ⟨"camera", some pictureFormat, some soundFormat⟩ = .ok m₀ ∧
      m₀.afterAll? inTurn = some m ∧
      (m₀.streams (m₀.pending [] inTurn)).map (fun s => (s.track, s.timescale, s.packets.length)) =
        [(1, 90000, 3), (2, 48000, 1)] ∧
      ∃ f, readFragment? true (m.fragment 2) = some f ∧
        f.IsOf (m.fragment 2) 2 (m₀.streams (m₀.pending [] inTurn)) := by
  obtain ⟨m₀, m, h₀, h, hlength, hstreams⟩ : ∃ m₀ m,
      ofFormat? ⟨"camera", some pictureFormat, some soundFormat⟩ = .ok m₀ ∧
      m₀.afterAll? inTurn = some m ∧ (m.fragment 2).length < 2 ^ 31 ∧
      (m₀.streams (m₀.pending [] inTurn)).map (fun s => (s.track, s.timescale, s.packets.length)) =
        [(1, 90000, 3), (2, 48000, 1)] := ⟨_, _, rfl, rfl, by decide +kernel, rfl⟩
  obtain ⟨hread, -, -⟩ := fragment_round_trip h₀ h 2 true hlength
  exact ⟨m₀, m, h₀, h, hstreams, hread⟩

/-! ### More packets than a run can count -/

section Blank
variable {count : Nat}

/-- Pictures without bytes, all the same. -/
def blanks (count : Nat) : List Packet := List.replicate count (picture false 0 [])

/-- However many pictures without bytes a fragment is made of, it is small. -/
theorem length_fragment_blanks {t : Track} (hm : m.activeTracks = [t]) (ht : t.Coherent)
    (hp : t.packets = blanks count) (sequence : UInt32) :
    (m.fragment sequence).length < 2 ^ 31 := by
  have hcoherent : ∀ t ∈ m.activeTracks, t.Coherent := by
    rw [hm]
    exact List.forall_mem_singleton.2 ht
  have hdata : m.dataSize = 0 := by
    rw [dataSize_eq, hm, List.map_singleton, List.sum_singleton, ht.dataSize_eq, hp, blanks,
      List.map_replicate, List.sum_replicate_nat]
    rfl
  -- the samples are described by the defaults alone
  have hfields : t.fragment.run.samples.flatMap
      (TrackRun.sampleFields t.fragment.run.flags) = [] := by
    have hdependent : (Track.sample t.layout.timescale (picture false 0 [])).flags =
        Sample.dependentFlags := rfl
    unfold Track.fragment
    rw [hp, blanks, List.map_replicate]
    exact TrackFragment.flatMap_sampleFields_replicate (by rw [hdependent]; decide)
  have hrun := t.fragment.size_le
  rw [hfields, List.length_nil] at hrun
  have hheader : (fragmentHeader sequence).raw.size = 16 := by
    simp [RawBox.size, fragmentHeader, headerLength]
  have hindex : t.index.box.raw.size = 52 := by
    simp [RawBox.size, SegmentIndex.box, headerLength]
  have htype : segmentType.raw.size = 32 := rfl
  have hbox : m.dataBox.raw.size = headerLength + m.dataSize := by
    rw [RawBox.size, dataBox, Box.raw_leaf, length_data hcoherent]
  have hmoof : (m.movieFragment sequence).box.raw.size =
      headerLength + (16 + t.fragment.box.raw.size) := by
    rw [MovieFragment.size_box, tracks_movieFragment (by omega), MovieFragment.sizes_placeRuns, hm,
      ← hheader]
    rfl
  rw [fragment_eq_encodeAll hcoherent (by omega), Box.length_encodeAll, boxesBefore, hm]
  simp only [List.map_cons, List.map_nil, List.cons_append, List.nil_append, List.sum_cons,
    List.sum_nil, htype, hindex, hmoof, hbox, hdata, headerLength]
  omega

theorem accepts_blanks {t : Track} (ht : m₀.trackOf true = some t) :
    ∀ p ∈ blanks count, m₀.accepts p = true := by
  intro p hp
  rw [List.eq_of_mem_replicate hp, accepts_eq]
  exact Option.isSome_of_eq_some ht

theorem filter_blanks : (blanks count).filter (·.isVideo == true) = blanks count :=
  List.filter_eq_self.2 fun p hp => by rw [List.eq_of_mem_replicate hp]; rfl

theorem fits_blanks (haudio : m₀.trackOf false = none) (hrange : count < 2 ^ 40) :
    m₀.Fits (blanks count) := by
  intro v hv
  cases v with
  | false =>
    rw [haudio] at hv
    cases hv
  | true =>
    have hnanos : (picture false 0 []).duration.nanos = 40000000 := rfl
    have hsize : UInt64.size * nanosPerSecond = 18446744073709551616 * 1000000000 := rfl
    rw [nanosOf, filter_blanks, blanks, List.map_replicate, List.sum_replicate_nat, hnanos]
    omega

theorem streams_blanks {t : Track} (ht : m₀.trackOf true = some t)
    (haudio : m₀.trackOf false = none) (hpos : 0 < count) :
    m₀.streams (blanks count) = [⟨t.layout.id, t.layout.timescale, blanks count⟩] := by
  have hne : (blanks count).isEmpty = false := by
    rw [blanks, List.isEmpty_eq_false_iff, Ne, List.replicate_eq_nil_iff]
    omega
  unfold streams streamOf
  rw [ht, haudio, Option.toList_some, Option.toList_none, List.map_singleton, List.map_nil,
    List.append_nil, filter_blanks, List.filter_singleton, hne]
  rfl

/-- Pictures without bytes all wait for the next fragment. A reader finds as many of them as a run
can count. -/
theorem readFragment?_blanks (hpos : 0 < count) (hrange : count < 2 ^ 40) :
    ∃ m₀ m f, ofFormat? ⟨"camera", some pictureFormat, none⟩ = .ok m₀ ∧
      m₀.afterAll? ((blanks count).map .write) = some m ∧ (m.fragment 1).length < 2 ^ 31 ∧
      (m₀.streams (m₀.pending [] ((blanks count).map .write))).map (·.packets) = [blanks count] ∧
      readFragment? true (m.fragment 1) = some f ∧
      f.runs.map (·.samples.length) = [min count TrackRun.maxCount] := by
  obtain ⟨m₀, t₀, h₀, ht₀, haudio⟩ : ∃ m₀ t₀,
      ofFormat? ⟨"camera", some pictureFormat, none⟩ = .ok m₀ ∧
      m₀.trackOf true = some t₀ ∧ m₀.trackOf false = none := ⟨_, _, rfl, rfl, rfl⟩
  have haccepts : ∀ p ∈ blanks count, m₀.accepts p = true := accepts_blanks ht₀
  have hstreams := streams_blanks ht₀ haudio hpos
  have hpending : m₀.pending [] ((blanks count).map .write) = blanks count :=
    pending_writes haccepts
  have hnew := collected_of_ofFormat? h₀
  obtain ⟨m, hm⟩ := Option.isSome_iff_exists.1
    ((hnew.afterAll?_writes_isSome_iff haccepts).2 (fits_blanks haudio hrange))
  have hcollected := hpending ▸ hnew.afterAll hm
  -- the muxer has one track in use, and that has all the pictures
  have hactive := hcollected.streams_eq
  rw [hstreams] at hactive
  obtain ⟨t, ht, hstream⟩ := List.map_eq_singleton_iff.1 hactive
  have hcoherent := hcollected.coherent t (ht ▸ List.mem_singleton_self t)
  have hsmall := length_fragment_blanks ht hcoherent (congrArg Stream.packets hstream) 1
  obtain ⟨f, hf, hof⟩ := exists_readFragment? hcollected.coherent true hsmall
  rw [hactive] at hof
  obtain ⟨x, r, -, hr, hread⟩ := hof.stream_read 0 _ rfl
  have hruns : f.runs = [r] := by
    obtain ⟨r', hr'⟩ := List.length_eq_one_iff.1 hof.runs_length
    rw [hr'] at hr ⊢
    cases hr
    rfl
  have hcount := congrArg List.length hread.samples_eq
  rw [List.length_map, List.length_map, List.length_take, blanks, List.length_replicate,
    Nat.min_comm] at hcount
  refine ⟨m₀, m, f, h₀, hm, hsmall, ?_, hf, ?_⟩
  · rw [hpending, hstreams]
    rfl
  · rw [hruns, List.map_singleton, hcount]

end Blank

/-- **A run does not count more than 2³² - 1 samples.** Of 2³² pictures without bytes, all of which
wait for a small fragment, a reader finds one less. -/
theorem blanks_are_not_all_read : ∃ m₀ m f,
    ofFormat? ⟨"camera", some pictureFormat, none⟩ = .ok m₀ ∧
      m₀.afterAll? ((blanks (2 ^ 32)).map .write) = some m ∧ (m.fragment 1).length < 2 ^ 31 ∧
      (m₀.streams (m₀.pending [] ((blanks (2 ^ 32)).map .write))).map (·.packets) =
        [blanks (2 ^ 32)] ∧
      readFragment? true (m.fragment 1) = some f ∧
      f.runs.map (·.samples.length) = [2 ^ 32 - 1] :=
  readFragment?_blanks (by decide) (by decide)

end Muxer

end LiveHls.Mp4
