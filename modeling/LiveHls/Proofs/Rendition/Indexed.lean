import LiveHls.Proofs.Rendition.Ring
import LiveHls.Rendition.Indexed

/-!
# The segment map of a rendition

* `Indexes` : the map, the queue and the current number of an `IndexedRendition` lead to the live
  segments of a `Rendition`;
* `Indexes.store`, `Indexes.rollOver`, `Indexes.evict`, `Indexes.write` : what is done to the one by
  number is done to the other in order, with the same result;
* `Indexes.lookup?_eq` : reads of both have the same answers, and none breaks down;
* `Reachable.exists_indexes`, `exists_of_reachable` : so the runs of the two are the same;
* `isRing_of_reachable` : numbers, latches, durations and playlist of a rendition agree after every
  run.
-/

namespace LiveHls

open Rendition (camera cameraFrame shortest fiveFrames fold newSegment)

/-! ## Segments by their numbers -/

theorem Segment.id_write (s : Segment) (x : Packet) : (s.write x).1.id = s.id := by
  unfold write advance
  rcases s.current.write x with ⟨part, progress⟩
  cases progress with
  | remainsOpen => rfl
  | overflow => rfl
  | closed =>
    simp only
    split
    · rfl
    · split <;> rfl

namespace Rendition

/-- Looking for a segment's number finds it, if no two have the same. -/
theorem find?_of_nodup {segments : List Segment} (h : (segments.map (·.id)).Nodup) {t : Segment}
    (ht : t ∈ segments) : segments.find? (·.id == t.id) = some t := by
  induction segments with
  | nil => cases ht
  | cons s segments ih =>
    obtain ⟨hs, hrest⟩ := List.nodup_cons.1 h
    rcases List.mem_cons.1 ht with rfl | ht
    · exact List.find?_cons_of_pos (beq_self_eq_true t.id)
    · have hne : s.id ≠ t.id := fun he => hs (List.mem_map.2 ⟨t, ht, he.symm⟩)
      rw [List.find?_cons_of_neg (by rwa [beq_iff_eq]), ih hrest ht]

/-- Looking for a number that no segment has. -/
theorem find?_of_notMem {segments : List Segment} {id : Nat} (h : id ∉ segments.map (·.id)) :
    segments.find? (·.id == id) = none := by
  rw [List.find?_eq_none]
  intro t ht he
  exact h (beq_iff_eq.1 he ▸ List.mem_map_of_mem ht)

theorem find?_singleton_self (t : Segment) : [t].find? (·.id == t.id) = some t :=
  List.find?_cons_of_pos (beq_self_eq_true t.id)

theorem find?_singleton_of_ne {t : Segment} {id : Nat} (h : id ≠ t.id) :
    [t].find? (·.id == id) = none :=
  find?_of_notMem (by rwa [List.map_singleton, List.mem_singleton])

/-- What is found when the first segments are left out. -/
theorem find?_drop {segments : List Segment} (h : (segments.map (·.id)).Nodup) (n id : Nat) :
    (segments.drop n).find? (·.id == id) =
      if id ∈ (segments.map (·.id)).take n then none else segments.find? (·.id == id) := by
  rw [← List.map_take]
  split
  · rename_i hid
    apply find?_of_notMem
    rw [← List.take_append_drop n segments, List.map_append] at h
    exact List.disjoint_of_nodup_append h hid
  · rename_i hid
    conv_rhs => rw [← List.take_append_drop n segments]
    rw [List.find?_append, find?_of_notMem hid, Option.none_or]

theorem Coherent.nodup_liveIds {r : Rendition} (hr : r.Coherent) : r.liveIds.Nodup := by
  rw [hr.liveIds_eq]
  exact List.nodup_range'

theorem liveIds_eq_concat (r : Rendition) : r.liveIds = r.earlier.map (·.id) ++ [r.current.id] := by
  rw [liveIds, live, List.map_append, List.map_singleton]

theorem liveIds_rollOver (r : Rendition) (now : Instant) :
    (r.rollOver now).liveIds = r.liveIds ++ [r.current.id + 1] := by
  unfold liveIds
  exact List.map_append

theorem live_evict {r : Rendition} (hpos : 0 < r.options.segmentCount) :
    r.evict.live = r.live.drop (r.live.length - r.options.segmentCount) := by
  refine (List.drop_append_of_le_length ?_).symm
  rw [live, List.length_append, List.length_singleton]
  omega

theorem liveIds_evict {r : Rendition} (hpos : 0 < r.options.segmentCount) :
    r.evict.liveIds = r.liveIds.drop (r.live.length - r.options.segmentCount) := by
  rw [liveIds, live_evict hpos, List.map_drop]
  rfl

end Rendition

namespace IndexedRendition

/-- The map, the queue and the current number of `s` lead to the live segments of `r`, and all else
is the same. -/
structure Indexes (s : IndexedRendition) (r : Rendition) : Prop where
  format_eq : s.format = r.format
  options_eq : s.options = r.options
  layout_eq : s.layout = r.layout
  /-- The map has the live segments under their numbers, and nothing else. -/
  segment?_eq : ∀ id, s.segment? id = r.segment? id
  live_eq : s.live = r.liveIds
  current_eq : s.current = r.current.id
  mediaSequence_eq : s.mediaSequence = r.mediaSequence
  manifest_eq : s.manifest = r.manifest
  closed_eq : s.closed = r.closed

section Changes
variable {s : IndexedRendition} {r : Rendition}

theorem Indexes.render_eq (h : s.Indexes r) (hn : r.liveIds.Nodup) : s.render = r.render := by
  have hentries : s.live.flatMap (fun id => ((s.segment? id).map (·.entry)).getD []) =
      r.live.flatMap (·.entry) := by
    rw [h.live_eq, Rendition.liveIds, List.flatMap_map]
    refine List.flatMap_congr fun t ht => ?_
    rw [h.segment?_eq, Rendition.segment?, Rendition.find?_of_nodup hn ht]
    rfl
  unfold render Rendition.render
  rw [hentries, h.options_eq, h.mediaSequence_eq]

theorem Indexes.refresh (h : s.Indexes r) (hn : r.liveIds.Nodup) :
    s.refresh.Indexes r.refresh :=
  { h with manifest_eq := h.render_eq hn }

/-- The current segment is stored in its place. -/
theorem Indexes.store (h : s.Indexes r) (hn : r.liveIds.Nodup) {t : Segment}
    (ht : t.id = r.current.id) : (s.store s.current t).Indexes { r with current := t } := by
  have hids : ({ r with current := t } : Rendition).liveIds = r.liveIds := by
    rw [Rendition.liveIds_eq_concat, Rendition.liveIds_eq_concat, ht]
  refine { h with
    segment?_eq := fun id => ?_
    live_eq := h.live_eq.trans hids.symm
    current_eq := h.current_eq.trans ht.symm }
  show (s.segments.insert s.current t).lookup id = (r.earlier ++ [t]).find? _
  by_cases hid : id = s.current
  · have hn' : ((r.earlier ++ [t]).map (·.id)).Nodup := by
      rw [← hids] at hn
      exact hn
    rw [hid, Finmap.lookup_insert, h.current_eq, ← ht, Rendition.find?_of_nodup hn'
      (List.mem_append_right _ (List.mem_singleton_self t))]
  · have hr : s.segments.lookup id = (r.earlier ++ [r.current]).find? _ := h.segment?_eq id
    rw [h.current_eq] at hid
    rw [Finmap.lookup_insert_of_ne _ (h.current_eq ▸ hid), hr, List.find?_append,
      List.find?_append, Rendition.find?_singleton_of_ne hid,
      Rendition.find?_singleton_of_ne (ht ▸ hid)]

/-- A new segment behind the current one has a number that no live segment has. -/
theorem Indexes.rollOver (h : s.Indexes r) (hnew : r.current.id + 1 ∉ r.liveIds) (now : Instant) :
    (s.rollOver now).Indexes (r.rollOver now) := by
  have hsegment : newSegment s.options s.layout (s.current + 1) now =
      newSegment r.options r.layout (r.current.id + 1) now := by
    rw [h.options_eq, h.layout_eq, h.current_eq]
  refine { h with
    segment?_eq := fun id => ?_
    live_eq := ?_
    current_eq := congrArg (· + 1) h.current_eq }
  · show (s.segments.insert (s.current + 1) _).lookup id =
      (r.live ++ [newSegment r.options r.layout (r.current.id + 1) now]).find? _
    rw [hsegment, List.find?_append]
    by_cases hid : id = s.current + 1
    · rw [hid, Finmap.lookup_insert, h.current_eq, Rendition.find?_of_notMem hnew, Option.none_or]
      exact (Rendition.find?_singleton_self _).symm
    · rw [Finmap.lookup_insert_of_ne _ hid,
        Rendition.find?_singleton_of_ne (h.current_eq ▸ hid), Option.or_none]
      exact h.segment?_eq id
  · have hlive : s.live ++ [s.current + 1] = r.liveIds ++ [r.current.id + 1] := by
      rw [h.live_eq, h.current_eq]
    rw [Rendition.liveIds_rollOver]
    exact hlive

/-! ## The loop that drops segments -/

theorem lookup_foldl_erase (ids : List Nat) (segments : Finmap fun _ : Nat => Segment) (id : Nat) :
    (ids.foldl (fun m i => m.erase i) segments).lookup id =
      if id ∈ ids then none else segments.lookup id := by
  induction ids generalizing segments with
  | nil => rfl
  | cons i ids ih =>
    rw [List.foldl_cons, ih]
    by_cases hid : id = i
    · rw [hid, Finmap.lookup_erase, ite_self, if_pos List.mem_cons_self]
    · rw [Finmap.lookup_erase_ne hid]
      simp only [List.mem_cons, hid, false_or]

/-- **The loop drops what is beyond the retained number**, from the front of the queue. -/
theorem evict_eq (s : IndexedRendition) :
    let excess := s.live.length - s.options.segmentCount
    s.evict = { s with
      live := s.live.drop excess
      segments := (s.live.take excess).foldl (fun m id => m.erase id) s.segments
      mediaSequence := s.mediaSequence + excess } := by
  induction s using evict.induct with
  | case1 s hlt ih =>
    obtain ⟨oldest, rest, hlive⟩ := List.exists_cons_of_length_pos (Nat.zero_lt_of_lt hlt)
    have hdrop : s.dropOldest = { s with
        live := rest
        segments := s.segments.erase oldest
        mediaSequence := s.mediaSequence + 1 } := by
      simp only [dropOldest, hlive]
    have hexcess : s.live.length - s.options.segmentCount =
        rest.length - s.options.segmentCount + 1 := by
      rw [hlive, List.length_cons] at hlt ⊢
      omega
    rw [evict, if_pos hlt, ih, hdrop, hexcess, hlive]
    simp only [List.drop_succ_cons, List.take_succ_cons, List.foldl_cons, Nat.add_assoc,
      Nat.add_comm 1]
  | case2 s hle =>
    rw [evict, if_neg hle, Nat.sub_eq_zero_of_le (Nat.le_of_not_lt hle)]
    rfl

theorem Indexes.evict (h : s.Indexes r) (hn : r.liveIds.Nodup)
    (hpos : 0 < r.options.segmentCount) : s.evict.Indexes r.evict := by
  have hexcess : s.live.length - s.options.segmentCount =
      r.live.length - r.options.segmentCount := by
    rw [h.live_eq, h.options_eq, Rendition.liveIds, List.length_map]
  rw [evict_eq, hexcess, h.live_eq]
  refine { h with
    segment?_eq := fun id => ?_
    live_eq := (Rendition.liveIds_evict hpos).symm
    mediaSequence_eq := congrArg (· + _) h.mediaSequence_eq }
  rw [Rendition.segment?, Rendition.live_evict hpos, Rendition.find?_drop hn]
  exact (lookup_foldl_erase ..).trans (congrArg _ (h.segment?_eq id))

/-! ## Writes and reads -/

/-- **A write to the one is a write to the other**, with the same result. -/
theorem Indexes.write (h : s.Indexes r) (hr : r.Coherent) (x : Packet) (now : Instant) :
    (s.write x now).2 = (r.write x now).2 ∧ (s.write x now).1.Indexes (r.write x now).1 := by
  have hcurrent : s.segment? s.current = some r.current := by
    rw [h.segment?_eq, h.current_eq, hr.segment?_current]
  unfold IndexedRendition.write Rendition.write
  rw [h.layout_eq, h.closed_eq, ← Rendition.refusal?]
  cases r.refusal? x with
  | some e => exact ⟨rfl, h⟩
  | none =>
    simp only [hcurrent]
    have hid := r.current.id_write (fold x)
    rcases hw : r.current.write (fold x) with ⟨t, progress⟩
    rw [hw] at hid
    have hstore := h.store hr.nodup_liveIds hid
    have hids : ({ r with current := t } : Rendition).liveIds = r.liveIds :=
      hstore.live_eq.symm.trans h.live_eq
    have hn : ({ r with current := t } : Rendition).liveIds.Nodup := hids ▸ hr.nodup_liveIds
    cases progress with
    | overflow => exact ⟨rfl, hstore⟩
    | remainsOpen => exact ⟨rfl, hstore.refresh hn⟩
    | closed =>
      have hnew : t.id + 1 ∉ ({ r with current := t } : Rendition).liveIds := by
        rw [hids, hr.liveIds_eq, hid, List.mem_range'_1]
        omega
      have hpos : 0 < (Rendition.rollOver { r with current := t } now).options.segmentCount :=
        hr.retained_pos
      have hn₁ : (Rendition.rollOver { r with current := t } now).liveIds.Nodup := by
        rw [Rendition.liveIds_rollOver]
        exact List.nodup_append.2 ⟨hn, List.nodup_singleton _, fun a ha b hb he => hnew
          (List.mem_singleton.1 hb ▸ he ▸ ha)⟩
      have hn₂ : (Rendition.rollOver { r with current := t } now).evict.liveIds.Nodup := by
        rw [Rendition.liveIds_evict hpos]
        exact hn₁.sublist (List.drop_sublist ..)
      exact ⟨rfl, ((hstore.rollOver hnew now).evict hn₁ hpos).refresh hn₂⟩

theorem Indexes.media_eq (h : s.Indexes r) : s.media = r.media := by
  funext packets sequence
  rw [media, h.layout_eq, Rendition.media]

theorem Indexes.manifestBody_eq (h : s.Indexes r) : s.manifestBody = r.manifestBody := by
  unfold manifestBody Rendition.manifestBody
  rw [h.manifest_eq]

theorem Indexes.lookupPlaylist?_eq (h : s.Indexes r) (hr : r.Coherent) (want : Nat)
    (part : Option Nat) : s.lookupPlaylist? want part = some (r.lookupPlaylist want part) := by
  unfold lookupPlaylist? Rendition.lookupPlaylist
  rw [h.segment?_eq, h.current_eq, hr.segment?_current, h.manifestBody_eq, Option.map_some]
  rcases Nat.lt_trichotomy want r.current.id with hlt | heq | hgt
  · rw [if_pos hlt, if_pos hlt]
  · rw [if_neg (by omega), if_pos heq, if_neg (by omega), if_neg (by omega)]
    rfl
  · rw [if_neg (by omega), if_neg (by omega), if_neg (by omega), if_pos hgt]

/-- **A read of the one is a read of the other**, and does not break down. -/
theorem Indexes.lookup?_eq (h : s.Indexes r) (hr : r.Coherent) (read : Read) :
    s.lookup? read = some (r.lookup read) := by
  cases read with
  | playlist want part =>
    cases want with
    | none => exact congrArg some h.manifestBody_eq
    | some want => exact h.lookupPlaylist?_eq hr want part
  | segment id =>
    rw [lookup?, h.segment?_eq, h.media_eq]
    rfl
  | part segment id =>
    rw [lookup?, h.segment?_eq, h.media_eq]
    rfl

end Changes

/-! ## Runs -/

/-- A write that keeps all durations in their range, or the end of the rendition. -/
inductive Step (s : IndexedRendition) : IndexedRendition → Prop
  | write (x : Packet) (now : Instant) (in_range : (s.write x now).2 ≠ .error .durationOverflow) :
      Step s (s.write x now).1
  | close : Step s s.close

/-- What comes of a new rendition. -/
def Reachable (format : SourceFormat) (options : Options) (s : IndexedRendition) : Prop :=
  ∃ now s₀, new? format options now = .ok s₀ ∧ Relation.ReflTransGen Step s₀ s

/-- For the same streams both are made, or neither. -/
theorem new?_cases (format : SourceFormat) (options : Options) (now : Instant) :
    (∃ e, new? format options now = .error e ∧ Rendition.new? format options now = .error e) ∨
    ∃ s r, new? format options now = .ok s ∧ Rendition.new? format options now = .ok r ∧
      s.Indexes r := by
  unfold new? Rendition.new?
  cases Mp4.Muxer.ofFormat? format with
  | error e => exact Or.inl ⟨e, rfl, rfl⟩
  | ok layout =>
    refine Or.inr ⟨_, _, rfl, rfl, ?_⟩
    refine Indexes.refresh ?_ (List.nodup_singleton 0)
    refine ⟨rfl, rfl, rfl, fun id => ?_, rfl, rfl, rfl, rfl, rfl⟩
    show (Finmap.singleton 0 _).lookup id = [_].find? _
    by_cases hid : id = 0
    · rw [hid, Finmap.lookup_singleton_eq]
      exact (Rendition.find?_singleton_self _).symm
    · rw [Finmap.lookup_eq_none.2 (by rwa [Finmap.mem_singleton]),
        Rendition.find?_singleton_of_ne hid]

section Runs
variable {s s' : IndexedRendition} {r r' : Rendition} {format : SourceFormat} {options : Options}

theorem Indexes.close (h : s.Indexes r) : s.close.Indexes r.close := { h with closed_eq := rfl }

theorem Indexes.step (h : s.Indexes r) (hr : r.Coherent) (hs : s.Step s') :
    ∃ r', r.Step r' ∧ s'.Indexes r' := by
  cases hs with
  | write x now hin =>
    obtain ⟨hresult, hw⟩ := h.write hr x now
    rw [hresult] at hin
    exact ⟨_, .write x now (Bool.eq_false_iff.2 (mt Rendition.overflows_iff.1 hin)), hw⟩
  | close => exact ⟨_, .close, h.close⟩

theorem Indexes.step_back (h : s.Indexes r) (hr : r.Coherent) (hs : r.Step r') :
    ∃ s', s.Step s' ∧ s'.Indexes r' := by
  cases hs with
  | write x now hin =>
    obtain ⟨hresult, hw⟩ := h.write hr x now
    refine ⟨_, .write x now ?_, hw⟩
    rw [hresult]
    exact mt Rendition.overflows_iff.2 (Bool.eq_false_iff.1 hin)
  | close => exact ⟨_, .close, h.close⟩

/-- **Every run of the one is a run of the other.** -/
theorem Reachable.exists_indexes (h : Reachable format options s) :
    ∃ r, Rendition.Reachable format options r ∧ s.Indexes r := by
  obtain ⟨now, s₀, h₀, hs⟩ := h
  induction hs with
  | refl =>
    rcases new?_cases format options now with ⟨e, he, -⟩ | ⟨s, r, hs, hr, hsr⟩
    · rw [h₀] at he
      cases he
    · rw [h₀] at hs
      cases hs
      exact ⟨r, ⟨now, r, hr, .refl⟩, hsr⟩
  | tail _ hstep ih =>
    obtain ⟨r, hr, hsr⟩ := ih
    obtain ⟨r', hr', hsr'⟩ := hsr.step hr.coherent hstep
    exact ⟨r', hr.later (.single hr'), hsr'⟩

theorem exists_of_reachable (h : Rendition.Reachable format options r) :
    ∃ s, Reachable format options s ∧ s.Indexes r := by
  obtain ⟨now, r₀, h₀, hr⟩ := h
  induction hr with
  | refl =>
    rcases new?_cases format options now with ⟨e, -, he⟩ | ⟨s, r, hs, hr, hsr⟩
    · rw [h₀] at he
      cases he
    · rw [h₀] at hr
      cases hr
      exact ⟨s, ⟨now, s, hs, .refl⟩, hsr⟩
  | @tail r r' hrun hstep ih =>
    obtain ⟨s, ⟨now', s₀, hs₀, hs⟩, hsr⟩ := ih
    have hr : Rendition.Reachable format options r := ⟨now, r₀, h₀, hrun⟩
    obtain ⟨s', hs', hsr'⟩ := hsr.step_back hr.coherent hstep
    exact ⟨s', ⟨now', s₀, hs₀, hs.tail hs'⟩, hsr'⟩

end Runs

/-! ## The ring -/

/-- A rendition that retains `count` segments is a ring of them: the map, the queue and the numbers
agree, and so do latches, durations and playlist. -/
structure IsRing (count : Nat) (s : IndexedRendition) : Prop where
  /-- The live numbers are consecutive and end with the current one. -/
  live_eq : s.live = List.range' s.mediaSequence (s.current + 1 - s.mediaSequence)
  mediaSequence_eq : s.mediaSequence = s.current + 1 - count
  /-- The map has exactly the live numbers as its keys. -/
  keys_eq : s.segments.keys = s.live.toFinset
  /-- Each segment has its key as its number. -/
  id_eq : ∀ id t, s.segment? id = some t → t.id = id
  closed_iff : ∀ id t, s.segment? id = some t → (t.isClosed = true ↔ id ≠ s.current)
  part_place : ∀ id t, s.segment? id = some t → ∀ i (p : Part), t.parts[i]? = some p →
    p.id = i ∧ p.segment = id
  part_closed_iff : ∀ id t, s.segment? id = some t → ∀ i (p : Part), t.parts[i]? = some p →
    (p.isClosed = true ↔ i + 1 < t.parts.length ∨ t.isClosed = true)
  duration_eq : ∀ id t, s.segment? id = some t →
    t.duration.nanos = ((t.parts.filter (·.isClosed)).map (·.duration.nanos)).sum
  /-- The latch of a part is released exactly if its packets end it; then and only then it is
  listed as a part. -/
  part_released_iff : ∀ id t, s.segment? id = some t → ∀ p ∈ t.parts,
    p.finished.released = partEnds s.layout.hasVideo s.options.partDuration p.packets ∧
    p.entry = if p.finished.released then .part p.segment p.id p.duration p.independent
      else .preloadHint p.segment p.id
  /-- The latch of a segment is released exactly if its last part has closed and its duration has
  reached the target; then and only then its lines end with its tail. -/
  released_iff : ∀ id t, s.segment? id = some t →
    (t.finished.released = true ↔
      t.current.finished.released = true ∧ s.options.segmentDuration ≤ t.duration) ∧
    t.entry = (t.parts.filter (·.isClosed)).map (·.entry) ++
      if t.finished.released then Playlist.segmentTail id t.startedAt t.duration
      else [.preloadHint id t.current.id]
  manifest_eq : s.manifest = s.render
  /-- The current number leads to an open segment with an open part, so a packet is never written to
  a closed one, and no write and no read misses the current segment. -/
  writes_to_open : ∃ t, s.segment? s.current = some t ∧ t.isClosed = false ∧
    t.current.isClosed = false

section Ring
variable {s : IndexedRendition} {r : Rendition}

theorem Indexes.mem_live (h : s.Indexes r) (hr : r.Coherent) {id : Nat} {t : Segment}
    (ht : s.segment? id = some t) : t ∈ r.live ∧ t.id = id :=
  hr.segment?_eq_some_iff.1 ((h.segment?_eq id).symm.trans ht)

theorem Indexes.slot (h : s.Indexes r) (hr : r.Coherent) {id : Nat} {t : Segment}
    (ht : s.segment? id = some t) : Rendition.Slot s.options s.layout id t := by
  obtain ⟨hmem, rfl⟩ := h.mem_live hr ht
  rw [h.options_eq, h.layout_eq]
  exact hr.slot_of_mem hmem

theorem Indexes.keys_eq (h : s.Indexes r) (hr : r.Coherent) :
    s.segments.keys = s.live.toFinset := by
  ext id
  have hlookup : s.segments.lookup id = r.segment? id := h.segment?_eq id
  rw [Finmap.mem_keys, ← Finmap.lookup_isSome, hlookup, List.mem_toFinset, h.live_eq]
  exact hr.isSome_segment?_iff

theorem Indexes.isRing (h : s.Indexes r) (hr : r.Coherent) :
    s.IsRing r.options.segmentCount where
  live_eq := by
    rw [h.live_eq, h.current_eq, h.mediaSequence_eq]
    exact hr.liveIds_eq
  mediaSequence_eq := by
    rw [h.current_eq, h.mediaSequence_eq]
    exact hr.mediaSequence_eq
  keys_eq := h.keys_eq hr
  id_eq _ _ ht := (h.mem_live hr ht).2
  closed_iff id t ht := by
    obtain ⟨hmem, rfl⟩ := h.mem_live hr ht
    rw [h.current_eq]
    exact hr.closed_iff hmem
  part_place id t ht i p hp := by
    obtain ⟨hmem, rfl⟩ := h.mem_live hr ht
    have hpart := (hr.segment_coherent t hmem).part_slot i p hp
    exact ⟨hpart.id_eq, hpart.segment_eq⟩
  part_closed_iff id t ht _ _ hp :=
    (hr.segment_coherent t (h.mem_live hr ht).1).part_closed_iff hp
  duration_eq id t ht := (hr.segment_coherent t (h.mem_live hr ht).1).duration_eq
  part_released_iff id t ht p hp := by
    have hc := hr.segment_coherent t (h.mem_live hr ht).1
    have hslot := h.slot hr ht
    obtain ⟨j, hj⟩ := List.getElem?_of_mem hp
    have hpart := hc.part_slot j p hj
    refine ⟨?_, (hc.part_coherent p hp).entry_eq⟩
    rw [← hslot.videoTimed_eq, ← hslot.partTarget_eq]
    have heq := (hc.part_coherent p hp).closed_eq
    rw [hpart.videoTimed_eq, hpart.target_eq] at heq
    exact heq
  released_iff id t ht := by
    have hc := hr.segment_coherent t (h.mem_live hr ht).1
    have hslot := h.slot hr ht
    constructor
    · rw [← hslot.target_eq]
      show t.isClosed = true ↔ t.current.isClosed = true ∧ t.target.nanos ≤ t.duration.nanos
      rw [hc.closed_eq, Bool.and_eq_true, decide_eq_true_iff]
    · rw [← hc.closedLines_eq, ← hslot.id_eq]
      exact hc.entry_eq
  manifest_eq := by
    rw [h.manifest_eq, hr.manifest_eq, h.render_eq hr.nodup_liveIds]
  writes_to_open := by
    have hpart := hr.current_coherent.current_closed.trans hr.current_open
    refine ⟨r.current, ?_, hr.current_open, hpart⟩
    rw [h.segment?_eq, h.current_eq, hr.segment?_current]

end Ring

/-- **Every reachable rendition is a ring** of as many segments as are retained, at least one. Its
map, queue and numbers lead to the live segments of a `Rendition` that is reachable in the same
way. -/
theorem isRing_of_reachable {format : SourceFormat} {options : Options} {s : IndexedRendition}
    (h : Reachable format options s) :
    s.IsRing (max options.segmentCount 1) ∧
      ∃ r, Rendition.Reachable format options r ∧ s.Indexes r := by
  obtain ⟨r, hr, hsr⟩ := h.exists_indexes
  have hring := hsr.isRing hr.coherent
  rw [hr.options_eq] at hring
  exact ⟨hring, r, hr, hsr⟩

theorem isRing_after_fiveFrames :
    ∃ s, Reachable camera shortest s ∧ s.mediaSequence = 2 ∧ s.IsRing 1 ∧
      ∃ r, Rendition.Reachable camera shortest r ∧ s.Indexes r := by
  obtain ⟨r₀, r, h₀, h, hseq⟩ : ∃ r₀ r, Rendition.new? camera shortest ⟨0, 0⟩ = .ok r₀ ∧
      r₀.writeAll? fiveFrames = some r ∧ r.mediaSequence = 2 := ⟨_, _, rfl, rfl, rfl⟩
  obtain ⟨s, hs, hsr⟩ := exists_of_reachable ⟨_, _, h₀, Rendition.later_of_writeAll? h⟩
  exact ⟨s, hs, hsr.mediaSequence_eq.trans hseq, isRing_of_reachable hs⟩

end IndexedRendition

end LiveHls
