import LiveHls.Proofs.Rendition.Listing

/-!
# Playlists grow at their end

* `Segment.Continues` : what may become of a segment, more closed parts and then nothing;
  `Segment.Continues.listing_prefix` : its listing grows at its end;
* `Coherent.continues_later` : what has become of the segments that are still live;
* `manifest_append_only` : a later playlist lacks the listings of dropped segments, has lines added
  at its end, and is otherwise unchanged.
-/

namespace LiveHls

/-- Concatenations of lists of which the first ones agree and the last one grows. -/
theorem flatMap_prefix {α β : Type} {f : α → List β} {xs ys : List α}
    (h : ∀ i a, xs[i]? = some a →
      ∃ b, ys[i]? = some b ∧ f a <+: f b ∧ (i + 1 < xs.length → f a = f b)) :
    xs.flatMap f <+: ys.flatMap f := by
  induction xs generalizing ys with
  | nil => exact List.nil_prefix
  | cons x xs ih =>
    obtain ⟨b, hb, hgrows, hsame⟩ := h 0 x rfl
    obtain ⟨y, ys, rfl⟩ := List.exists_cons_of_ne_nil (List.ne_nil_of_mem (List.mem_of_getElem? hb))
    obtain rfl : y = b := by simpa using hb
    rw [List.flatMap_cons, List.flatMap_cons]
    cases xs with
    | nil =>
      rw [List.flatMap_nil, List.append_nil]
      exact hgrows.trans (List.prefix_append ..)
    | cons x' xs =>
      rw [hsame (by simp)]
      refine (List.prefix_append_right_inj _).2 (ih fun i a ha => ?_)
      obtain ⟨b, hb, hgrows, hsame⟩ := h (i + 1) a (by simpa using ha)
      exact ⟨b, by simpa using hb, hgrows, fun hi => hsame (Nat.succ_lt_succ hi)⟩

namespace Segment

/-- `t` is what has become of `s`: its closed parts are still there, in front, and a closed segment
has not changed. -/
structure Continues (s t : Segment) : Prop where
  id_eq : t.id = s.id
  closedParts_prefix : s.parts.filter (·.isClosed) <+: t.parts.filter (·.isClosed)
  eq_of_closed : s.isClosed = true → t = s

theorem Continues.refl (s : Segment) : s.Continues s := ⟨rfl, List.prefix_rfl, fun _ => rfl⟩

theorem Continues.trans {s t u : Segment} (h₁ : s.Continues t) (h₂ : t.Continues u) :
    s.Continues u where
  id_eq := h₂.id_eq.trans h₁.id_eq
  closedParts_prefix := h₁.closedParts_prefix.trans h₂.closedParts_prefix
  eq_of_closed hc := by
    obtain rfl := h₁.eq_of_closed hc
    exact h₂.eq_of_closed hc

/-- **The listing of a segment grows at its end.** -/
theorem Continues.listing_prefix {s t : Segment} (h : s.Continues t) : s.listing <+: t.listing := by
  cases hc : s.isClosed with
  | true =>
    exact h.eq_of_closed hc ▸ List.prefix_rfl
  | false =>
    simp only [listing, hc, h.id_eq, Bool.false_eq_true, if_false, List.append_nil]
    exact (h.closedParts_prefix.map _).trans (List.prefix_append ..)

theorem Written.continues {s t : Segment} {x : Packet} {progress : Progress}
    (hw : s.Written x t progress) (hs : s.Coherent) (hopen : s.isClosed = false) :
    s.Continues t := by
  refine ⟨hw.frame.1, ?_, fun hc => by rw [hopen] at hc; cases hc⟩
  have hconcat : ∀ q : Part, s.earlier <+: (s.earlier ++ [q]).filter (·.isClosed) := fun q => by
    rw [hs.filter_concat]
    exact List.prefix_append ..
  rw [hs.filter_parts hopen]
  cases hw with
  | extended => exact hconcat _
  | finished => exact hconcat _
  | @continued q total =>
    show s.earlier <+: (s.earlier ++ [q] ++ [_]).filter _
    rw [List.filter_append]
    exact (hconcat q).trans (List.prefix_append ..)

end Segment

namespace Rendition

section Later
variable {r r' : Rendition}

/-- A segment after a write is new or has come of one before it. -/
theorem Written.continues {x : Packet} {now : Instant} {result : Except Fault Unit}
    (hw : r.Written x now r' result) (hr : r.Coherent) {t : Segment} (ht : t ∈ r'.live)
    (hid : t.id ≤ r.current.id) : ∃ s ∈ r.live, s.Continues t := by
  rcases hw.live_cases hr ht with ht | ⟨progress, hwritten⟩ | rfl
  · exact ⟨t, ht, .refl t⟩
  · exact ⟨r.current, r.current_mem_live, hwritten.continues hr.current_coherent hr.current_open⟩
  · exact absurd hid (Nat.not_succ_le_self _)

/-- **What has become of live segments**: a segment that is live later is new or has come of one
that is live now. -/
theorem Coherent.continues_later (hr : r.Coherent) (h : r.Later r') {t : Segment}
    (ht : t ∈ r'.live) (hid : t.id ≤ r.current.id) : ∃ s ∈ r.live, s.Continues t := by
  induction h generalizing t with
  | refl => exact ⟨t, ht, .refl t⟩
  | tail hprev hstep ih =>
    have hr' := hr.later hprev
    cases hstep with
    | close => exact ih ht hid
    | write x now hin =>
      have hle := (hr.parts_le_later hprev).1
      obtain ⟨u, hu, hut⟩ := (hr'.write x now hin).continues hr' ht (Nat.le_trans hid hle)
      obtain ⟨s, hs, hsu⟩ := ih hu (hut.id_eq ▸ hid)
      exact ⟨s, hs, hsu.trans hut⟩

theorem Written.mediaSequence_le {x : Packet} {now : Instant} {result : Except Fault Unit}
    (hw : r.Written x now r' result) : r.mediaSequence ≤ r'.mediaSequence := by
  cases hw with
  | refused => exact Nat.le_refl _
  | extended => exact Nat.le_refl _
  | replaced =>
    rw [mediaSequence_replace]
    exact Nat.le_add_right ..

theorem Coherent.mediaSequence_le_later (hr : r.Coherent) (h : r.Later r') :
    r.mediaSequence ≤ r'.mediaSequence := by
  induction h with
  | refl => exact Nat.le_refl _
  | tail hprev hstep ih =>
    cases hstep with
    | close => exact ih
    | write x now hin => exact Nat.le_trans ih ((hr.later hprev).write x now hin).mediaSequence_le

theorem Coherent.mem_liveIds_iff (hr : r.Coherent) {id : Nat} :
    id ∈ r.liveIds ↔ r.mediaSequence ≤ id ∧ id ≤ r.current.id := by
  rw [hr.liveIds_eq, List.mem_range'_1]
  omega

/-- Live segments with the same number are the same. -/
theorem Coherent.eq_of_id_eq (hr : r.Coherent) {s t : Segment} (hs : s ∈ r.live) (ht : t ∈ r.live)
    (hid : s.id = t.id) : s = t :=
  Option.some.inj
    ((hr.segment?_eq_some_iff.2 ⟨hs, hid⟩).symm.trans (hr.segment?_eq_some_iff.2 ⟨ht, rfl⟩))

/-- The segments behind the dropped ones stand first among the later live ones. -/
theorem Coherent.getElem?_drop_continues (hr : r.Coherent) (h : r.Later r') {i : Nat} {s : Segment}
    (hs : (r.live.drop (r'.mediaSequence - r.mediaSequence))[i]? = some s) :
    ∃ t, r'.live[i]? = some t ∧ s.Continues t := by
  have hr' := hr.later h
  rw [List.getElem?_drop] at hs
  have hlt := (List.getElem?_eq_some_iff.1 hs).1
  have hid := (hr.segment_slot _ s hs).id_eq
  have hseq := hr.mediaSequence_le_later h
  have hle := (hr.parts_le_later h).1
  have hcurrent := hr.current_id
  have hi : i < r'.live.length := by
    have := hr'.current_id
    omega
  have ht := List.getElem?_eq_getElem hi
  have htid := (hr'.segment_slot i _ ht).id_eq
  obtain ⟨u, hu, hut⟩ := hr.continues_later h (List.getElem_mem hi) (by omega)
  have hus : u = s := hr.eq_of_id_eq hu (List.mem_of_getElem? hs) (by rw [← hut.id_eq]; omega)
  exact ⟨_, ht, hus ▸ hut⟩

/-- **The listings behind those of dropped segments** stay in front of the later ones. -/
theorem Coherent.listings_prefix (hr : r.Coherent) (h : r.Later r') :
    (r.live.drop (r'.mediaSequence - r.mediaSequence)).flatMap Segment.listing <+:
      r'.live.flatMap Segment.listing := by
  refine flatMap_prefix fun i s hs => ?_
  obtain ⟨t, ht, hst⟩ := hr.getElem?_drop_continues h hs
  refine ⟨t, ht, hst.listing_prefix, fun hi => ?_⟩
  -- only the current segment is open, and it is the last
  rw [List.getElem?_drop] at hs
  rw [List.length_drop] at hi
  have hid := (hr.segment_slot _ s hs).id_eq
  have hcurrent := hr.current_id
  rw [hst.eq_of_closed ((hr.closed_iff (List.mem_of_getElem? hs)).2 (by omega))]

end Later

/-- **Playlists grow at their end.** Of the listings in a playlist a later one lacks those of the
segments dropped in between, which stand in front; the others are there, unchanged and in order, and
lines are added behind them. -/
theorem manifest_append_only {format : SourceFormat} {options : Options} {r r' : Rendition}
    (h : Reachable format options r) (hlater : r.Later r') :
    r.mediaSequence ≤ r'.mediaSequence ∧ ∃ dropped kept appended,
      r.live = dropped ++ kept ∧ (∀ s ∈ dropped, s.id ∉ r'.liveIds) ∧
      (∀ s ∈ kept, s.id ∈ r'.liveIds) ∧
      r.manifest =
        Playlist.header r.options.segmentDuration r.options.partTarget r.mediaSequence ++
          (dropped.flatMap Segment.listing ++ kept.flatMap Segment.listing) ++
            [.preloadHint r.current.id r.current.current.id] ∧
      r'.manifest =
        Playlist.header r.options.segmentDuration r.options.partTarget r'.mediaSequence ++
          (kept.flatMap Segment.listing ++ appended) ++
            [.preloadHint r'.current.id r'.current.current.id] := by
  have hr := h.coherent
  have hr' := hr.later hlater
  have hseq := hr.mediaSequence_le_later hlater
  obtain ⟨appended, happended⟩ := hr.listings_prefix hlater
  refine ⟨hseq, r.live.take (r'.mediaSequence - r.mediaSequence),
    r.live.drop (r'.mediaSequence - r.mediaSequence), appended, (List.take_append_drop ..).symm,
    ?_, ?_, ?_, ?_⟩
  · intro s hs
    obtain ⟨i, hi⟩ := List.getElem?_of_mem hs
    rw [List.getElem?_take] at hi
    split at hi
    · rw [hr'.mem_liveIds_iff, (hr.segment_slot i s hi).id_eq]
      omega
    · cases hi
  · intro s hs
    obtain ⟨i, hi⟩ := List.getElem?_of_mem hs
    obtain ⟨t, ht, hst⟩ := hr.getElem?_drop_continues hlater hi
    rw [← hst.id_eq]
    exact List.mem_map_of_mem (List.mem_of_getElem? ht)
  · rw [← List.flatMap_append, List.take_append_drop]
    exact hr.manifest_eq_listings
  · rw [happended, ← (hr.frame_later hlater).2.1]
    exact hr'.manifest_eq_listings

/-- Five frames with two segments retained: the first segment is dropped, the second goes on, and
the third is added. -/
theorem manifest_append_only_of_fiveFrames :
    ∃ r r', Reachable camera { shortest with segmentCount := 2 } r ∧ r.Later r' ∧
      r.liveIds = [0, 1] ∧ r'.liveIds = [1, 2] ∧ ∃ dropped kept appended,
        r.live = dropped ++ kept ∧ (∀ s ∈ dropped, s.id ∉ [1, 2]) ∧ (∀ s ∈ kept, s.id ∈ [1, 2]) ∧
        r'.manifest =
          Playlist.header r.options.segmentDuration r.options.partTarget r'.mediaSequence ++
            (kept.flatMap Segment.listing ++ appended) ++
              [.preloadHint r'.current.id r'.current.current.id] := by
  obtain ⟨r₀, r, r', h₀, h, h', hids, hids'⟩ : ∃ r₀ r r',
      new? camera { shortest with segmentCount := 2 } ⟨0, 0⟩ = .ok r₀ ∧
      r₀.writeAll? (fiveFrames.take 4) = some r ∧ r.writeAll? (fiveFrames.drop 4) = some r' ∧
      r.liveIds = [0, 1] ∧ r'.liveIds = [1, 2] :=
    ⟨_, _, _, rfl, rfl, rfl, rfl, rfl⟩
  have hr : Reachable camera { shortest with segmentCount := 2 } r :=
    ⟨_, _, h₀, later_of_writeAll? h⟩
  have hlater := later_of_writeAll? h'
  obtain ⟨-, dropped, kept, appended, hlive, hdropped, hkept, -, hmanifest⟩ :=
    manifest_append_only hr hlater
  rw [hids'] at hdropped hkept
  exact ⟨r, r', hr, hlater, hids, hids', dropped, kept, appended, hlive, hdropped, hkept, hmanifest⟩

end Rendition

end LiveHls
