import LiveHls.Proofs.Rendition.AppendOnly

/-!
# Media that has been read does not change

* `Segment.Continues.part?_of_isClosed` : a closed part stays where it is in what becomes of its
  segment;
* `Coherent.segment?_later` : a segment that is not dropped is found again, continued;
* `Coherent.hasClosed_later` : a released latch stays released;
* `Coherent.lookup_later_of_le`, `Coherent.lookup_of_dropped` : the answer of a read is the same
  until its segment is dropped, and that the segment is missing from then on;
* `media_immutable` : so whoever reads later is answered at once with the same bytes, or that they
  are gone.
-/

namespace LiveHls

/-- The segment that a read takes media from. -/
def Read.mediaSegment? : Read → Option Nat
  | .playlist .. => none
  | .segment id => some id
  | .part id _ => some id

namespace Segment

/-! ## Closed parts -/

/-- The closed parts of a segment stand in front. -/
theorem Coherent.closedParts_prefix_parts {s : Segment} (hs : s.Coherent) :
    s.parts.filter (·.isClosed) <+: s.parts := by
  unfold parts
  rw [hs.filter_concat]
  split
  · exact List.prefix_rfl
  · rw [List.append_nil]
    exact List.prefix_append ..

theorem Coherent.getElem?_closedParts {s : Segment} (hs : s.Coherent) {f : Nat} {p : Part}
    (hp : s.part? f = some p) (hc : p.isClosed = true) :
    (s.parts.filter (·.isClosed))[f]? = some p := by
  have hp : s.parts[f]? = some p := hp
  rw [parts, hs.filter_concat] at *
  rcases Nat.lt_trichotomy f s.earlier.length with hf | rfl | hf
  · rw [List.getElem?_append_left hf] at hp ⊢
    exact hp
  · rw [List.getElem?_concat_length] at hp
    cases hp
    rw [hc, if_pos rfl, List.getElem?_concat_length]
  · rw [List.getElem?_eq_none (by simp; omega)] at hp
    cases hp

/-- **A closed part stays where it is.** -/
theorem Continues.part?_of_isClosed {s t : Segment} (h : s.Continues t) (hs : s.Coherent)
    (ht : t.Coherent) {f : Nat} {p : Part} (hp : s.part? f = some p) (hc : p.isClosed = true) :
    t.part? f = some p := by
  have hclosed := hs.getElem?_closedParts hp hc
  have hprefix := h.closedParts_prefix.trans ht.closedParts_prefix_parts
  obtain ⟨hf, hget⟩ := List.getElem?_eq_some_iff.1 hclosed
  show t.parts[f]? = some p
  rw [← hget]
  exact List.prefix_iff_getElem?.1 hprefix f hf

end Segment

namespace Rendition

section Later
variable {r r' : Rendition}

/-! ## Segments that are found again -/

/-- A live segment that has not been dropped since is found again, continued. -/
theorem Coherent.segment?_later (hr : r.Coherent) (h : r.Later r') {id : Nat} {s : Segment}
    (hs : r.segment? id = some s) (hid : r'.mediaSequence ≤ id) :
    ∃ t, r'.segment? id = some t ∧ s.Continues t := by
  have hr' := hr.later h
  obtain ⟨hlive, rfl⟩ := hr.segment?_eq_some_iff.1 hs
  have hle : s.id ≤ r.current.id := (hr.mem_liveIds_iff.1 (List.mem_map_of_mem hlive)).2
  have hcurrent := (hr.parts_le_later h).1
  obtain ⟨t, ht, htid⟩ := List.mem_map.1 (hr'.mem_liveIds_iff.2 ⟨hid, Nat.le_trans hle hcurrent⟩)
  obtain ⟨u, hu, hut⟩ := hr.continues_later h ht (htid ▸ hle)
  have hus : u = s := hr.eq_of_id_eq hu hlive (hut.id_eq.symm.trans htid)
  exact ⟨t, hr'.segment?_eq_some_iff.2 ⟨ht, htid⟩, hus ▸ hut⟩

/-- **A released latch stays released**, whether its segment is still there or has been dropped. -/
theorem Coherent.hasClosed_later (hr : r.Coherent) (h : r.Later r') {a : Awaited}
    (hc : r.hasClosed a = true) : r'.hasClosed a = true := by
  have hr' := hr.later h
  rcases Nat.lt_or_ge a.segmentId r'.mediaSequence with hid | hid
  · exact hr'.hasClosed_of_dropped hid
  cases hs : r.segment? a.segmentId with
  | none =>
    -- what is dropped now is dropped later
    rw [hasClosed_of_missing hs, Bool.and_eq_true, decide_eq_true_iff] at hc
    have hle := hr.mediaSequence_le_later h
    omega
  | some s =>
    obtain ⟨t, ht, hst⟩ := hr.segment?_later h hs hid
    cases a with
    | segment id =>
      have hs : r.segment? id = some s := hs
      have ht : r'.segment? id = some t := ht
      simp only [hasClosed, hs] at hc
      simp only [hasClosed, ht, hst.eq_of_closed hc]
      exact hc
    | part id f =>
      have hs : r.segment? id = some s := hs
      have ht : r'.segment? id = some t := ht
      simp only [hasClosed, hs, Option.any_eq_true] at hc
      obtain ⟨p, hp, hpc⟩ := hc
      have hp := hst.part?_of_isClosed (hr.segment_coherent s (hr.segment?_eq_some_iff.1 hs).1)
        (hr'.segment_coherent t (hr'.segment?_eq_some_iff.1 ht).1) hp hpc
      simp only [hasClosed, ht, hp, Option.any_some]
      exact hpc

/-! ## Answers -/

/-- What packets are made into depends on the tracks of the rendition alone. -/
theorem Coherent.media_later (hr : r.Coherent) (h : r.Later r') (packets : List Packet)
    (sequence : UInt32) : r'.media packets sequence = r.media packets sequence := by
  unfold media
  rw [(hr.frame_later h).2.2]

theorem Coherent.lookup_part_later (hr : r.Coherent) (h : r.Later r') {id f : Nat} {bytes : Bytes}
    (hbytes : r.lookup (.part id f) = .found (.ok (.media bytes)))
    (hid : r'.mediaSequence ≤ id) : r'.lookup (.part id f) = .found (.ok (.media bytes)) := by
  have hin : r.lookup (.part id f) ≠ .found (.error .durationOverflow) := by
    rw [hbytes]
    nofun
  obtain ⟨s, p, hs, hp, hc⟩ := (lookup_part_served_iff hin).1 ⟨bytes, hbytes⟩
  obtain ⟨t, ht, hst⟩ := hr.segment?_later h hs hid
  have hpt : t.part? f = some p :=
    hst.part?_of_isClosed (hr.segment_coherent s (hr.segment?_eq_some_iff.1 hs).1)
      ((hr.later h).segment_coherent t ((hr.later h).segment?_eq_some_iff.1 ht).1) hp hc
  rw [← hbytes]
  simp only [lookup, lookupPart, partAnswer, hs, hp, ht, hpt, hc, if_true, hr.media_later h]

theorem Coherent.lookup_segment_later (hr : r.Coherent) (h : r.Later r') {id : Nat} {bytes : Bytes}
    (hbytes : r.lookup (.segment id) = .found (.ok (.media bytes)))
    (hid : r'.mediaSequence ≤ id) : r'.lookup (.segment id) = .found (.ok (.media bytes)) := by
  have hin : r.lookup (.segment id) ≠ .found (.error .durationOverflow) := by
    rw [hbytes]
    nofun
  obtain ⟨s, hs, hc⟩ := (lookup_segment_served_iff hin).1 ⟨bytes, hbytes⟩
  obtain ⟨t, ht, hst⟩ := hr.segment?_later h hs hid
  obtain rfl := hst.eq_of_closed hc
  rw [← hbytes]
  simp only [lookup, lookupSegment, segmentAnswer, hs, ht, hc, if_true, hr.media_later h]

/-- **The same bytes** are read until their segment is dropped. -/
theorem Coherent.lookup_later_of_le (hr : r.Coherent) (h : r.Later r') {read : Read} {id : Nat}
    (hread : read.mediaSegment? = some id) {bytes : Bytes}
    (hbytes : r.lookup read = .found (.ok (.media bytes))) (hid : r'.mediaSequence ≤ id) :
    r'.lookup read = .found (.ok (.media bytes)) := by
  cases read with
  | playlist => cases hread
  | segment =>
    cases hread
    exact hr.lookup_segment_later h hbytes hid
  | part =>
    cases hread
    exact hr.lookup_part_later h hbytes hid

/-- Nothing is read from a dropped segment. -/
theorem Coherent.lookup_of_dropped (hr : r.Coherent) {read : Read} {id : Nat}
    (hread : read.mediaSegment? = some id) (hid : id < r.mediaSequence) :
    r.lookup read = .found (.error (.error (.notFound "segment" (toString id)))) := by
  cases read with
  | playlist => cases hread
  | segment =>
    cases hread
    simp only [lookup, lookupSegment, segmentAnswer, hr.segment?_of_dropped hid, segmentMissing]
  | part =>
    cases hread
    simp only [lookup, lookupPart, partAnswer, hr.segment?_of_dropped hid, segmentMissing]

end Later

/-- **Media that has been read does not change.** Once a read of a part or a segment has been
answered with bytes, every later reader is answered at once, whatever time it has and even if it is
cancelled or the rendition has been taken down: with the same bytes while the segment is retained,
and that the segment is missing ever after. -/
theorem media_immutable {format : SourceFormat} {options : Options} {r r' : Rendition}
    (h : Reachable format options r) (hlater : r.Later r') {read : Read} {id : Nat}
    (hread : read.mediaSegment? = some id) {bytes : Bytes}
    (hbytes : r.lookup read = .found (.ok (.media bytes))) :
    (∀ now name deadline cancelled, Reader.start r' now name read deadline cancelled =
      .done (if r'.mediaSequence ≤ id then .ok (.media bytes)
        else .error (.error (.notFound "segment" (toString id))))) ∧
    (id < r'.mediaSequence → ∀ r'', r'.Later r'' →
      r''.lookup read = .found (.error (.error (.notFound "segment" (toString id))))) := by
  have hr := h.coherent
  have hr' := hr.later hlater
  constructor
  · intro now name deadline cancelled
    by_cases hid : r'.mediaSequence ≤ id
    · rw [if_pos hid]
      simp only [Reader.start, hr.lookup_later_of_le hlater hread hbytes hid]
    · rw [if_neg hid]
      simp only [Reader.start, hr'.lookup_of_dropped hread (Nat.lt_of_not_le hid)]
  · intro hid r'' hlater'
    have hseq := hr'.mediaSequence_le_later hlater'
    exact (hr'.later hlater').lookup_of_dropped hread (Nat.lt_of_lt_of_le hid hseq)

/-- Four frames with two segments retained, then two more and the end of the rendition: the first
part of the second segment is read as before, the first segment is gone. -/
theorem media_immutable_of_fiveFrames :
    ∃ r r' part segment, Reachable camera { shortest with segmentCount := 2 } r ∧ r.Later r' ∧
      r'.closed = true ∧ r'.mediaSequence = 1 ∧
      r.lookup (.part 1 0) = .found (.ok (.media part)) ∧
      r.lookup (.segment 0) = .found (.ok (.media segment)) ∧
      ∀ now name deadline cancelled,
        Reader.start r' now name (.part 1 0) deadline cancelled = .done (.ok (.media part)) ∧
        Reader.start r' now name (.segment 0) deadline cancelled =
          .done (.error (.error (.notFound "segment" (toString 0)))) := by
  obtain ⟨r₀, r, r₁, part, segment, h₀, h, h', hseq, hpart, hsegment⟩ :
      ∃ r₀ r r₁ part segment,
        new? camera { shortest with segmentCount := 2 } ⟨0, 0⟩ = .ok r₀ ∧
        r₀.writeAll? (fiveFrames.take 4) = some r ∧ r.writeAll? (fiveFrames.drop 4) = some r₁ ∧
        r₁.mediaSequence = 1 ∧ r.lookup (.part 1 0) = .found (.ok (.media part)) ∧
        r.lookup (.segment 0) = .found (.ok (.media segment)) :=
    ⟨_, _, _, _, _, rfl, rfl, rfl, rfl, rfl, rfl⟩
  have hr : Reachable camera { shortest with segmentCount := 2 } r :=
    ⟨_, _, h₀, later_of_writeAll? h⟩
  have hlater : r.Later r₁.close := (later_of_writeAll? h').tail .close
  have hseq' : r₁.close.mediaSequence = 1 := hseq
  have hkept := (media_immutable hr hlater rfl hpart).1
  have hgone := (media_immutable hr hlater rfl hsegment).1
  rw [hseq'] at hkept hgone
  exact ⟨r, r₁.close, part, segment, hr, hlater, rfl, hseq, hpart, hsegment,
    fun now name deadline cancelled =>
      ⟨hkept now name deadline cancelled, hgone now name deadline cancelled⟩⟩

end Rendition

end LiveHls
