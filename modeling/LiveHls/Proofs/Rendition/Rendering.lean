import LiveHls.Proofs.Rendition.SegmentMedia

/-!
# Whether accepted packets can be read

Parts count durations when packets are written, tracks when they are rendered, and the two do not
count the same: beside video, sound is counted by its track alone.

* `nanosOf_le_countedNanos` : the track that decides where parts end has counted packets only;
* `Part.Coherent.counted_lt`, `Segment.Coherent.counted_lt` : what a closed part or segment counts
  is in range;
* `SourceFormat.SoundFits`, `fits_iff_soundFits` : so only sound beside video can be too long;
* `Reachable.lookup_segment_of_closed`, `Reachable.lookup_part_of_closed` : how reads of closed
  media are answered;
* `closed_media_is_read` : closed media are read exactly if their sound is not too long;
  `accepted_sound_is_not_read` : sound that was accepted and cannot be read.
-/

namespace LiveHls

open Mp4.Muxer (nanosOf)

/-! ## Counted packets -/

/-- Where there is a video track, video packets count, else sound does. -/
theorem nanosOf_le_countedNanos (hasVideo : Bool) (xs : List Packet) :
    nanosOf hasVideo xs ≤ countedNanos hasVideo xs := by
  unfold nanosOf countedNanos
  refine (List.Sublist.map _ (List.monotone_filter_right xs fun x hx => ?_)).sum_le_sum
    fun _ _ => Nat.zero_le _
  rw [beq_iff_eq] at hx
  rw [countsIn, hx]
  cases hasVideo <;> rfl

theorem countedNanos_flatMap (v : Bool) (parts : List Part) :
    countedNanos v (parts.flatMap (·.packets)) =
      (parts.map fun p => countedNanos v p.packets).sum := by
  induction parts with
  | nil => rfl
  | cons p rest ih => rw [List.flatMap_cons, countedNanos_append, ih, List.map_cons, List.sum_cons]

/-- What a part counts is in range. -/
theorem Part.Coherent.counted_lt {p : Part} (hp : p.Coherent) :
    countedNanos p.videoTimed p.packets < UInt64.size * nanosPerSecond := by
  rw [← hp.duration_eq]
  exact p.duration.bounded

namespace Segment

theorem Coherent.videoTimed_eq {s : Segment} (hs : s.Coherent) {p : Part} (hp : p ∈ s.parts) :
    p.videoTimed = s.videoTimed := by
  obtain ⟨i, hi⟩ := List.getElem?_of_mem hp
  exact (hs.part_slot i p hi).videoTimed_eq

/-- A closed segment lasts as long as its packets that count. -/
theorem Coherent.duration_eq_counted {s : Segment} (hs : s.Coherent) (hc : s.isClosed = true) :
    s.duration.nanos = countedNanos s.videoTimed s.packets := by
  rw [hs.duration_eq, hs.filter_parts_of_closed hc, packets, countedNanos_flatMap]
  congr 1
  refine List.map_congr_left fun p hp => ?_
  rw [(hs.part_coherent p hp).duration_eq, hs.videoTimed_eq hp]

/-- What a closed segment counts is in range. -/
theorem Coherent.counted_lt {s : Segment} (hs : s.Coherent) (hc : s.isClosed = true) :
    countedNanos s.videoTimed s.packets < UInt64.size * nanosPerSecond := by
  rw [← hs.duration_eq_counted hc]
  exact s.duration.bounded

end Segment

/-! ## Sound -/

/-- The sound in a source with video, which no part counts, has a duration in range. -/
def SourceFormat.SoundFits (format : SourceFormat) (packets : List Packet) : Prop :=
  format.video.isSome = true → nanosOf false packets < UInt64.size * nanosPerSecond

instance (format : SourceFormat) (packets : List Packet) : Decidable (format.SoundFits packets) :=
  inferInstanceAs (Decidable (_ → _))

namespace Rendition

section Rendering
variable {format : SourceFormat} {options : Options} {r : Rendition} {packets : List Packet}

/-- **Only sound beside video can be too long** for its track, if the packets that count are not
too long for their part or segment. -/
theorem fits_iff_soundFits (h₀ : Mp4.Muxer.ofFormat? format = .ok r.layout)
    (hp : ∀ x ∈ packets, r.layout.accepts x = true)
    (hcounted : countedNanos r.layout.hasVideo packets < UInt64.size * nanosPerSecond) :
    r.layout.Fits packets ↔ format.SoundFits packets := by
  have hvideo := Mp4.Muxer.hasVideo_of_ofFormat? h₀
  have htimed := Nat.lt_of_le_of_lt (nanosOf_le_countedNanos r.layout.hasVideo packets) hcounted
  constructor
  · intro hfits _
    by_cases htrack : (r.layout.trackOf false).isSome
    · exact hfits false htrack
    · -- without a track for it no sound was accepted
      have hnone : packets.filter (·.isVideo == false) = [] := by
        rw [List.filter_eq_nil_iff]
        intro x hx hsound
        have haccepts := hp x hx
        rw [Mp4.Muxer.accepts_eq, beq_iff_eq.1 hsound] at haccepts
        exact htrack haccepts
      rw [nanosOf, hnone]
      decide
  · intro hsound v htrack
    cases v with
    | true =>
      have hv : r.layout.hasVideo = true := htrack
      rwa [hv] at htimed
    | false =>
      cases hv : r.layout.hasVideo with
      | true => exact hsound (hvideo.symm.trans hv)
      | false => rwa [hv] at htimed

/-- Packets that counted in range are rendered, or their sound is too long. -/
theorem media_eq_ite (h₀ : Mp4.Muxer.ofFormat? format = .ok r.layout)
    (hp : ∀ x ∈ packets, r.layout.accepts x = true)
    (hcounted : countedNanos r.layout.hasVideo packets < UInt64.size * nanosPerSecond)
    (sequence : UInt32) :
    r.media packets sequence =
      if format.SoundFits packets then .ok (.media (r.bytesOf packets sequence))
      else .error .durationOverflow := by
  have hiff := fits_iff_soundFits h₀ hp hcounted
  split
  · rename_i hsound
    exact media_eq_bytesOf h₀ hp (hiff.2 hsound) sequence
  · rename_i hsound
    exact Decidable.byContradiction fun hne => hsound (hiff.1 (fits_of_media_ne h₀ hp hne))

/-! ## Closed media -/

/-- How a read of a closed live segment is answered. -/
theorem Reachable.lookup_segment_of_closed (h : Reachable format options r) {s : Segment}
    (hs : s ∈ r.live) (hc : s.isClosed = true) :
    r.lookup (.segment s.id) = .found
      (if format.SoundFits s.packets then .ok (.media (r.bytesOf s.packets (sequenceNumber s.id 0)))
      else .error .durationOverflow) := by
  have hr := h.coherent
  have hsegment := hr.segment?_eq_some_iff.2 ⟨hs, rfl⟩
  have hcounted := (hr.segment_coherent s hs).counted_lt hc
  rw [(hr.slot_of_mem hs).videoTimed_eq] at hcounted
  rw [← media_eq_ite h.ofFormat?_eq (fun x hx => (h.carries s hs x hx).1) hcounted]
  simp only [lookup, lookupSegment, segmentAnswer, hsegment, hc, if_true]

/-- How a read of a closed part of a live segment is answered. -/
theorem Reachable.lookup_part_of_closed (h : Reachable format options r) {s : Segment}
    (hs : s ∈ r.live) {i : Nat} {p : Part} (hp : s.part? i = some p) (hc : p.isClosed = true) :
    r.lookup (.part s.id i) = .found
      (if format.SoundFits p.packets then .ok (.media (r.bytesOf p.packets (sequenceNumber s.id i)))
      else .error .durationOverflow) := by
  have hr := h.coherent
  have hsegment := hr.segment?_eq_some_iff.2 ⟨hs, rfl⟩
  have hcoherent := hr.segment_coherent s hs
  have hmem : p ∈ s.parts := List.mem_of_getElem? hp
  have hcounted := (hcoherent.part_coherent p hmem).counted_lt
  rw [hcoherent.videoTimed_eq hmem, (hr.slot_of_mem hs).videoTimed_eq] at hcounted
  have haccepts : ∀ x ∈ p.packets, r.layout.accepts x = true := fun x hx =>
    (h.carries s hs x ((Segment.packets_sublist hmem).subset hx)).1
  rw [← media_eq_ite h.ofFormat?_eq haccepts hcounted]
  simp only [lookup, lookupPart, partAnswer, hsegment, hp, hc, if_true]

end Rendering

/-- **Closed media are read exactly if their sound is not too long.** Whatever was accepted, a read
of a closed live segment, or of a closed part in a live segment, is answered with the bytes of its
packets, unless there is video beside the sound and the durations of the sound have no sum. -/
theorem closed_media_is_read {format : SourceFormat} {options : Options} {r : Rendition}
    (h : Reachable format options r) {s : Segment} (hs : s ∈ r.live) :
    (s.isClosed = true → r.lookup (.segment s.id) = .found
      (if format.SoundFits s.packets then .ok (.media (r.bytesOf s.packets (sequenceNumber s.id 0)))
      else .error .durationOverflow)) ∧
    ∀ i p, s.part? i = some p → p.isClosed = true → r.lookup (.part s.id i) = .found
      (if format.SoundFits p.packets then .ok (.media (r.bytesOf p.packets (sequenceNumber s.id i)))
      else .error .durationOverflow) :=
  ⟨h.lookup_segment_of_closed hs, fun _ _ => h.lookup_part_of_closed hs⟩

/-! ### Sound that is too long -/

/-- Sound of as many seconds as a duration can have. -/
def endlessSound : Packet :=
  { audioFrame with duration := .ofSeconds (.ofNat (UInt64.size - 1)) }

/-- Two frames of endless sound and two of video are accepted, and a segment and its first part
close with them. Both are listed and live, and neither can be read. -/
theorem accepted_sound_is_not_read : ∃ r₀ r₁ r₂ r₃ r₄,
    new? studio { shortest with segmentCount := 2 } ⟨0, 0⟩ = .ok r₀ ∧
    r₀.write endlessSound ⟨0, 0⟩ = (r₁, .ok ()) ∧ r₁.write endlessSound ⟨0, 0⟩ = (r₂, .ok ()) ∧
    r₂.write (cameraFrame true) ⟨0, 0⟩ = (r₃, .ok ()) ∧
    r₃.write (cameraFrame false) ⟨0, 0⟩ = (r₄, .ok ()) ∧
    r₄.liveIds = [0, 1] ∧ (r₄.segment? 0).map (·.isClosed) = some true ∧
    r₄.lookup (.segment 0) = .found (.error .durationOverflow) ∧
    r₄.lookup (.part 0 0) = .found (.error .durationOverflow) :=
  ⟨_, _, _, _, _, rfl, rfl, rfl, rfl, rfl, rfl, rfl, rfl, rfl⟩

/-- A segment with sound of a usual length is read, and so is its second part. -/
theorem closed_media_is_read_of_soundAndPictures :
    ∃ r s p, Reachable studio { shortest with segmentCount := 2 } r ∧ s ∈ r.live ∧ s.id = 0 ∧
      s.isClosed = true ∧ s.part? 1 = some p ∧ p.isClosed = true ∧
      studio.SoundFits s.packets ∧ studio.SoundFits p.packets ∧
      r.lookup (.segment 0) = .found (.ok (.media (r.bytesOf s.packets (sequenceNumber 0 0)))) ∧
      r.lookup (.part 0 1) = .found (.ok (.media (r.bytesOf p.packets (sequenceNumber 0 1)))) := by
  obtain ⟨r₀, r, s, p, h₀, h, hs, hid, hc, hp, hpc, hsound, hpartSound⟩ :
      ∃ r₀ r s p, new? studio { shortest with segmentCount := 2 } ⟨0, 0⟩ = .ok r₀ ∧
        r₀.writeAll? soundAndPictures = some r ∧ r.live.head? = some s ∧ s.id = 0 ∧
        s.isClosed = true ∧ s.part? 1 = some p ∧ p.isClosed = true ∧
        studio.SoundFits s.packets ∧ studio.SoundFits p.packets :=
    ⟨_, _, _, _, rfl, rfl, rfl, rfl, rfl, rfl, rfl, by decide, by decide⟩
  have hr : Reachable studio { shortest with segmentCount := 2 } r :=
    ⟨_, _, h₀, later_of_writeAll? h⟩
  have hs := List.mem_of_mem_head? hs
  obtain ⟨hsegment, hparts⟩ := closed_media_is_read hr hs
  have hsegment := hsegment hc
  have hpart := hparts 1 p hp hpc
  rw [hid, if_pos hsound] at hsegment
  rw [hid, if_pos hpartSound] at hpart
  exact ⟨r, s, p, hr, hs, hid, hc, hp, hpc, hsound, hpartSound, hsegment, hpart⟩

end Rendition

end LiveHls
