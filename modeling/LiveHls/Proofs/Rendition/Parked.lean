import LiveHls.Proofs.Rendition.Immutable
import LiveHls.Proofs.Rendition.Rendering

/-!
# Readers that wait for the current segment

The write that closes a segment opens the next one and drops what is beyond the retained number,
all before a reader looks again.

* `Rendition.WaitsUntil` : a read that waits, and how it ends;
* `Coherent.eq_replace_of_hasClosed` : the write that closes the current segment;
  `mem_live_replace`, `Coherent.lt_mediaSequence_replace` : the segment stays if more than it is
  retained, else it is dropped at once;
* `Reachable.waitsUntil_of_closed`, `Coherent.waitsUntil_of_dropped` : what its readers get then;
* `parked_reader_is_answered` : so a reader that waited for it, or for a part of it, has the media
  in the one case and nothing in the other.
-/

namespace LiveHls

theorem SourceFormat.SoundFits.sublist {format : SourceFormat} {xs ys : List Packet}
    (h : format.SoundFits ys) (hxs : xs.Sublist ys) : format.SoundFits xs := fun hvideo =>
  Nat.lt_of_le_of_lt
    (((hxs.filter _).map _).sum_le_sum fun _ _ => Nat.zero_le _) (h hvideo)

namespace Rendition

/-- Whoever starts to read in `r` and has time waits, and ends with `result` when polled in `r'`,
whatever the time is by then. -/
def WaitsUntil (r : Rendition) (read : Read) (r' : Rendition) (result : Except Fault Body) : Prop :=
  ∀ now name (deadline : Deadline), deadline.hasPassed now = false →
    ∃ w, Reader.start r now name read deadline false = .waiting w ∧
      ∀ later, w.poll r' later = .done result

section Parked
variable {r r' : Rendition} {x : Packet} {now : Instant} {t : Segment}

theorem waitsUntil_of_lookup {read : Read} {a : Awaited} {result : Except Fault Body}
    (hopen : r.closed = false) (ha : r.lookup read = .awaits a) (hc : r'.hasClosed a = true)
    (hfound : r'.lookup read = .found result) : r.WaitsUntil read r' result := by
  intro now name deadline htime
  refine ⟨⟨name, read, a, deadline, false⟩, ?_, fun later => ?_⟩
  · simp only [Reader.start, ha, Reader.wait, hopen, htime, Bool.false_eq_true, if_false]
  · simp only [Reader.poll, Bool.not_false, Bool.true_and, hc, if_true, hfound]

/-! ## The write that closes the current segment -/

theorem Coherent.hasClosed_current (hr : r.Coherent) :
    r.hasClosed (.segment r.current.id) = false := by
  simp only [hasClosed, hr.segment?_current]
  exact hr.current_open

/-- A write that closes the current segment replaces it. -/
theorem Coherent.eq_replace_of_hasClosed (hr : r.Coherent) (hin : r.overflows x now = false)
    (hc : (r.write x now).1.hasClosed (.segment r.current.id) = true) :
    ∃ t, r.current.Written (fold x) t .closed ∧ (r.write x now).1 = r.replace t now := by
  have hw := hr.write x now hin
  have hr' := hw.coherent hr
  generalize (r.write x now).1 = r' at hw hr' hc
  generalize (r.write x now).2 = result at hw
  cases hw with
  | refused =>
    rw [hr.hasClosed_current] at hc
    cases hc
  | @extended t _ ht =>
    have hid : (r.extend t).current.id = r.current.id := ht.frame.1
    rw [← hid, hr'.hasClosed_current] at hc
    cases hc
  | replaced _ ht => exact ⟨_, ht, rfl⟩

/-- The closed segment is still live if it is not the only one that is retained. -/
theorem mem_live_replace (hcount : 2 ≤ r.options.segmentCount) : t ∈ (r.replace t now).live := by
  have hle : r.excess ≤ r.earlier.length := by
    simp only [excess, live, List.length_append, List.length_singleton]
    omega
  refine List.mem_append_left _ ?_
  rw [earlier_replace, List.drop_append_of_le_length hle]
  exact List.mem_append_right _ (List.mem_singleton_self t)

/-- The closed segment is dropped at once if no other is retained. -/
theorem Coherent.lt_mediaSequence_replace (hr : r.Coherent)
    (ht : r.current.Written (fold x) t .closed) (hcount : r.options.segmentCount = 1) :
    r.current.id < (r.replace t now).mediaSequence := by
  have hoptions : (r.replace t now).options = r.options := rfl
  have hid : (r.replace t now).current.id = r.current.id + 1 := congrArg (· + 1) ht.frame.1
  rw [(hr.replace ht).mediaSequence_eq, hoptions, hcount, hid]
  omega

/-! ## Readers -/

/-- The latch that a reader of the current segment, or of its current part, waits on is released
once another segment is current. -/
theorem Coherent.waitsUntil_segment (hr : r.Coherent) (hopen : r.closed = false) (h : r.Later r')
    (hid : r.current.id ≠ r'.current.id) {result : Except Fault Body}
    (hfound : r'.lookup (.segment r.current.id) = .found result) :
    r.WaitsUntil (.segment r.current.id) r' result := by
  have ha : r.lookup (.segment r.current.id) = .awaits _ := hr.lookup_of_awaitedAt (if_pos rfl)
  refine waitsUntil_of_lookup hopen ha ?_ hfound
  exact Bool.of_not_eq_false fun hc => hid (hr.current_of_hasClosed_segment h hc).symm

theorem Coherent.waitsUntil_part (hr : r.Coherent) (hopen : r.closed = false) (h : r.Later r')
    (hid : r.current.id ≠ r'.current.id) {result : Except Fault Body}
    (hfound : r'.lookup (.part r.current.id r.current.current.id) = .found result) :
    r.WaitsUntil (.part r.current.id r.current.current.id) r' result := by
  have ha : r.lookup (.part r.current.id r.current.current.id) = .awaits _ :=
    hr.lookup_of_awaitedAt (if_pos ⟨rfl, Nat.le_refl _⟩)
  refine waitsUntil_of_lookup hopen ha ?_ hfound
  exact Bool.of_not_eq_false fun hc => hid (hr.current_of_hasClosed_part h hc).1.symm

/-- A part of the current segment is still there when the segment has closed, and has closed too. -/
theorem Coherent.exists_part_of_later (hr : r.Coherent) (h : r.Later r') (ht : t ∈ r'.live)
    (hid : t.id = r.current.id) (hc : t.isClosed = true) :
    ∃ p, t.part? r.current.current.id = some p ∧ p.isClosed = true := by
  have hlength := (hr.parts_le_later h).2 t ht hid
  rw [hr.current_part_id] at hlength
  have hp := List.getElem?_eq_getElem (Nat.lt_of_succ_le hlength)
  exact ⟨_, hp, (((hr.later h).segment_coherent t ht).part_closed_iff hp).2 (Or.inr hc)⟩

/-- Readers of a segment that has closed since, and is still live, have its media. -/
theorem Reachable.waitsUntil_of_closed {format : SourceFormat} {options : Options}
    (h : Reachable format options r) (hopen : r.closed = false) (hlater : r.Later r')
    (ht : t ∈ r'.live) (hid : t.id = r.current.id) (hc : t.isClosed = true)
    (hsound : format.SoundFits t.packets) :
    r.WaitsUntil (.segment r.current.id) r'
      (.ok (.media (r'.bytesOf t.packets (sequenceNumber t.id 0)))) ∧
    ∃ p, t.part? r.current.current.id = some p ∧
      r.WaitsUntil (.part r.current.id r.current.current.id) r'
        (.ok (.media (r'.bytesOf p.packets (sequenceNumber t.id r.current.current.id)))) := by
  have hr := h.coherent
  have h' := h.later hlater
  have hne : t.id ≠ r'.current.id := (h'.coherent.closed_iff ht).1 hc
  obtain ⟨p, hp, hpc⟩ := hr.exists_part_of_later hlater ht hid hc
  -- sound that is short enough for the segment is short enough for the part
  have hpartSound := hsound.sublist (Segment.packets_sublist (List.mem_of_getElem? hp))
  have hsegment := h'.lookup_segment_of_closed ht hc
  have hpart := h'.lookup_part_of_closed ht hp hpc
  rw [if_pos hsound] at hsegment
  rw [if_pos hpartSound] at hpart
  rw [hid] at hne hsegment hpart ⊢
  exact ⟨hr.waitsUntil_segment hopen hlater hne hsegment, p, hp,
    hr.waitsUntil_part hopen hlater hne hpart⟩

/-- Readers of a segment that has been dropped since are told that it is missing. -/
theorem Coherent.waitsUntil_of_dropped (hr : r.Coherent) (hopen : r.closed = false)
    (h : r.Later r') (hdropped : r.current.id < r'.mediaSequence) :
    ∀ read ∈ [.segment r.current.id, .part r.current.id r.current.current.id],
      r.WaitsUntil read r' (.error (.error (.notFound "segment" (toString r.current.id)))) := by
  have hr' := hr.later h
  have hne : r.current.id ≠ r'.current.id := by
    have := hr'.mediaSequence_eq
    have := hr'.retained_pos
    omega
  intro read hread
  rcases List.mem_pair.1 hread with rfl | rfl
  · exact hr.waitsUntil_segment hopen h hne (hr'.lookup_of_dropped rfl hdropped)
  · exact hr.waitsUntil_part hopen h hne (hr'.lookup_of_dropped rfl hdropped)

end Parked

/-- **Who waits for the current segment is answered** by the write that closes it. A reader starts
to wait for the current segment of an open rendition, or for its current part, and packets are
written in range until one of them closes the segment. If two segments or more are retained and the
sound is not too long to be read, the reader then ends with the bytes of that segment or part; if
only one is retained, with the answer that the segment is missing. -/
theorem parked_reader_is_answered {format : SourceFormat} {options : Options} {r r₁ : Rendition}
    (h : Reachable format options r) (hopen : r.closed = false) (hlater : r.Later r₁)
    {x : Packet} {now : Instant} (hin : r₁.overflows x now = false)
    (hwaits : r₁.hasClosed (.segment r.current.id) = false)
    (hcloses : (r₁.write x now).1.hasClosed (.segment r.current.id) = true) :
    let r₂ := (r₁.write x now).1
    (2 ≤ options.segmentCount → ∃ s ∈ r₂.live, s.id = r.current.id ∧ s.isClosed = true ∧
      s.packets = r₁.current.packets ++ [fold x] ∧ (format.SoundFits s.packets →
        r.WaitsUntil (.segment r.current.id) r₂
          (.ok (.media (r₂.bytesOf s.packets (sequenceNumber s.id 0)))) ∧
        ∃ p, s.part? r.current.current.id = some p ∧
          r.WaitsUntil (.part r.current.id r.current.current.id) r₂
            (.ok (.media (r₂.bytesOf p.packets (sequenceNumber s.id r.current.current.id)))))) ∧
    (options.segmentCount < 2 →
      ∀ read ∈ [.segment r.current.id, .part r.current.id r.current.current.id],
        r.WaitsUntil read r₂
          (.error (.error (.notFound "segment" (toString r.current.id))))) := by
  intro r₂
  have hr := h.coherent
  have hr₁ := hr.later hlater
  have hlater₂ : r.Later r₂ := hlater.tail (.write x now hin)
  have hid₁ : r₁.current.id = r.current.id := hr.current_of_hasClosed_segment hlater hwaits
  have hcount : r₁.options.segmentCount = max options.segmentCount 1 := by
    rw [(h.later hlater).options_eq]
  -- the segment is still current, so the write that releases its latch is the one that replaces it
  rw [← hid₁] at hcloses
  obtain ⟨t, ht, hr₂⟩ := hr₁.eq_replace_of_hasClosed hin hcloses
  replace hr₂ : r₂ = r₁.replace t now := hr₂
  constructor
  · intro htwo
    have hlive : t ∈ r₂.live := by
      rw [hr₂]
      exact mem_live_replace (by omega)
    have hid : t.id = r.current.id := ht.frame.1.trans hid₁
    have hc : t.isClosed = true := ht.isClosed_eq hr₁.current_open
    exact ⟨t, hlive, hid, hc, ht.packets_eq, h.waitsUntil_of_closed hopen hlater₂ hlive hid hc⟩
  · intro hone
    have hdropped : r.current.id < r₂.mediaSequence := by
      rw [hr₂, ← hid₁]
      exact hr₁.lt_mediaSequence_replace ht (by omega)
    exact hr.waitsUntil_of_dropped hopen hlater₂ hdropped

/-- With one segment retained, readers of the first segment and of its second part wait after one
frame. The next frame closes both, and both readers are told that the segment is missing. -/
theorem sole_segment_is_missed : ∃ r₀ r r',
    new? camera { shortest with segmentCount := 1 } ⟨0, 0⟩ = .ok r₀ ∧
    r₀.write (cameraFrame true) ⟨0, 0⟩ = (r, .ok ()) ∧ r.closed = false ∧
    r.current.id = 0 ∧ r.current.current.id = 1 ∧
    r.write (cameraFrame false) ⟨0, 0⟩ = (r', .ok ()) ∧
    r.hasClosed (.segment 0) = false ∧ r'.hasClosed (.segment 0) = true ∧
    r.WaitsUntil (.segment 0) r' (.error (.error (.notFound "segment" "0"))) ∧
    r.WaitsUntil (.part 0 1) r' (.error (.error (.notFound "segment" "0"))) :=
  ⟨_, _, _, rfl, rfl, rfl, rfl, rfl, rfl, rfl, rfl, waitsUntil_of_lookup rfl rfl rfl rfl,
    waitsUntil_of_lookup rfl rfl rfl rfl⟩

/-- With two segments retained, readers of the first segment and of its second part wait after one
frame and have their bytes after the next. -/
theorem parked_reader_is_answered_of_twoFrames :
    ∃ r r' s p, Reachable camera { shortest with segmentCount := 2 } r ∧ r.closed = false ∧
      r.Later r' ∧ s ∈ r'.live ∧ s.id = 0 ∧ s.isClosed = true ∧ s.packets.length = 2 ∧
      s.part? 1 = some p ∧
      r.WaitsUntil (.segment 0) r' (.ok (.media (r'.bytesOf s.packets (sequenceNumber s.id 0)))) ∧
      r.WaitsUntil (.part 0 1) r' (.ok (.media (r'.bytesOf p.packets (sequenceNumber s.id 1)))) := by
  obtain ⟨r₀, r, h₀, h, hopen, hid, hpart, hlength, hin, hwaits, hcloses, hsound⟩ : ∃ r₀ r,
      new? camera { shortest with segmentCount := 2 } ⟨0, 0⟩ = .ok r₀ ∧
      r₀.writeAll? (fiveFrames.take 1) = some r ∧ r.closed = false ∧
      r.current.id = 0 ∧ r.current.current.id = 1 ∧ r.current.packets.length = 1 ∧
      r.overflows (cameraFrame false) ⟨0, 0⟩ = false ∧
      r.hasClosed (.segment r.current.id) = false ∧
      (r.write (cameraFrame false) ⟨0, 0⟩).1.hasClosed (.segment r.current.id) = true ∧
      camera.SoundFits (r.current.packets ++ [fold (cameraFrame false)]) :=
    ⟨_, _, rfl, rfl, rfl, rfl, rfl, rfl, rfl, rfl, rfl, by decide⟩
  have hr : Reachable camera { shortest with segmentCount := 2 } r :=
    ⟨_, _, h₀, later_of_writeAll? h⟩
  obtain ⟨s, hs, hsid, hc, hpackets, hserved⟩ :=
    (parked_reader_is_answered hr hopen .refl hin hwaits hcloses).1 (Nat.le_refl 2)
  obtain ⟨hsegment, p, hp, hpart'⟩ := hserved (hpackets ▸ hsound)
  rw [hid] at hsid hsegment hpart'
  rw [hpart] at hp hpart'
  refine ⟨r, _, s, p, hr, hopen, .single (.write _ _ hin), hs, hsid, hc, ?_, hp, hsegment, hpart'⟩
  rw [hpackets, List.length_append, hlength]
  rfl

end Rendition

end LiveHls
