import LiveHls.Segment
import Mathlib.Algebra.Ring.Nat

/-!
# Parts and segments are what their packets make them

* `countedNanos`, `partEnds` : how long packets last for a part, and whether they complete it;
* `Part.Coherent` : duration, independence, latch and playlist line of a part follow from its
  packets (`Part.Coherent.write`);
* `Segment.Coherent` : all parts but the last are closed, numbered in order, and the segment's
  latch, duration and lines follow from its parts (`Segment.Coherent.write`);
* `Part.write_cases`, `Segment.Written` : all that a write can do.
-/

namespace LiveHls

/-! ## Packets of a part -/

/-- Whether a packet counts where there is a video track (`hasVideo`) or none. -/
def countsIn (hasVideo : Bool) (x : Packet) : Bool := x.isVideo || !hasVideo

/-- The nanoseconds of the packets that count. -/
def countedNanos (hasVideo : Bool) (xs : List Packet) : Nat :=
  ((xs.filter (countsIn hasVideo)).map (·.duration.nanos)).sum

/-- Whether packets end a part: the last of them counts, and those that count reach the target. -/
def partEnds (hasVideo : Bool) (target : Duration) (xs : List Packet) : Bool :=
  xs.getLast?.any (countsIn hasVideo) && decide (target.nanos ≤ countedNanos hasVideo xs)

theorem countedNanos_append (v : Bool) (xs ys : List Packet) :
    countedNanos v (xs ++ ys) = countedNanos v xs + countedNanos v ys := by
  simp [countedNanos]

theorem countedNanos_concat (v : Bool) (xs : List Packet) (x : Packet) :
    countedNanos v (xs ++ [x]) =
      countedNanos v xs + if countsIn v x then x.duration.nanos else 0 := by
  rw [countedNanos_append]
  cases h : countsIn v x <;> simp [countedNanos, h]

theorem partEnds_concat (v : Bool) (target : Duration) (xs : List Packet) (x : Packet) :
    partEnds v target (xs ++ [x]) =
      (countsIn v x && decide (target.nanos ≤ countedNanos v (xs ++ [x]))) := by
  simp [partEnds]

/-! ## Parts -/

namespace Part

/-- The part with one more packet and the duration that comes of it, not closed yet. -/
def extend (p : Part) (x : Packet) (total : Duration) : Part :=
  { p with
    independent := p.independent || x.isKeyframe
    duration := total
    packets := p.packets ++ [x] }

/-- **All that a write does to a part.** -/
theorem write_cases (p : Part) (x : Packet) :
    (p.write x).2 = .overflow ∨
    ∃ total : Duration,
      total.nanos = p.duration.nanos + (if p.counts x then x.duration.nanos else 0) ∧
      ((p.counts x && decide (p.target ≤ total)) = false ∧
          p.write x = (p.extend x total, .remainsOpen) ∨
        (p.counts x && decide (p.target ≤ total)) = true ∧
          p.write x = ((p.extend x total).close, .closed)) := by
  unfold write
  by_cases hc : p.counts x
  · cases ha : p.duration.add? x.duration with
    | none =>
      left
      simp only [counts] at hc
      simp [counts, hc, ha]
    | some total =>
      right
      refine ⟨total, by rw [Duration.nanos_add? ha, if_pos hc], ?_⟩
      simp only [counts] at hc
      by_cases ht : p.target ≤ total
      · right; simp [counts, hc, ha, ht, extend]
      · left; simp [counts, hc, ha, ht, extend]
  · right
    refine ⟨p.duration, by rw [if_neg hc, Nat.add_zero], Or.inl ?_⟩
    simp only [counts] at hc
    simp [counts, hc, extend]

/-- A part whose duration, independence, latch and line follow from its packets. -/
structure Coherent (p : Part) : Prop where
  duration_eq : p.duration.nanos = countedNanos p.videoTimed p.packets
  independent_eq : p.independent = p.packets.any (·.isKeyframe)
  closed_eq : p.isClosed = partEnds p.videoTimed p.target p.packets
  entry_eq : p.entry =
    if p.isClosed then .part p.segment p.id p.duration p.independent
    else .preloadHint p.segment p.id

theorem coherent_new (segment id : Nat) (target : Duration) (videoTimed : Bool) :
    (Part.new segment id target videoTimed).Coherent :=
  ⟨rfl, rfl, rfl, rfl⟩

@[simp] theorem isClosed_new (segment id : Nat) (target : Duration) (videoTimed : Bool) :
    (Part.new segment id target videoTimed).isClosed = false := rfl

/-- The same place in the same rendition: only what depends on packets may differ. -/
structure SameSlot (p q : Part) : Prop where
  segment_eq : q.segment = p.segment
  id_eq : q.id = p.id
  target_eq : q.target = p.target
  videoTimed_eq : q.videoTimed = p.videoTimed

theorem SameSlot.refl (p : Part) : p.SameSlot p := ⟨rfl, rfl, rfl, rfl⟩

theorem SameSlot.trans {p q r : Part} (h₁ : p.SameSlot q) (h₂ : q.SameSlot r) : p.SameSlot r :=
  ⟨h₂.segment_eq.trans h₁.segment_eq, h₂.id_eq.trans h₁.id_eq, h₂.target_eq.trans h₁.target_eq,
    h₂.videoTimed_eq.trans h₁.videoTimed_eq⟩

/-- `q` is `p` with one more packet. -/
structure Grown (p : Part) (x : Packet) (q : Part) : Prop where
  coherent : q.Coherent
  slot : p.SameSlot q
  packets_eq : q.packets = p.packets ++ [x]

/-- **Writing to an open part** overflows, or appends the packet and closes the part exactly if its
packets end it now. -/
theorem Coherent.write {p : Part} (hp : p.Coherent) (hopen : p.isClosed = false) (x : Packet) :
    (p.write x).2 = .overflow ∨
    ∃ q, p.Grown x q ∧ p.write x = (q, if q.isClosed then .closed else .remainsOpen) := by
  rcases write_cases p x with ho | ⟨total, htotal, hw⟩
  · exact Or.inl ho
  have hnanos : total.nanos = countedNanos p.videoTimed (p.packets ++ [x]) := by
    rw [htotal, countedNanos_concat, hp.duration_eq]
    rfl
  have hends : partEnds p.videoTimed p.target (p.packets ++ [x]) =
      (p.counts x && decide (p.target ≤ total)) := by
    rw [partEnds_concat, ← hnanos]
    rfl
  have hkey : (p.independent || x.isKeyframe) = (p.packets ++ [x]).any (·.isKeyframe) := by
    rw [hp.independent_eq]
    simp
  right
  rcases hw with ⟨hn, hw⟩ | ⟨hn, hw⟩
  · have hstays : (p.extend x total).isClosed = false := hopen
    refine ⟨p.extend x total, ⟨⟨hnanos, hkey, ?_, ?_⟩, ⟨rfl, rfl, rfl, rfl⟩, rfl⟩, ?_⟩
    · rw [hstays]
      exact (hends.trans hn).symm
    · rw [hstays]
      have he := hp.entry_eq
      rw [hopen] at he
      exact he
    · rw [hw, hstays]
      rfl
  · refine ⟨(p.extend x total).close, ⟨⟨hnanos, hkey, ?_, rfl⟩, ⟨rfl, rfl, rfl, rfl⟩, rfl⟩, hw⟩
    exact (hends.trans hn).symm

end Part

/-! ## Segments -/

/-- A property of the members of a list and of their positions, for a list with one more member. -/
theorem forall_getElem?_concat {α : Type} {P : Nat → α → Prop} {xs : List α} {x : α}
    (hxs : ∀ i a, xs[i]? = some a → P i a) (hx : P xs.length x) :
    ∀ i a, (xs ++ [x])[i]? = some a → P i a := by
  intro i a h
  rcases Nat.lt_trichotomy i xs.length with hi | rfl | hi
  · rw [List.getElem?_append_left hi] at h
    exact hxs i a h
  · rw [List.getElem?_concat_length] at h
    cases h
    exact hx
  · rw [List.getElem?_eq_none (by simp; omega)] at h
    cases h

namespace Segment

/-- The current part goes on as `q`. -/
def extend (s : Segment) (q : Part) : Segment := { s with current := q }

/-- The segment ends with its current part, which has closed as `q`. -/
def finish (s : Segment) (q : Part) (total : Duration) : Segment :=
  { s with
    current := q
    duration := total
    closedLines := s.closedLines ++ [q.entry]
    finished := s.finished.release.1
    entry := s.closedLines ++ [q.entry] ++ Playlist.segmentTail s.id s.startedAt total }

/-- The current part has closed as `q` and the next one opens. -/
def openNext (s : Segment) (q : Part) (total : Duration) : Segment :=
  { s with
    earlier := s.earlier ++ [q]
    current := Part.new s.id (q.id + 1) s.partTarget s.videoTimed
    duration := total
    closedLines := s.closedLines ++ [q.entry]
    entry := s.closedLines ++ [q.entry] ++ [.preloadHint s.id (q.id + 1)] }

/-- A segment whose parts are numbered in order and all closed but the last, and whose latch,
duration and lines follow from them. -/
structure Coherent (s : Segment) : Prop where
  part_coherent : ∀ p ∈ s.parts, p.Coherent
  part_slot : ∀ i p, s.parts[i]? = some p →
    (Part.new s.id i s.partTarget s.videoTimed).SameSlot p
  earlier_closed : ∀ p ∈ s.earlier, p.isClosed = true
  current_closed : s.current.isClosed = s.isClosed
  closed_eq : s.isClosed = (s.current.isClosed && decide (s.target.nanos ≤ s.duration.nanos))
  duration_eq : s.duration.nanos = ((s.parts.filter (·.isClosed)).map (·.duration.nanos)).sum
  closedLines_eq : s.closedLines = (s.parts.filter (·.isClosed)).map (·.entry)
  entry_eq : s.entry = s.closedLines ++
    if s.isClosed then Playlist.segmentTail s.id s.startedAt s.duration
    else [.preloadHint s.id s.current.id]

theorem coherent_new (id : Nat) (target partTarget : Duration) (videoTimed : Bool)
    (start : Instant) : (Segment.new id target partTarget videoTimed start).Coherent where
  part_coherent := by
    intro p hp
    obtain rfl : p = Part.new id 0 partTarget videoTimed := by simpa [Segment.new, parts] using hp
    exact Part.coherent_new ..
  part_slot := by
    refine @forall_getElem?_concat _ _ [] _ ?_ (Part.SameSlot.refl _)
    simp
  earlier_closed := by simp [Segment.new]
  current_closed := rfl
  closed_eq := rfl
  duration_eq := rfl
  closedLines_eq := rfl
  entry_eq := rfl

/-- All that a packet can do to an open segment without an overflow. -/
inductive Written (s : Segment) (x : Packet) : Segment → Progress → Prop
  | extended {q : Part} (grown : s.current.Grown x q) (part_open : q.isClosed = false) :
      Written s x (s.extend q) .remainsOpen
  | finished {q : Part} {total : Duration} (grown : s.current.Grown x q)
      (part_closed : q.isClosed = true)
      (total_eq : total.nanos = s.duration.nanos + q.duration.nanos)
      (reached : s.target.nanos ≤ total.nanos) : Written s x (s.finish q total) .closed
  | continued {q : Part} {total : Duration} (grown : s.current.Grown x q)
      (part_closed : q.isClosed = true)
      (total_eq : total.nanos = s.duration.nanos + q.duration.nanos)
      (short : total.nanos < s.target.nanos) : Written s x (s.openNext q total) .remainsOpen

/-- **All that a write does to an open segment.** -/
theorem Coherent.write {s : Segment} (hs : s.Coherent) (hopen : s.isClosed = false) (x : Packet) :
    (s.write x).2 = .overflow ∨ s.Written x (s.write x).1 (s.write x).2 := by
  have hpart := hs.part_coherent s.current (by simp [parts])
  rcases hpart.write (hs.current_closed.trans hopen) x with ho | ⟨q, hq, hw⟩
  · left
    rw [Segment.write]
    rcases hp : s.current.write x with ⟨q, progress⟩
    rw [hp] at ho
    cases ho
    rfl
  cases hc : q.isClosed with
  | false =>
    have hs' : s.write x = (s.extend q, .remainsOpen) := by
      simp [Segment.write, hw, hc, Segment.extend]
    rw [hs']
    exact Or.inr (.extended hq hc)
  | true =>
    cases ha : s.duration.add? q.duration with
    | none =>
      left
      simp [Segment.write, hw, hc, advance, ha]
    | some total =>
      right
      have ht := Duration.nanos_add? ha
      by_cases hr : s.target ≤ total
      · have hs' : s.write x = (s.finish q total, .closed) := by
          simp [Segment.write, hw, hc, advance, ha, hr, Segment.finish]
        rw [hs']
        exact .finished hq hc ht hr
      · have hs' : s.write x = (s.openNext q total, .remainsOpen) := by
          simp [Segment.write, hw, hc, advance, ha, hr, Segment.openNext, Part.new]
        rw [hs']
        exact .continued hq hc ht (Nat.lt_of_not_le hr)

/-! ## What a write keeps -/

section Kept
variable {s : Segment} {x : Packet} {q : Part}

theorem Coherent.earlier_coherent (hs : s.Coherent) : ∀ p ∈ s.earlier, p.Coherent :=
  fun p hp => hs.part_coherent p (List.mem_append_left _ hp)

theorem Coherent.earlier_slot (hs : s.Coherent) : ∀ i p, s.earlier[i]? = some p →
    (Part.new s.id i s.partTarget s.videoTimed).SameSlot p := by
  intro i p h
  apply hs.part_slot i p
  have hi : i < s.earlier.length := (List.getElem?_eq_some_iff.1 h).1
  unfold parts
  rw [List.getElem?_append_left hi, h]

theorem Coherent.current_slot (hs : s.Coherent) :
    (Part.new s.id s.earlier.length s.partTarget s.videoTimed).SameSlot s.current :=
  hs.part_slot _ _ (by rw [parts, List.getElem?_concat_length])

/-- The closed parts are those before the last, and the last if it is closed. -/
theorem Coherent.filter_concat (hs : s.Coherent) (q : Part) :
    (s.earlier ++ [q]).filter (·.isClosed) = s.earlier ++ if q.isClosed then [q] else [] := by
  rw [List.filter_append, List.filter_eq_self.2 hs.earlier_closed]
  cases hc : q.isClosed <;> simp [hc]

theorem Coherent.filter_parts (hs : s.Coherent) (hopen : s.isClosed = false) :
    s.parts.filter (·.isClosed) = s.earlier := by
  unfold parts
  rw [hs.filter_concat, hs.current_closed, hopen]
  simp

theorem Coherent.filter_parts_of_closed (hs : s.Coherent) (hc : s.isClosed = true) :
    s.parts.filter (·.isClosed) = s.parts := by
  rw [parts, hs.filter_concat, hs.current_closed, hc, if_pos rfl]

theorem Coherent.grown_slot (hs : s.Coherent) (hq : s.current.Grown x q) :
    (Part.new s.id s.earlier.length s.partTarget s.videoTimed).SameSlot q :=
  hs.current_slot.trans hq.slot

theorem Coherent.concat_coherent (hs : s.Coherent) (hq : s.current.Grown x q) :
    ∀ p ∈ s.earlier ++ [q], p.Coherent := by
  intro p hp
  rcases List.mem_append.1 hp with hp | hp
  · exact hs.earlier_coherent p hp
  · rw [List.mem_singleton.1 hp]
    exact hq.coherent

theorem Coherent.concat_slot (hs : s.Coherent) (hq : s.current.Grown x q) :
    ∀ i p, (s.earlier ++ [q])[i]? = some p →
      (Part.new s.id i s.partTarget s.videoTimed).SameSlot p :=
  forall_getElem?_concat hs.earlier_slot (hs.grown_slot hq)

/-- Duration and lines of a segment once its current part has closed as `q`. -/
theorem Coherent.closed_sum (hs : s.Coherent) (hopen : s.isClosed = false) (hc : q.isClosed = true)
    {total : Duration} (ht : total.nanos = s.duration.nanos + q.duration.nanos) :
    total.nanos = (((s.earlier ++ [q]).filter (·.isClosed)).map (·.duration.nanos)).sum := by
  rw [hs.filter_concat, hc, ht, hs.duration_eq, hs.filter_parts hopen]
  simp

theorem Coherent.closed_lines (hs : s.Coherent) (hopen : s.isClosed = false)
    (hc : q.isClosed = true) :
    s.closedLines ++ [q.entry] = ((s.earlier ++ [q]).filter (·.isClosed)).map (·.entry) := by
  rw [hs.filter_concat, hc, hs.closedLines_eq, hs.filter_parts hopen]
  simp

theorem Coherent.extend (hs : s.Coherent) (hopen : s.isClosed = false) (hq : s.current.Grown x q)
    (hc : q.isClosed = false) : (s.extend q).Coherent where
  part_coherent := hs.concat_coherent hq
  part_slot := hs.concat_slot hq
  earlier_closed := hs.earlier_closed
  current_closed := hc.trans hopen.symm
  closed_eq := by
    show s.isClosed = (q.isClosed && _)
    rw [hopen, hc, Bool.false_and]
  duration_eq := by
    show s.duration.nanos = (((s.earlier ++ [q]).filter (·.isClosed)).map _).sum
    rw [hs.filter_concat, hc, hs.duration_eq, hs.filter_parts hopen]
    simp
  closedLines_eq := by
    show s.closedLines = ((s.earlier ++ [q]).filter (·.isClosed)).map _
    rw [hs.filter_concat, hc, hs.closedLines_eq, hs.filter_parts hopen]
    simp
  entry_eq := by
    show s.entry = s.closedLines ++ if s.isClosed then _ else [.preloadHint s.id q.id]
    rw [hs.entry_eq, hq.slot.id_eq]
    rfl

theorem Coherent.finish (hs : s.Coherent) (hopen : s.isClosed = false) (hq : s.current.Grown x q)
    (hc : q.isClosed = true) {total : Duration}
    (ht : total.nanos = s.duration.nanos + q.duration.nanos)
    (hreached : s.target.nanos ≤ total.nanos) : (s.finish q total).Coherent where
  part_coherent := hs.concat_coherent hq
  part_slot := hs.concat_slot hq
  earlier_closed := hs.earlier_closed
  current_closed := hc
  closed_eq := by
    show true = (q.isClosed && decide (s.target.nanos ≤ total.nanos))
    rw [hc, decide_eq_true hreached, Bool.and_self]
  duration_eq := hs.closed_sum hopen hc ht
  closedLines_eq := hs.closed_lines hopen hc
  entry_eq := rfl

theorem Coherent.openNext (hs : s.Coherent) (hopen : s.isClosed = false)
    (hq : s.current.Grown x q) (hc : q.isClosed = true) {total : Duration}
    (ht : total.nanos = s.duration.nanos + q.duration.nanos) : (s.openNext q total).Coherent := by
  have hid : q.id = s.earlier.length := (hs.grown_slot hq).id_eq
  have hnew : ((s.openNext q total).parts).filter (·.isClosed) =
      (s.earlier ++ [q]).filter (·.isClosed) := by
    unfold parts
    rw [List.filter_append]
    simp [Segment.openNext]
  refine ⟨?_, ?_, ?_, hopen.symm, hopen, ?_, ?_, ?_⟩
  · intro p hp
    rcases List.mem_append.1 hp with hp | hp
    · exact hs.concat_coherent hq p hp
    · rw [List.mem_singleton.1 hp]
      exact Part.coherent_new ..
  · refine forall_getElem?_concat (hs.concat_slot hq) ?_
    rw [show (s.openNext q total).earlier.length = q.id + 1 by simp [Segment.openNext, hid]]
    exact Part.SameSlot.refl _
  · intro p hp
    rcases List.mem_append.1 hp with hp | hp
    · exact hs.earlier_closed p hp
    · rw [List.mem_singleton.1 hp]
      exact hc
  · rw [hnew]
    exact hs.closed_sum hopen hc ht
  · rw [hnew]
    exact hs.closed_lines hopen hc
  · rw [show (s.openNext q total).isClosed = false from hopen]
    rfl

theorem Written.coherent {t : Segment} {progress : Progress} (hw : s.Written x t progress)
    (hs : s.Coherent) (hopen : s.isClosed = false) : t.Coherent := by
  cases hw with
  | extended hq hc => exact hs.extend hopen hq hc
  | finished hq hc ht hreached => exact hs.finish hopen hq hc ht hreached
  | continued hq hc ht _ => exact hs.openNext hopen hq hc ht

theorem Written.frame {t : Segment} {progress : Progress} (hw : s.Written x t progress) :
    t.id = s.id ∧ t.target = s.target ∧ t.partTarget = s.partTarget ∧
      t.videoTimed = s.videoTimed ∧ t.startedAt = s.startedAt := by
  cases hw <;> exact ⟨rfl, rfl, rfl, rfl, rfl⟩

/-- A segment is closed by the write that says so. -/
theorem Written.isClosed_eq {t : Segment} {progress : Progress} (hw : s.Written x t progress)
    (hopen : s.isClosed = false) : t.isClosed = (progress == .closed) := by
  cases hw with
  | extended => exact hopen
  | finished => rfl
  | continued => exact hopen

end Kept

/-! ## Parts by position -/

/-- All parts but the last are closed, and the last exactly if the segment is. -/
theorem Coherent.part_closed_iff {s : Segment} (hs : s.Coherent) {i : Nat} {p : Part}
    (h : s.parts[i]? = some p) :
    p.isClosed = true ↔ i + 1 < s.parts.length ∨ s.isClosed = true := by
  have hall : ∀ i p, s.parts[i]? = some p →
      (p.isClosed = true ↔ i < s.earlier.length ∨ s.isClosed = true) := by
    refine forall_getElem?_concat (fun i p hp => ?_) ?_
    · have hi : i < s.earlier.length := (List.getElem?_eq_some_iff.1 hp).1
      exact iff_of_true (hs.earlier_closed p (List.mem_of_getElem? hp)) (Or.inl hi)
    · rw [hs.current_closed]
      simp
  rw [hall i p h, parts, List.length_append, List.length_singleton, Nat.succ_lt_succ_iff]

/-- **A closed segment has released all its latches**, its own and those of its parts. -/
theorem Coherent.unreleased_eq_nil {s : Segment} (hs : s.Coherent) (hc : s.isClosed = true) :
    s.unreleased = [] := by
  have hparts : s.parts.filter (!·.finished.released) = [] := by
    refine List.filter_eq_nil_iff.2 fun p hp => ?_
    obtain ⟨i, hi⟩ := List.getElem?_of_mem hp
    have hpc : p.finished.released = true := (hs.part_closed_iff hi).2 (Or.inr hc)
    rw [hpc]
    exact Bool.false_ne_true
  have hsegment : s.finished.released = true := hc
  rw [unreleased, hparts, hsegment]
  rfl

end Segment

end LiveHls
