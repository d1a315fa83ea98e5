import LiveHls.Proofs.Rendition.Ring
import LiveHls.Rendition.Session

/-!
# Waiting for a latch refines polling

* `awaitedAt`, `Coherent.awaited?_lookup` : what a read waits for depends on the numbers of the
  current segment and part alone;
* `Coherent.hasClosed_of_dropped` : the latches of what has been dropped are released;
* `Coherent.hasClosed_awaited`, `Coherent.lookup_of_later` : the latch that a read waits on is not
  released, and while it is not, the read would wait on it again;
* `Situation.outcome?` : how a read that is evaluated from scratch ends;
* `waiting_refines_polling` : a reader that looks again only once its latch is released ends when
  and as evaluation from scratch first does.
-/

namespace LiveHls

open Rendition (camera cameraFrame shortest)

/-- The part that is awaited, if there is no answer. -/
def Lookup.awaited? : Lookup → Option Awaited
  | .found _ => none
  | .awaits what => some what

theorem Lookup.awaited?_eq_some_iff {l : Lookup} {a : Awaited} :
    l.awaited? = some a ↔ l = .awaits a := by
  cases l <;> simp [awaited?]

/-- The segment that is awaited, or that the awaited part belongs to. -/
def Awaited.segmentId : Awaited → Nat
  | .segment id => id
  | .part id _ => id

namespace Segment

/-- The numbers of an open segment's parts: below the current one they are closed, above it there
is none. -/
theorem Coherent.part?_cases {s : Segment} (hs : s.Coherent) (hopen : s.isClosed = false)
    (f : Nat) :
    (f < s.current.id ∧ ∃ p, s.part? f = some p ∧ p.isClosed = true) ∨
    (f = s.current.id ∧ s.part? f = some s.current ∧ s.current.isClosed = false) ∨
    (s.current.id < f ∧ s.part? f = none) := by
  have hid : s.current.id = s.earlier.length := hs.current_slot.id_eq
  rw [hid, part?, parts]
  rcases Nat.lt_trichotomy f s.earlier.length with hf | hf | hf
  · refine Or.inl ⟨hf, s.earlier[f], ?_, hs.earlier_closed _ (List.getElem_mem hf)⟩
    rw [List.getElem?_append_left hf, List.getElem?_eq_getElem hf]
  · refine Or.inr (Or.inl ⟨hf, ?_, hs.current_closed.trans hopen⟩)
    rw [hf, List.getElem?_concat_length]
  · refine Or.inr (Or.inr ⟨hf, List.getElem?_eq_none ?_⟩)
    rw [List.length_append, List.length_singleton]
    exact hf

end Segment

namespace Rendition

/-- What a read waits for while `segment` and `part` are current; none if it has an answer. -/
def awaitedAt (segment part : Nat) : Read → Option Awaited
  | .playlist none _ => none
  | .playlist (some want) none => if segment < want then some (.segment segment) else none
  | .playlist (some want) (some p) =>
    if segment < want then some (.segment segment)
    else if want = segment ∧ part ≤ p then some (.part segment part)
    else none
  | .segment id => if id = segment then some (.segment segment) else none
  | .part s f => if s = segment ∧ part ≤ f then some (.part segment part) else none

section Lookups
variable {r : Rendition}

/-- A retained segment that is not the current one is closed. -/
theorem Coherent.isClosed_of_segment? (hr : r.Coherent) {id : Nat} {s : Segment}
    (h : r.segment? id = some s) (hid : id ≠ r.current.id) : s.isClosed = true := by
  obtain ⟨hs, rfl⟩ := hr.segment?_eq_some_iff.1 h
  exact (hr.closed_iff hs).2 hid

theorem Coherent.awaited?_lookupSegment (hr : r.Coherent) (id : Nat) :
    (r.lookupSegment id).awaited? =
      if id = r.current.id then some (.segment r.current.id) else none := by
  unfold lookupSegment segmentAnswer
  by_cases hid : id = r.current.id
  · rw [if_pos hid, hid, hr.segment?_current]
    simp only [hr.current_open]
    rfl
  · rw [if_neg hid]
    cases hs : r.segment? id with
    | none => rfl
    | some s =>
      simp only [hr.isClosed_of_segment? hs hid]
      rfl

theorem Coherent.awaited?_lookupPart (hr : r.Coherent) (s f : Nat) :
    (r.lookupPart s f).awaited? =
      if s = r.current.id ∧ r.current.current.id ≤ f then
        some (.part r.current.id r.current.current.id)
      else none := by
  unfold lookupPart partAnswer
  by_cases hid : s = r.current.id
  · rw [hid, hr.segment?_current]
    rcases hr.current_coherent.part?_cases hr.current_open f with
      ⟨hf, p, hp, hc⟩ | ⟨hf, hp, hc⟩ | ⟨hf, hp⟩
    · rw [if_neg (by omega)]
      simp only [hp, hc]
      rfl
    · rw [if_pos ⟨rfl, by omega⟩]
      simp only [hp, hc]
      rfl
    · rw [if_pos ⟨rfl, by omega⟩]
      simp only [hp, hr.current_open]
      rfl
  · rw [if_neg fun h => hid h.1]
    cases hs : r.segment? s with
    | none => rfl
    | some t =>
      have hclosed := hr.isClosed_of_segment? hs hid
      obtain ⟨hmem, -⟩ := hr.segment?_eq_some_iff.1 hs
      cases hp : t.part? f with
      | none =>
        simp only [hp, hclosed]
        rfl
      | some p =>
        have hpart := ((hr.segment_coherent t hmem).part_closed_iff hp).2 (Or.inr hclosed)
        simp only [hp, hpart]
        rfl

theorem Coherent.awaited?_lookupPlaylist (hr : r.Coherent) (want : Nat) (part : Option Nat) :
    (r.lookupPlaylist want part).awaited? =
      awaitedAt r.current.id r.current.current.id (.playlist (some want) part) := by
  unfold lookupPlaylist
  rcases Nat.lt_trichotomy want r.current.id with hw | hw | hw
  · rw [if_pos hw]
    cases part with
    | none => exact (if_neg (by omega)).symm
    | some p => rw [awaitedAt, if_neg (by omega), if_neg (by omega)]; rfl
  · rw [if_neg (by omega), if_neg (by omega)]
    cases part with
    | none => exact (if_neg (by omega)).symm
    | some p =>
      rw [awaitedAt, if_neg (by omega)]
      simp only [lookupCurrentPart]
      rcases hr.current_coherent.part?_cases hr.current_open p with
        ⟨hf, q, hq, hc⟩ | ⟨hf, hq, hc⟩ | ⟨hf, hq⟩
      · rw [if_neg (by omega)]
        simp only [hq, hc]
        rfl
      · rw [if_pos ⟨hw, by omega⟩]
        simp only [hq, hc]
        rfl
      · rw [if_pos ⟨hw, by omega⟩]
        simp only [hq]
        rfl
  · rw [if_neg (by omega), if_pos hw]
    cases part with
    | none => exact (if_pos hw).symm
    | some p => rw [awaitedAt, if_pos hw]; rfl

/-- **What a read waits for** is told by the numbers of the current segment and part. -/
theorem Coherent.awaited?_lookup (hr : r.Coherent) (read : Read) :
    (r.lookup read).awaited? = awaitedAt r.current.id r.current.current.id read := by
  cases read with
  | playlist want part =>
    cases want with
    | none => rfl
    | some want => exact hr.awaited?_lookupPlaylist want part
  | segment id => exact hr.awaited?_lookupSegment id
  | part s f => exact hr.awaited?_lookupPart s f

theorem Coherent.awaitedAt_of_lookup (hr : r.Coherent) {read : Read} {a : Awaited}
    (h : r.lookup read = .awaits a) :
    awaitedAt r.current.id r.current.current.id read = some a := by
  rw [← hr.awaited?_lookup, h]
  rfl

theorem Coherent.lookup_of_awaitedAt (hr : r.Coherent) {read : Read} {a : Awaited}
    (h : awaitedAt r.current.id r.current.current.id read = some a) :
    r.lookup read = .awaits a :=
  Lookup.awaited?_eq_some_iff.1 ((hr.awaited?_lookup read).trans h)

end Lookups

/-- A read waits for the current segment or for the current part, and where it waits for the segment
the number of the part does not matter. -/
theorem awaitedAt_cases {segment part : Nat} {read : Read} {a : Awaited}
    (h : awaitedAt segment part read = some a) :
    (a = .segment segment ∧ ∀ part', awaitedAt segment part' read = some a) ∨
      a = .part segment part := by
  unfold awaitedAt at h
  split at h
  · cases h
  · split at h
    · rename_i hw
      cases h
      exact Or.inl ⟨rfl, fun _ => if_pos hw⟩
    · cases h
  · split at h
    · rename_i hw
      cases h
      exact Or.inl ⟨rfl, fun _ => if_pos hw⟩
    · split at h
      · cases h
        exact Or.inr rfl
      · cases h
  · split at h
    · rename_i hw
      cases h
      exact Or.inl ⟨rfl, fun _ => if_pos hw⟩
    · cases h
  · split at h
    · cases h
      exact Or.inr rfl
    · cases h

/-! ## Latches -/

section Latches
variable {r r' : Rendition}

/-- **A read that has no answer waits on a latch that is not released.** -/
theorem Coherent.hasClosed_awaited (hr : r.Coherent) {read : Read} {a : Awaited}
    (h : r.lookup read = .awaits a) : r.hasClosed a = false := by
  rcases awaitedAt_cases (hr.awaitedAt_of_lookup h) with ⟨rfl, -⟩ | rfl
  · simp only [hasClosed, hr.segment?_current]
    exact hr.current_open
  · have hpart : r.current.part? r.current.current.id = some r.current.current := by
      rcases hr.current_coherent.part?_cases hr.current_open r.current.current.id with
        ⟨hf, -⟩ | ⟨-, hp, -⟩ | ⟨hf, -⟩
      · omega
      · exact hp
      · omega
    simp only [hasClosed, hr.segment?_current, hpart, Option.any_some]
    exact hr.current_coherent.current_closed.trans hr.current_open

/-- What is numbered but not retained has been dropped. -/
theorem Coherent.lt_mediaSequence (hr : r.Coherent) {id : Nat} (h : r.segment? id = none)
    (hid : id ≤ r.current.id) : id < r.mediaSequence := by
  rw [hr.segment?_eq] at h
  have := hr.current_id
  split at h
  · rw [List.getElem?_eq_none_iff] at h
    omega
  · omega

theorem hasClosed_of_missing {a : Awaited} (hs : r.segment? a.segmentId = none) :
    r.hasClosed a = (decide (a.segmentId < r.mediaSequence) && !r.abandoned.contains a) := by
  cases a with
  | segment id =>
    have hs : r.segment? id = none := hs
    simp only [hasClosed, hs]
    rfl
  | part id f =>
    have hs : r.segment? id = none := hs
    simp only [hasClosed, hs]
    rfl

/-- **The latch of what has been dropped is released**: none is dropped before it is. -/
theorem Coherent.hasClosed_of_dropped (hr : r.Coherent) {a : Awaited}
    (h : a.segmentId < r.mediaSequence) : r.hasClosed a = true := by
  rw [hasClosed_of_missing (hr.segment?_of_dropped h), hr.abandoned_eq, decide_eq_true h]
  rfl

theorem Coherent.hasClosed_segment (hr : r.Coherent) {id : Nat} (h : id < r.current.id) :
    r.hasClosed (.segment id) = true := by
  cases hs : r.segment? id with
  | none => exact hr.hasClosed_of_dropped (hr.lt_mediaSequence hs (Nat.le_of_lt h))
  | some s =>
    simp only [hasClosed, hs]
    exact hr.isClosed_of_segment? hs (Nat.ne_of_lt h)

/-- The segments after a write were there before it, with no more parts, but for a new one. -/
theorem Written.parts_le {x : Packet} {now : Instant} {result : Except Fault Unit}
    (hw : r.Written x now r' result) (hr : r.Coherent) {s' : Segment} (hs : s' ∈ r'.live)
    (hid : s'.id ≤ r.current.id) :
    ∃ s ∈ r.live, s.id = s'.id ∧ s.parts.length ≤ s'.parts.length := by
  rcases hw.live_cases hr hs with hs | ⟨progress, ht⟩ | rfl
  · exact ⟨s', hs, rfl, Nat.le_refl _⟩
  · refine ⟨r.current, r.current_mem_live, ht.frame.1.symm, ?_⟩
    cases ht <;> simp [Segment.parts, Segment.extend, Segment.finish, Segment.openNext]
  · exact absurd hid (Nat.not_succ_le_self _)

theorem Written.current_id_le {x : Packet} {now : Instant} {result : Except Fault Unit}
    (hw : r.Written x now r' result) : r.current.id ≤ r'.current.id := by
  cases hw with
  | refused => exact Nat.le_refl _
  | extended _ ht => exact Nat.le_of_eq ht.frame.1.symm
  | replaced _ ht => exact Nat.le_trans (Nat.le_of_eq ht.frame.1.symm) (Nat.le_succ _)

/-- Later the current segment has the same number or a larger one, and the segment that was current
has no fewer parts. -/
theorem Coherent.parts_le_later (hr : r.Coherent) (h : r.Later r') :
    r.current.id ≤ r'.current.id ∧
      ∀ s ∈ r'.live, s.id = r.current.id → r.current.parts.length ≤ s.parts.length := by
  induction h with
  | refl =>
    refine ⟨Nat.le_refl _, ?_⟩
    intro s hs hid
    have hs := hr.segment?_eq_some_iff.2 ⟨hs, hid⟩
    rw [hr.segment?_current] at hs
    cases hs
    exact Nat.le_refl _
  | tail hprev hstep ih =>
    have hr' := hr.later hprev
    cases hstep with
    | close => exact ih
    | write x now hin =>
      have hw := hr'.write x now hin
      refine ⟨Nat.le_trans ih.1 hw.current_id_le, ?_⟩
      intro s hs hid
      obtain ⟨s₁, hs₁, hid₁, hle⟩ := hw.parts_le hr' hs (hid ▸ ih.1)
      exact Nat.le_trans (ih.2 s₁ hs₁ (hid₁.trans hid)) hle

theorem Coherent.current_part_id (hr : r.Coherent) :
    r.current.parts.length = r.current.current.id + 1 := by
  rw [hr.current_coherent.current_slot.id_eq, Segment.parts, List.length_append]
  rfl

/-- While the latch of the segment that was current is not released, it is current. -/
theorem Coherent.current_of_hasClosed_segment (hr : r.Coherent) (h : r.Later r')
    (hc : r'.hasClosed (.segment r.current.id) = false) : r'.current.id = r.current.id := by
  refine Nat.le_antisymm (Nat.le_of_not_lt fun hlt => ?_) (hr.parts_le_later h).1
  rw [(hr.later h).hasClosed_segment hlt] at hc
  cases hc

/-- While the latch of the part that was current is not released, it and its segment are current. -/
theorem Coherent.current_of_hasClosed_part (hr : r.Coherent) (h : r.Later r')
    (hc : r'.hasClosed (.part r.current.id r.current.current.id) = false) :
    r'.current.id = r.current.id ∧ r'.current.current.id = r.current.current.id := by
  have hr' := hr.later h
  obtain ⟨hle, hparts⟩ := hr.parts_le_later h
  have hlen := hr.current_part_id
  rcases Nat.lt_or_eq_of_le hle with hlt | heq
  · exfalso
    cases hs : r'.segment? r.current.id with
    | none =>
      have hreleased := hr'.hasClosed_of_dropped (a := .part r.current.id r.current.current.id)
        (hr'.lt_mediaSequence hs hle)
      exact Bool.noConfusion (hreleased.symm.trans hc)
    | some s =>
      obtain ⟨hmem, hid⟩ := hr'.segment?_eq_some_iff.1 hs
      have hlength := hparts s hmem hid
      have hp : s.part? r.current.current.id = some s.parts[r.current.current.id] :=
        List.getElem?_eq_getElem _
      have hclosed := ((hr'.segment_coherent s hmem).part_closed_iff hp).2
        (Or.inr (hr'.isClosed_of_segment? hs (Nat.ne_of_lt hlt)))
      simp only [hasClosed, hs, hp, Option.any_some] at hc
      exact Bool.noConfusion (hclosed.symm.trans hc)
  · refine ⟨heq.symm, ?_⟩
    have hs : r'.segment? r.current.id = some r'.current := by rw [heq, hr'.segment?_current]
    have hlength := hparts r'.current (hr'.segment?_eq_some_iff.1 hs).1 heq.symm
    rw [hr'.current_part_id] at hlength
    rcases hr'.current_coherent.part?_cases hr'.current_open r.current.current.id with
      ⟨-, p, hp, hpc⟩ | ⟨hf, -⟩ | ⟨hf, -⟩
    · simp only [hasClosed, hs, hp, Option.any_some] at hc
      exact Bool.noConfusion (hpc.symm.trans hc)
    · exact hf.symm
    · omega

/-- **While the latch that a read waits on is not released**, the read still has no answer and would
wait on the same latch. -/
theorem Coherent.lookup_of_later (hr : r.Coherent) (h : r.Later r') {read : Read} {a : Awaited}
    (ha : r.lookup read = .awaits a) (hc : r'.hasClosed a = false) :
    r'.lookup read = .awaits a := by
  have hat := hr.awaitedAt_of_lookup ha
  apply (hr.later h).lookup_of_awaitedAt
  rcases awaitedAt_cases hat with ⟨rfl, hall⟩ | rfl
  · rw [hr.current_of_hasClosed_segment h hc]
    exact hall _
  · obtain ⟨hs, hp⟩ := hr.current_of_hasClosed_part h hc
    rw [hs, hp]
    exact hat

end Latches

end Rendition

/-! ## Readers among events -/

/-- What can happen while a reader waits. -/
inductive Occurrence where
  | write (x : Packet) (now : Instant)
  | close
  /-- The reader is cancelled. -/
  | cancel
  | advance (milliseconds : Clock)

/-- All that the end of a read depends on. -/
structure Situation where
  rendition : Rendition
  clock : Clock
  /-- Whether the reader has been cancelled. -/
  cancelled : Bool

namespace Situation

def after (s : Situation) : Occurrence → Situation
  | .write x now => { s with rendition := (s.rendition.write x now).1 }
  | .close => { s with rendition := s.rendition.close }
  | .cancel => { s with cancelled := true }
  | .advance milliseconds => { s with clock := s.clock + milliseconds }

/-- Whether no write leaves a duration out of its range. -/
def inRange (s : Situation) : List Occurrence → Bool
  | [] => true
  | .write x now :: rest => !s.rendition.overflows x now && inRange (s.after (.write x now)) rest
  | o :: rest => inRange (s.after o) rest

/-- How a read ends that is evaluated from scratch: with its answer, else by cancellation, else with
the rendition, else because its time is up; none if it does not end. -/
def outcome? (s : Situation) (read : Read) (deadline : Deadline) : Option (Except Fault Body) :=
  match s.rendition.lookup read with
  | .found result => some result
  | .awaits _ =>
    if s.cancelled then some (.error (.error .cancelled))
    else if s.rendition.closed then some (.error (.error .closed))
    else if deadline.hasPassed s.clock then some (.error (.error (.timeout read.label)))
    else none

/-- After how many events a read that is evaluated from scratch after each of them first ends, and
how. -/
def firstOutcome? (read : Read) (deadline : Deadline) (s : Situation) :
    List Occurrence → Option (Nat × Except Fault Body)
  | [] => (s.outcome? read deadline).map (0, ·)
  | o :: rest =>
    match s.outcome? read deadline with
    | some result => some (0, result)
    | none => (firstOutcome? read deadline (s.after o) rest).map fun (n, result) => (n + 1, result)

end Situation

namespace Reader

/-- The reader itself only learns of its cancellation. -/
def notice (w : Reader) : Occurrence → Reader
  | .cancel => { w with cancelled := true }
  | _ => w

end Reader

namespace Polled

/-- After how many events a reader that is polled after each of them ends, and how. -/
def end? (s : Situation) : Polled → List Occurrence → Option (Nat × Except Fault Body)
  | .done result, _ => some (0, result)
  | .waiting _, [] => none
  | .waiting w, o :: rest =>
    let s' := s.after o
    (end? s' ((w.notice o).poll s'.rendition s'.clock) rest).map fun (n, result) => (n + 1, result)

end Polled

namespace Reader

/-- A reader waits in a situation if its read would wait on the same latch there, and nothing else
ends it. -/
structure WaitsIn (w : Reader) (s : Situation) : Prop where
  lookup_eq : s.rendition.lookup w.read = .awaits w.awaiting
  cancelled_eq : w.cancelled = s.cancelled
  outcome_eq : s.outcome? w.read w.deadline = none

/-- A polled reader agrees with evaluation from scratch. -/
def Agrees (s : Situation) (read : Read) (deadline : Deadline) : Polled → Prop
  | .done result => s.outcome? read deadline = some result
  | .waiting w => w.WaitsIn s ∧ w.read = read ∧ w.deadline = deadline

/-- A reader without an answer ends or waits as evaluation from scratch says. -/
theorem agrees_wait {w : Reader} {s : Situation}
    (h : s.rendition.lookup w.read = .awaits w.awaiting) (hc : w.cancelled = s.cancelled) :
    Agrees s w.read w.deadline (w.wait s.rendition s.clock) := by
  have houtcome : s.outcome? w.read w.deadline =
      if w.cancelled then some (.error (.error .cancelled))
      else if s.rendition.closed then some (.error (.error .closed))
      else if w.deadline.hasPassed s.clock then some (.error (.error (.timeout w.read.label)))
      else none := by
    unfold Situation.outcome?
    rw [h, hc]
  unfold wait
  by_cases hcancelled : w.cancelled
  · rw [if_pos hcancelled] at houtcome ⊢
    exact houtcome
  by_cases hclosed : s.rendition.closed
  · rw [if_neg hcancelled, if_pos hclosed] at houtcome ⊢
    exact houtcome
  by_cases hpassed : w.deadline.hasPassed s.clock
  · rw [if_neg hcancelled, if_neg hclosed, if_pos hpassed] at houtcome ⊢
    exact houtcome
  · rw [if_neg hcancelled, if_neg hclosed, if_neg hpassed] at houtcome ⊢
    exact ⟨⟨h, hc, houtcome⟩, rfl, rfl⟩

theorem agrees_start (s : Situation) (name : String) (read : Read) (deadline : Deadline) :
    Agrees s read deadline
      (start s.rendition s.clock name read deadline s.cancelled) := by
  unfold start
  cases h : s.rendition.lookup read with
  | found result => simp only [Agrees, Situation.outcome?, h]
  | awaits what => exact agrees_wait (w := ⟨name, read, what, deadline, s.cancelled⟩) h rfl

theorem WaitsIn.not_cancelled {w : Reader} {s : Situation} (h : w.WaitsIn s) :
    w.cancelled = false := by
  have houtcome := h.outcome_eq
  rw [Situation.outcome?, h.lookup_eq] at houtcome
  rw [h.cancelled_eq]
  cases hc : s.cancelled with
  | false => rfl
  | true =>
    simp only [hc, if_true] at houtcome
    cases houtcome

/-- An event either cancels the reader or leaves it as it is. -/
theorem notice_cases (w : Reader) (s : Situation) (o : Occurrence) :
    (w.notice o = { w with cancelled := true } ∧ (s.after o).cancelled = true ∧
      (s.after o).rendition = s.rendition) ∨
    (w.notice o = w ∧ (s.after o).cancelled = s.cancelled) := by
  cases o with
  | cancel => exact Or.inl ⟨rfl, rfl, rfl⟩
  | write => exact Or.inr ⟨rfl, rfl⟩
  | close => exact Or.inr ⟨rfl, rfl⟩
  | advance => exact Or.inr ⟨rfl, rfl⟩

/-- What an event in range leaves of a reader that waits: its latch is enough to know whether the
read has an answer now. -/
theorem WaitsIn.agrees_poll {w : Reader} {s : Situation} (hr : s.rendition.Coherent)
    (h : w.WaitsIn s) {o : Occurrence} (hlater : s.rendition.Later (s.after o).rendition) :
    Agrees (s.after o) w.read w.deadline
      ((w.notice o).poll (s.after o).rendition (s.after o).clock) := by
  rcases notice_cases w s o with ⟨hw, hcancelled, hsame⟩ | ⟨hw, hcancelled⟩
  · -- only the cancellation is new, so the latch is as it was: not released
    rw [hw, poll, Bool.not_true, Bool.false_and, if_neg Bool.false_ne_true]
    refine agrees_wait (w := { w with cancelled := true }) ?_ hcancelled.symm
    rw [hsame]
    exact h.lookup_eq
  · have hc : w.cancelled = (s.after o).cancelled := h.cancelled_eq.trans hcancelled.symm
    have hlooks (b : Bool) : (!w.cancelled && b) = b := by
      rw [h.not_cancelled, Bool.not_false, Bool.true_and]
    rw [hw, poll, hlooks]
    cases hclosed : (s.after o).rendition.hasClosed w.awaiting with
    | false =>
      rw [if_neg Bool.false_ne_true]
      exact agrees_wait (hr.lookup_of_later hlater h.lookup_eq hclosed) hc
    | true =>
      rw [if_pos rfl]
      cases hlookup : (s.after o).rendition.lookup w.read with
      | found result => simp only [Agrees, Situation.outcome?, hlookup]
      | awaits what => exact agrees_wait (w := { w with awaiting := what }) hlookup hc

end Reader

/-! ## The refinement -/

namespace Situation

theorem inRange_cons (s : Situation) (o : Occurrence) (rest : List Occurrence) :
    s.inRange (o :: rest) = (s.inRange [o] && (s.after o).inRange rest) := by
  cases o <;> simp [inRange]

theorem later_after {s : Situation} {o : Occurrence} (hin : s.inRange [o] = true) :
    s.rendition.Later (s.after o).rendition := by
  cases o with
  | write x now =>
    simp only [inRange, Bool.and_true, Bool.not_eq_true'] at hin
    exact .single (.write x now hin)
  | close => exact .single .close
  | cancel => exact .refl
  | advance => exact .refl

end Situation

/-- A polled reader that agrees with evaluation from scratch goes on agreeing. -/
theorem Polled.end?_eq {s : Situation} (hr : s.rendition.Coherent) {read : Read}
    {deadline : Deadline} {p : Polled} (h : Reader.Agrees s read deadline p)
    {occurrences : List Occurrence} (hin : s.inRange occurrences = true) :
    p.end? s occurrences = s.firstOutcome? read deadline occurrences := by
  induction occurrences generalizing s p with
  | nil =>
    cases p with
    | done result =>
      unfold end? Situation.firstOutcome?
      rw [show s.outcome? read deadline = some result from h]
      rfl
    | waiting w =>
      obtain ⟨hw, rfl, rfl⟩ := h
      unfold end? Situation.firstOutcome?
      rw [hw.outcome_eq]
      rfl
  | cons o rest ih =>
    cases p with
    | done result =>
      unfold end? Situation.firstOutcome?
      rw [show s.outcome? read deadline = some result from h]
    | waiting w =>
      obtain ⟨hw, rfl, rfl⟩ := h
      rw [s.inRange_cons, Bool.and_eq_true] at hin
      have hlater := s.later_after hin.1
      unfold end? Situation.firstOutcome?
      rw [hw.outcome_eq]
      simp only
      rw [ih (hr.later hlater) (hw.agrees_poll hr hlater) hin.2]

/-- **Waiting for latches refines polling.** In every reachable rendition all latches that have been
dropped were released before; a read that has no answer waits on a latch that is not released; while
that latch is not released, whatever is written, the read has no answer and would wait on it again;
and among writes, the end of the rendition, cancellation and time in any order, a reader that is
polled after each event ends at the first event after which evaluation from scratch ends, with the
same result. -/
theorem waiting_refines_polling {format : SourceFormat} {options : Options} {r : Rendition}
    (h : Rendition.Reachable format options r) (read : Read) :
    r.abandoned = [] ∧
    (∀ a, r.lookup read = .awaits a → r.hasClosed a = false) ∧
    (∀ a r', r.lookup read = .awaits a → r.Later r' → r'.hasClosed a = false →
      r'.lookup read = .awaits a) ∧
    ∀ (clock : Clock) (cancelled : Bool) (name : String) (deadline : Deadline)
      (occurrences : List Occurrence),
      let s : Situation := ⟨r, clock, cancelled⟩
      s.inRange occurrences = true →
      (Reader.start r clock name read deadline cancelled).end? s occurrences =
        s.firstOutcome? read deadline occurrences := by
  refine ⟨h.coherent.abandoned_eq, fun a ha => h.coherent.hasClosed_awaited ha,
    fun a r' ha hlater hc => h.coherent.lookup_of_later hlater ha hc, ?_⟩
  intro clock cancelled name deadline occurrences s hin
  exact Polled.end?_eq h.coherent (Reader.agrees_start s name read deadline) hin

/-! ### A read that waits -/

/-- A read of the first segment waits through a frame and some time, and ends with the segment at
the third event. -/
theorem waiting_refines_polling_of_firstSegment :
    ∃ r, Rendition.Reachable camera shortest r ∧
      r.lookup (.segment 0) = .awaits (.segment 0) ∧ r.hasClosed (.segment 0) = false ∧
      let occurrences : List Occurrence :=
        [.write (cameraFrame true) ⟨0, 0⟩, .advance 30, .write (cameraFrame false) ⟨0, 0⟩, .close]
      (Situation.mk r 0 false).inRange occurrences = true ∧
      (Reader.start r 0 "first" (.segment 0) ⟨some 40⟩ false).end? ⟨r, 0, false⟩ occurrences =
        (Situation.mk r 0 false).firstOutcome? (.segment 0) ⟨some 40⟩ occurrences ∧
      ((Situation.mk r 0 false).firstOutcome? (.segment 0) ⟨some 40⟩ occurrences).map (·.1) =
        some 3 := by
  obtain ⟨r, h₀⟩ : ∃ r, Rendition.new? camera shortest ⟨0, 0⟩ = .ok r := ⟨_, rfl⟩
  have hr : Rendition.Reachable camera shortest r := ⟨_, _, h₀, .refl⟩
  obtain ⟨-, hclosed, -, hends⟩ := waiting_refines_polling hr (.segment 0)
  have ha : r.lookup (.segment 0) = .awaits (.segment 0) := by
    cases h₀
    rfl
  refine ⟨r, hr, ha, hclosed _ ha, ?_, hends 0 false "first" ⟨some 40⟩ _ ?_, ?_⟩
  all_goals
    cases h₀
    rfl

end LiveHls
