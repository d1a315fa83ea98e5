import LiveHls.Proofs.Rendition.Listing

/-!
# A blocking playlist covers what was asked for

A read of the playlist may name a segment, and a part of it, that is still to come.

* `Rendition.Reaches`, `lookup_playlist_eq_found_iff` : when such a read has its answer;
* `Rendition.Covers`, `Coherent.covers` : what the text then says of the segment and the part;
* `Situation.firstOutcome?_eq_some`, `Situation.exists_firstOutcome?` : a read ends where it first
  has an outcome;
* `playlist_covers_request` : whenever and after whatever waits a read of the playlist is answered,
  the playlist covers the request, and it is answered as soon as one does.
-/

namespace LiveHls

open Playlist (Line linesOf partUri hintUris)

namespace Playlist

/-- The lines of a text stand in it as they were printed. -/
theorem chars_infix_linesOf {printed lines : List Line} (h : printed <:+: lines) :
    printed.map Line.chars <:+: linesOf (text lines) := by
  rw [linesOf_text]
  exact (h.map Line.chars).trans (List.prefix_append ..).isInfix

theorem chars_mem_linesOf {l : Line} {lines : List Line} (h : l ∈ lines) :
    l.chars ∈ linesOf (text lines) := by
  rw [linesOf_text]
  exact List.mem_append_left _ (List.mem_map_of_mem h)

end Playlist

namespace Rendition

/-! ## When a read of the playlist has its answer -/

/-- The segment that a read asks for has closed, or it is current and the part that the read asks
for, if any, has closed. -/
def Reaches (r : Rendition) (want : Nat) (part : Option Nat) : Prop :=
  want < r.current.id ∨
    want = r.current.id ∧ ∀ p, part = some p → ∃ q, r.current.part? p = some q ∧ q.isClosed = true

section Answers
variable {r : Rendition} {want : Nat} {part : Option Nat}

/-- **A read of the playlist has its answer** exactly if the request is reached, and that is the
playlist of the moment. -/
theorem lookup_playlist_eq_found_iff {result : Except Fault Body} :
    r.lookup (.playlist (some want) part) = .found result ↔
      r.Reaches want part ∧ result = .ok (.playlist r.manifest) := by
  have hmanifest : r.manifestBody = .found result ↔ result = .ok (.playlist r.manifest) := by
    rw [manifestBody, Lookup.found.injEq]
    exact eq_comm
  show r.lookupPlaylist want part = _ ↔ _
  unfold lookupPlaylist Reaches
  rcases Nat.lt_trichotomy want r.current.id with hlt | heq | hgt
  · rw [if_pos hlt, hmanifest]
    exact (and_iff_right (Or.inl hlt)).symm
  · rw [if_neg (by omega), if_neg (by omega)]
    cases part with
    | none =>
      simp only [hmanifest, heq, reduceCtorEq, false_implies, implies_true, and_self, or_true,
        true_and]
    | some p =>
      simp only [lookupCurrentPart]
      cases hp : r.current.part? p with
      | none => simp [heq, hp]
      | some q => cases hq : q.isClosed <;> simp [heq, hp, hq, hmanifest]
  · rw [if_neg (by omega), if_pos hgt]
    simp only [reduceCtorEq, false_iff, not_and]
    omega

/-! ## What the playlist says then -/

/-- How the text of a playlist covers a segment and, if given, a part of it. -/
inductive Covers (r : Rendition) (text : String) (want : Nat) (part : Option Nat) : Prop
  | dropped (past : want < r.mediaSequence)
  /-- The segment's duration and its URI stand in the text. -/
  | ended {s : Segment} (live : s ∈ r.live) (id_eq : s.id = want) (closed : s.isClosed = true)
      (lines : [(Line.segmentDuration s.duration).chars, (Line.segment want).chars] <:+:
        linesOf text)
  /-- The one hint in the text names a part of the segment. -/
  | hinted (current : want = r.current.id) (no_part : part = none)
      (hint : hintUris text = [partUri want r.current.current.id])
  | listed {p : Nat} {q : Part} (current : want = r.current.id) (part_eq : part = some p)
      (here : r.current.part? p = some q) (closed : q.isClosed = true)
      (line : (Line.part want p q.duration q.independent).chars ∈ linesOf text)

/-- **Where a request is reached, the playlist covers it.** -/
theorem Coherent.covers (hr : r.Coherent) (h : r.Reaches want part) :
    r.Covers (Playlist.text r.manifest) want part := by
  rcases h with hlt | ⟨rfl, hpart⟩
  · cases hs : r.segment? want with
    | none => exact .dropped (hr.lt_mediaSequence hs (Nat.le_of_lt hlt))
    | some s =>
      have hc := hr.isClosed_of_segment? hs (Nat.ne_of_lt hlt)
      obtain ⟨hmem, rfl⟩ := hr.segment?_eq_some_iff.1 hs
      have htail : [Line.segmentDuration s.duration, Line.segment s.id] <:+: r.manifest :=
        (List.suffix_cons ..).isInfix.trans (hr.tail_infix hmem hc)
      exact .ended hmem rfl hc (Playlist.chars_infix_linesOf htail)
  · cases part with
    | none => exact .hinted rfl rfl hr.hintUris_manifest
    | some p =>
      obtain ⟨q, hq, hc⟩ := hpart p rfl
      have hmem := List.mem_of_getElem? hq
      have hid : q.id = p := (hr.current_coherent.part_slot p q hq).id_eq
      have hline : Line.part r.current.id p q.duration q.independent ∈ r.manifest :=
        hr.part_mem_manifest_iff.2 ⟨r.current, r.current_mem_live,
          Segment.part_mem_listing.2 ⟨rfl, q, hmem, hc, hid, rfl, rfl⟩⟩
      exact .listed rfl rfl hq hc (Playlist.chars_mem_linesOf hline)

/-- A read of the playlist that `r` answers with `body`. -/
structure Answers (r : Rendition) (want : Nat) (part : Option Nat) (body : Body) : Prop where
  /-- The answer is the playlist of the moment. -/
  body_eq : body = .playlist r.manifest
  covers : r.Covers (Playlist.text r.manifest) want part
  /-- The segment is not still to come, nor is the part. -/
  reaches : r.Reaches want part

theorem Coherent.answers_of_lookup (hr : r.Coherent) {body : Body}
    (h : r.lookup (.playlist (some want) part) = .found (.ok body)) : r.Answers want part body := by
  obtain ⟨hreaches, hbody⟩ := lookup_playlist_eq_found_iff.1 h
  exact ⟨Except.ok.inj hbody, hr.covers hreaches, hreaches⟩

end Answers

end Rendition

/-! ## Runs of a waiting read -/

namespace Reader

theorem wait_ne_ok {w : Reader} {r : Rendition} {now : Clock} {body : Body} :
    w.wait r now ≠ .done (.ok body) := by
  unfold wait
  repeat' split
  all_goals nofun

/-- What is answered is what a look at the rendition finds. -/
theorem lookup_of_poll {w : Reader} {r : Rendition} {now : Clock} {body : Body}
    (h : w.poll r now = .done (.ok body)) : r.lookup w.read = .found (.ok body) := by
  unfold poll at h
  split at h
  · split at h
    · rename_i result hlookup
      rw [hlookup, Polled.done.inj h]
    · exact absurd h wait_ne_ok
  · exact absurd h wait_ne_ok

end Reader

namespace Situation

def afterAll (s : Situation) (occurrences : List Occurrence) : Situation :=
  occurrences.foldl after s

section Runs
variable {s : Situation} {read : Read} {deadline : Deadline} {occurrences : List Occurrence}
  {result : Except Fault Body}

theorem inRange_take (h : s.inRange occurrences = true) (n : Nat) :
    s.inRange (occurrences.take n) = true := by
  induction occurrences generalizing s n with
  | nil =>
    rw [List.take_nil]
    exact h
  | cons o rest ih =>
    cases n with
    | zero => rfl
    | succ n =>
      rw [inRange_cons, Bool.and_eq_true] at h
      rw [List.take_succ_cons, inRange_cons, Bool.and_eq_true]
      exact ⟨h.1, ih h.2 n⟩

theorem later_afterAll (h : s.inRange occurrences = true) :
    s.rendition.Later (s.afterAll occurrences).rendition := by
  induction occurrences generalizing s with
  | nil => exact .refl
  | cons o rest ih =>
    rw [inRange_cons, Bool.and_eq_true] at h
    exact (later_after h.1).trans (ih h.2)

/-- Only the answer of a look is not an error. -/
theorem lookup_of_outcome? {body : Body} (h : s.outcome? read deadline = some (.ok body)) :
    s.rendition.lookup read = .found (.ok body) := by
  unfold outcome? at h
  split at h
  · rename_i hlookup
    rw [hlookup, Option.some.inj h]
  · repeat' split at h
    all_goals cases h

/-- A read ends with an outcome that it has at that moment. -/
theorem firstOutcome?_eq_some {n : Nat}
    (h : s.firstOutcome? read deadline occurrences = some (n, result)) :
    (s.afterAll (occurrences.take n)).outcome? read deadline = some result := by
  induction occurrences generalizing s n with
  | nil =>
    obtain ⟨_, houtcome, heq⟩ := Option.map_eq_some_iff.1 h
    cases heq
    exact houtcome
  | cons o rest ih =>
    rw [firstOutcome?] at h
    split at h
    · rename_i houtcome
      cases h
      exact houtcome
    · obtain ⟨⟨k, _⟩, hrest, heq⟩ := Option.map_eq_some_iff.1 h
      cases heq
      exact ih hrest

/-- A read has ended by the time that it has an outcome. -/
theorem exists_firstOutcome? {n : Nat} (hn : n ≤ occurrences.length)
    (h : (s.afterAll (occurrences.take n)).outcome? read deadline = some result) :
    ∃ k first, k ≤ n ∧ s.firstOutcome? read deadline occurrences = some (k, first) := by
  induction occurrences generalizing s n with
  | nil =>
    obtain rfl := Nat.le_zero.1 hn
    refine ⟨0, result, Nat.le_refl _, ?_⟩
    rw [firstOutcome?, show s.outcome? read deadline = some result from h]
    rfl
  | cons o rest ih =>
    rw [firstOutcome?]
    cases hnow : s.outcome? read deadline with
    | some first => exact ⟨0, first, Nat.zero_le _, rfl⟩
    | none =>
      cases n with
      | zero =>
        rw [show s.outcome? read deadline = some result from h] at hnow
        cases hnow
      | succ n =>
        obtain ⟨k, first, hk, hfirst⟩ := ih (Nat.le_of_succ_le_succ hn) h
        exact ⟨k + 1, first, Nat.succ_le_succ hk, by simp only [hfirst, Option.map_some]⟩

end Runs

end Situation

namespace Rendition

/-- **A blocking playlist covers the request.** In every reachable rendition, whatever a reader of
the playlist has waited for, if it is answered now it gets the playlist of the moment, in whose text
the segment has been dropped, is listed, or is current and hinted at or listed with the part that
was asked for. So a read that waits among writes, the end of the rendition, cancellation and time is
only answered once the request is reached; and it does not wait any longer than that. -/
theorem playlist_covers_request {format : SourceFormat} {options : Options} {r : Rendition}
    (h : Reachable format options r) (want : Nat) (part : Option Nat) :
    (∀ (w : Reader) (now : Clock) (body : Body), w.read = .playlist (some want) part →
      w.poll r now = .done (.ok body) → r.Answers want part body) ∧
    ∀ (clock : Clock) (cancelled : Bool) (name : String) (deadline : Deadline)
      (occurrences : List Occurrence),
      let s : Situation := ⟨r, clock, cancelled⟩
      let read : Read := .playlist (some want) part
      let ended := (Reader.start r clock name read deadline cancelled).end? s occurrences
      s.inRange occurrences = true →
      (∀ n body, ended = some (n, .ok body) →
        (s.afterAll (occurrences.take n)).rendition.Answers want part body) ∧
      ∀ n, n ≤ occurrences.length →
        (s.afterAll (occurrences.take n)).rendition.Reaches want part →
          ∃ k result, k ≤ n ∧ ended = some (k, result) := by
  have hr := h.coherent
  refine ⟨fun w now body hread hpoll => ?_, ?_⟩
  · have hlookup := Reader.lookup_of_poll hpoll
    rw [hread] at hlookup
    exact hr.answers_of_lookup hlookup
  intro clock cancelled name deadline occurrences s read ended hin
  have hended : ended = s.firstOutcome? read deadline occurrences :=
    Polled.end?_eq hr (Reader.agrees_start s name read deadline) hin
  rw [hended]
  constructor
  · intro n body hfirst
    have hlater := Situation.later_afterAll (Situation.inRange_take hin n)
    exact (hr.later hlater).answers_of_lookup
      (Situation.lookup_of_outcome? (Situation.firstOutcome?_eq_some hfirst))
  · intro n hn hreaches
    have houtcome : (s.afterAll (occurrences.take n)).outcome? read deadline =
        some (.ok (.playlist (s.afterAll (occurrences.take n)).rendition.manifest)) := by
      rw [Situation.outcome?, lookup_playlist_eq_found_iff.2 ⟨hreaches, rfl⟩]
    exact Situation.exists_firstOutcome? hn houtcome

/-- A read asks for the first part of the second segment, which does not exist yet. It waits through
two frames that end the first segment, and is answered with the frame after them. -/
theorem playlist_covers_request_of_nextSegment :
    ∃ r lines, Reachable camera shortest r ∧ r.current.id = 0 ∧
      let s : Situation := ⟨r, 0, false⟩
      let frame : Occurrence := .write (cameraFrame true) ⟨0, 0⟩
      let occurrences : List Occurrence := [frame, .advance 30, frame, frame, .close]
      s.inRange occurrences = true ∧
      (Reader.start r 0 "next" (.playlist (some 1) (some 0)) ⟨some 40⟩ false).end? s occurrences =
        some (4, .ok (.playlist lines)) ∧
      (s.afterAll (occurrences.take 4)).rendition.Answers 1 (some 0) (.playlist lines) := by
  obtain ⟨r, lines, h₀, hid, hin, hended⟩ : ∃ r lines,
      new? camera shortest ⟨0, 0⟩ = .ok r ∧ r.current.id = 0 ∧
      let s : Situation := ⟨r, 0, false⟩
      let frame : Occurrence := .write (cameraFrame true) ⟨0, 0⟩
      let occurrences : List Occurrence := [frame, .advance 30, frame, frame, .close]
      s.inRange occurrences = true ∧
      (Reader.start r 0 "next" (.playlist (some 1) (some 0)) ⟨some 40⟩ false).end? s occurrences =
        some (4, .ok (.playlist lines)) :=
    ⟨_, _, rfl, rfl, rfl, rfl⟩
  have hr : Reachable camera shortest r := ⟨_, _, h₀, .refl⟩
  obtain ⟨-, hruns⟩ := playlist_covers_request hr 1 (some 0)
  obtain ⟨hanswers, -⟩ := hruns 0 false "next" ⟨some 40⟩ _ hin
  exact ⟨r, lines, hr, hid, hin, hended, hanswers 4 _ hended⟩

end Rendition

end LiveHls
