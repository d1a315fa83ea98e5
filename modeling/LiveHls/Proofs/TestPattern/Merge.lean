import LiveHls.TestPattern
import Mathlib.Data.List.Induction

/-!
# Packets before a time, one stream at a time

Each packet is that of the first stream whose next packet is earliest, and the loop over them has no
counter of its own: it goes on while the earliest packet is before the limit.

* `IsEarliest`, `earliest?_isEarliest` : what is chosen, with ties;
* `Takes` : the loop with no bound on its length; `takeWithin_eq_some_iff` : a bound changes nothing
  but whether there is an answer.
-/

namespace LiveHls.TestPattern

/-! ## Advancing -/

namespace Stream

/-- The stream with `n` more packets made. -/
def after (s : Stream) (n : Nat) : Stream := { s with made := s.made + n }

@[simp] theorem after_zero (s : Stream) : s.after 0 = s := rfl

@[simp] theorem advance_after (s : Stream) (n : Nat) : s.advance.after n = s.after (n + 1) := by
  simp only [after, advance, Nat.add_assoc, Nat.add_comm 1 n]

end Stream

theorem getElem?_advance (p : TestPattern) (i j : Nat) :
    (p.advance i).streams[j]? =
      (p.streams[j]?).map fun s => if i = j then s.advance else s := by
  rw [advance, List.getElem?_modify]
  split
  · rfl
  · simp

/-! ## The earliest packet -/

/-- The next packet of stream `s`, the `i`th, is earliest, and those of the streams before it are
later. -/
structure IsEarliest (p : TestPattern) (i : Nat) (s : Stream) : Prop where
  eq : p.streams[i]? = some s
  le : ∀ {j : Nat} {t : Stream}, p.streams[j]? = some t → s.timestamp ≤ t.timestamp
  lt : ∀ {j : Nat} {t : Stream}, p.streams[j]? = some t → j < i → s.timestamp < t.timestamp

theorem earliest?_concat (xs : List Stream) (s : Stream) :
    earliest? ⟨xs ++ [s]⟩ =
      match earliest? ⟨xs⟩ with
      | none => some (xs.length, s)
      | some (j, t) => if s.timestamp < t.timestamp then some (xs.length, s) else some (j, t) := by
  rw [earliest?, List.zipIdx_append, List.foldl_append, Nat.zero_add]
  rfl

theorem earliest?_eq_none_iff {p : TestPattern} : p.earliest? = none ↔ p.streams = [] := by
  obtain ⟨xs⟩ := p
  induction xs using List.reverseRecOn with
  | nil => simp [earliest?]
  | append_singleton xs s _ =>
    rw [earliest?_concat]
    split
    · simp
    · split <;> simp

theorem earliest?_isEarliest {p : TestPattern} {i : Nat} {s : Stream}
    (h : p.earliest? = some (i, s)) : p.IsEarliest i s := by
  obtain ⟨xs⟩ := p
  induction xs using List.reverseRecOn generalizing i s with
  | nil => cases h
  | append_singleton xs x ih =>
    have split {j : Nat} {t : Stream} (ht : (xs ++ [x])[j]? = some t) :
        j < xs.length ∧ xs[j]? = some t ∨ j = xs.length ∧ t = x := by
      grind
    rw [earliest?_concat] at h
    cases he : earliest? ⟨xs⟩ with
    | none =>
      obtain rfl : xs = [] := earliest?_eq_none_iff.1 he
      rw [he] at h
      cases h
      refine ⟨rfl, fun ht => ?_, fun _ hj => absurd hj (Nat.not_lt_zero _)⟩
      obtain ⟨hj, -⟩ | ⟨-, rfl⟩ := split ht
      · exact absurd hj (Nat.not_lt_zero _)
      · exact Nat.le_refl _
    | some best =>
      obtain ⟨k, b⟩ := best
      have hb := ih he
      rw [he] at h
      dsimp only at h
      split at h <;> cases h
      · -- the last stream is earlier than all before it
        rename_i hlt
        refine ⟨by simp, fun ht => ?_, fun ht hj => ?_⟩
        · obtain ⟨-, ht⟩ | ⟨-, rfl⟩ := split ht
          · exact Nat.le_of_lt (Nat.lt_of_lt_of_le hlt (hb.le ht))
          · exact Nat.le_refl _
        · obtain ⟨-, ht⟩ | ⟨rfl, -⟩ := split ht
          · exact Nat.lt_of_lt_of_le hlt (hb.le ht)
          · exact absurd hj (Nat.lt_irrefl _)
      · rename_i hlt
        have hk : i < xs.length := (List.getElem?_eq_some_iff.1 hb.eq).1
        refine ⟨?_, fun ht => ?_, fun ht hj => ?_⟩
        · exact (List.getElem?_append_left hk).trans hb.eq
        · obtain ⟨-, ht⟩ | ⟨-, rfl⟩ := split ht
          · exact hb.le ht
          · exact Nat.not_lt.1 hlt
        · obtain ⟨-, ht⟩ | ⟨rfl, -⟩ := split ht
          · exact hb.lt ht hj
          · exact absurd hj (Nat.not_lt.2 (Nat.le_of_lt hk))

/-! ## The loop -/

/-- The loop over the packets of `p` before `limit` takes `xs` and ends at `q`. -/
inductive Takes (limit : Duration) : TestPattern → List Packet → TestPattern → Prop
  | done {p} (h : ∀ s ∈ p.streams, limit ≤ s.timestamp) : Takes limit p [] p
  | cons {p q i s xs} (he : p.earliest? = some (i, s)) (hs : s.timestamp < limit)
      (ht : Takes limit (p.advance i) xs q) : Takes limit p (s.packet :: xs) q

section Loop
variable {p q : TestPattern} {limit : Duration} {taken xs : List Packet} {bound : Nat}

theorem not_lt_of_done {i : Nat} {s : Stream} (h : ∀ s ∈ p.streams, limit ≤ s.timestamp)
    (he : p.earliest? = some (i, s)) : ¬ s.timestamp < limit :=
  Nat.not_lt.2 (h s (List.mem_of_getElem? (earliest?_isEarliest he).eq))

theorem takeOnto_of_done (h : ∀ s ∈ p.streams, limit ≤ s.timestamp) :
    takeOnto limit taken (bound + 1) p = some (taken.reverse, p) := by
  rw [takeOnto]
  split
  · rfl
  · rename_i he
    exact if_pos (Nat.not_lt.1 (not_lt_of_done h he))

theorem takeOnto_of_earliest {i : Nat} {s : Stream} (he : p.earliest? = some (i, s))
    (hs : s.timestamp < limit) :
    takeOnto limit taken (bound + 1) p =
      takeOnto limit (s.packet :: taken) bound (p.advance i) := by
  rw [takeOnto, he]
  exact if_neg (Nat.not_le_of_lt hs)

/-- Either all packets are at the limit or after it, or the earliest is before it. -/
theorem done_or_earliest (p : TestPattern) (limit : Duration) :
    (∀ s ∈ p.streams, limit ≤ s.timestamp) ∨
      ∃ i s, p.earliest? = some (i, s) ∧ s.timestamp < limit := by
  cases he : p.earliest? with
  | none => simp [earliest?_eq_none_iff.1 he]
  | some best =>
    obtain ⟨i, s⟩ := best
    by_cases hs : s.timestamp < limit
    · exact .inr ⟨i, s, rfl, hs⟩
    · refine .inl fun t ht => ?_
      obtain ⟨j, hj⟩ := List.mem_iff_getElem?.1 ht
      exact Nat.le_trans (Nat.not_lt.1 hs) ((earliest?_isEarliest he).le hj)

/-- A bound only decides whether there is an answer: the loop's packets have to be fewer. -/
theorem takeOnto_eq_some_iff {ys : List Packet} :
    takeOnto limit taken bound p = some (ys, q) ↔
      ∃ xs, ys = taken.reverse ++ xs ∧ Takes limit p xs q ∧ xs.length < bound := by
  induction bound generalizing p taken with
  | zero => simp [takeOnto]
  | succ bound ih =>
    obtain hdone | ⟨i, s, he, hs⟩ := done_or_earliest p limit
    · rw [takeOnto_of_done hdone]
      constructor
      · intro h
        cases h
        exact ⟨[], (List.append_nil _).symm, .done hdone, Nat.succ_pos _⟩
      · rintro ⟨xs, rfl, ht, -⟩
        cases ht with
        | done => rw [List.append_nil]
        | cons he hs => exact absurd hs (not_lt_of_done hdone he)
    · rw [takeOnto_of_earliest he hs, ih]
      constructor
      · rintro ⟨xs, rfl, ht, hlt⟩
        exact ⟨s.packet :: xs, by simp, .cons he hs ht, Nat.succ_lt_succ hlt⟩
      · rintro ⟨xs, rfl, ht, hlt⟩
        cases ht with
        | done hdone => exact absurd hs (not_lt_of_done hdone he)
        | cons he' _ ht =>
          cases he.symm.trans he'
          exact ⟨_, by simp, ht, Nat.lt_of_succ_lt_succ hlt⟩

theorem takeWithin_eq_some_iff :
    p.takeWithin bound limit = some (xs, q) ↔ Takes limit p xs q ∧ xs.length < bound := by
  rw [takeWithin, takeOnto_eq_some_iff]
  simp

theorem takeUntil_eq_some_iff :
    p.takeUntil limit = some (xs, q) ↔ Takes limit p xs q ∧ xs.length ≤ p.packetsBefore limit := by
  rw [takeUntil, takeWithin_eq_some_iff, Nat.lt_succ_iff]

/-- The loop is deterministic. -/
theorem Takes.unique {ys : List Packet} {r : TestPattern} (hx : Takes limit p xs q)
    (hy : Takes limit p ys r) : xs = ys ∧ q = r := by
  have hx' := takeWithin_eq_some_iff.2 ⟨hx, Nat.lt_succ_of_le (Nat.le_max_left _ ys.length)⟩
  have hy' := takeWithin_eq_some_iff.2 ⟨hy, Nat.lt_succ_of_le (Nat.le_max_right xs.length _)⟩
  cases hx'.symm.trans hy'
  exact ⟨rfl, rfl⟩

end Loop

end LiveHls.TestPattern
