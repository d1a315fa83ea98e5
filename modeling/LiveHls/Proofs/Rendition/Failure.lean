import LiveHls.Proofs.Rendition.Ring

/-!
# What a failed write leaves behind

A refused packet leaves a rendition as it was. A packet whose durations leave their range does not
always: the sums are formed after other fields were set.

* `Part.write_overflow` : the sum of a part fails after a keyframe has marked it independent;
* `Segment.write_overflow` : the sum of a segment fails after its current part has taken the packet
  and closed;
* `Rendition.write_failed` : nothing but the current part of the current segment is touched;
* `write_eq_self_iff` : exactly when a failed write leaves a rendition as it was;
  `failed_keyframe_marks_part` : a keyframe that fails and is seen in the playlist later.
-/

namespace LiveHls

namespace Part

/-- The part with the mark that a packet leaves before its duration is looked at. -/
def marked (p : Part) (x : Packet) : Part :=
  { p with independent := p.independent || x.isKeyframe }

theorem marked_eq_self_iff {p : Part} {x : Packet} :
    p.marked x = p ↔ (x.isKeyframe = true → p.independent = true) := by
  constructor
  · intro h hk
    have hi : (p.independent || x.isKeyframe) = p.independent := congrArg Part.independent h
    rw [← hi, hk, Bool.or_true]
  · intro h
    have hi : (p.independent || x.isKeyframe) = p.independent := by
      cases hk : x.isKeyframe with
      | false => exact Bool.or_false _
      | true => rw [h hk, Bool.or_true]
    unfold marked
    rw [hi]

theorem write_eq (p : Part) (x : Packet) : p.write x =
    if p.counts x then
      match p.duration.add? x.duration with
      | none => (p.marked x, .overflow)
      | some total =>
        if p.target ≤ total then ((p.extend x total).close, .closed)
        else (p.extend x total, .remainsOpen)
    else (p.extend x p.duration, .remainsOpen) :=
  rfl

/-- **A write to a part fails** exactly if the packet counts and the part's sum leaves its range;
the packet's mark stays. -/
theorem write_overflow {p : Part} {x : Packet} :
    (p.write x).2 = .overflow ↔ p.counts x = true ∧ p.duration.add? x.duration = none := by
  rw [write_eq]
  cases p.counts x with
  | false => simp
  | true =>
    cases p.duration.add? x.duration with
    | none => simp
    | some total =>
      simp only [if_true]
      split <;> simp

theorem write_of_overflow {p : Part} {x : Packet} (h : (p.write x).2 = .overflow) :
    p.write x = (p.marked x, .overflow) := by
  obtain ⟨hc, ha⟩ := write_overflow.1 h
  rw [write_eq, if_pos hc, ha]

/-- A packet that closes a part is in it. -/
theorem ne_self_of_write_closed {p : Part} {x : Packet} (h : (p.write x).2 = .closed) :
    (p.write x).1 ≠ p := by
  intro he
  rcases write_cases p x with ho | ⟨total, -, ⟨-, hw⟩ | ⟨-, hw⟩⟩
  · rw [h] at ho
    cases ho
  · rw [hw] at h
    cases h
  · rw [hw] at he
    have hlength := congrArg (fun q : Part => q.packets.length) he
    simp [close, extend] at hlength

end Part

namespace Segment

/-- **A write to a segment fails** in its current part, which keeps the packet's mark, or in its own
sum, when its current part has taken the packet and closed. Nothing else changes. -/
theorem write_overflow {s : Segment} {x : Packet} (h : (s.write x).2 = .overflow) :
    (s.current.counts x = true ∧ s.current.duration.add? x.duration = none ∧
        (s.write x).1 = s.extend (s.current.marked x)) ∨
      ((s.current.write x).2 = .closed ∧ s.duration.add? (s.current.write x).1.duration = none ∧
        (s.write x).1 = s.extend (s.current.write x).1) := by
  rcases hp : s.current.write x with ⟨q, progress⟩
  cases progress with
  | remainsOpen =>
    rw [Segment.write, hp] at h
    cases h
  | overflow =>
    have ho : (s.current.write x).2 = .overflow := by rw [hp]
    obtain ⟨hc, ha⟩ := Part.write_overflow.1 ho
    refine Or.inl ⟨hc, ha, ?_⟩
    rw [Segment.write, Part.write_of_overflow ho]
    rfl
  | closed =>
    right
    rw [Segment.write, hp] at h ⊢
    simp only [advance] at h ⊢
    cases ha : s.duration.add? q.duration with
    | none => exact ⟨trivial, rfl, rfl⟩
    | some total =>
      rw [ha] at h
      simp only at h
      split at h
      · cases h
      · cases h

theorem extend_eq_self_iff {s : Segment} {q : Part} : s.extend q = s ↔ q = s.current :=
  ⟨fun h => congrArg Segment.current h, fun h => h ▸ rfl⟩

end Segment

namespace Rendition

/-- **What a failed write leaves.** A refused packet changes nothing. A packet whose durations leave
their range changes at most the current part: other segments and parts, numbers and playlist are as
before. -/
theorem write_failed {r : Rendition} {x : Packet} {now : Instant}
    (h : (r.write x now).2 ≠ .ok ()) :
    (∃ e, r.refusal? x = some e ∧ r.write x now = (r, .error (.error e))) ∨
      r.refusal? x = none ∧ (r.current.write (fold x)).2 = .overflow ∧
        r.write x now =
          ({ r with current := (r.current.write (fold x)).1 }, .error .durationOverflow) := by
  unfold Rendition.write at h ⊢
  cases ha : r.refusal? x with
  | some e => exact Or.inl ⟨e, rfl, rfl⟩
  | none =>
    right
    rw [ha] at h
    rcases hp : r.current.write (fold x) with ⟨t, progress⟩
    rw [hp] at h
    cases progress with
    | overflow => exact ⟨rfl, rfl, rfl⟩
    | remainsOpen => exact absurd rfl h
    | closed => exact absurd rfl h

/-- **Exactly when a failed write leaves a rendition as it was**: the packet was refused, or the sum
of the current part left its range and the packet is no keyframe or the part has one already. -/
theorem write_eq_self_iff {r : Rendition} {x : Packet} {now : Instant}
    (h : (r.write x now).2 ≠ .ok ()) :
    (r.write x now).1 = r ↔
      (r.refusal? x).isSome = true ∨
        r.current.current.duration.add? x.duration = none ∧
          (x.isKeyframe = true → r.current.current.independent = true) := by
  rcases write_failed h with ⟨e, he, hw⟩ | ⟨ha, ho, hw⟩
  · rw [hw, he]
    exact iff_of_true rfl (Or.inl rfl)
  · have hself : (r.write x now).1 = r ↔ (r.current.write (fold x)).1 = r.current := by
      rw [hw]
      exact ⟨fun h => congrArg Rendition.current h, fun h => by rw [h]⟩
    rw [hself, ha]
    rcases Segment.write_overflow ho with ⟨hc, hadd, ht⟩ | ⟨hc, hadd, ht⟩
    · rw [ht, Segment.extend_eq_self_iff, Part.marked_eq_self_iff]
      exact ⟨fun hk => Or.inr ⟨hadd, hk⟩, fun hk => (hk.resolve_left nofun).2⟩
    · -- the part has closed, so its own sum is in range and it holds one packet more
      rw [ht, Segment.extend_eq_self_iff]
      refine iff_of_false (Part.ne_self_of_write_closed hc) fun hk => ?_
      obtain ⟨hnone, -⟩ := hk.resolve_left nofun
      rw [Part.write_eq, show r.current.current.duration.add? (fold x).duration = none from hnone]
        at hc
      split at hc <;> cases hc

/-! ### A keyframe that fails -/

/-- A frame of a quarter of a second; two of them make a part. -/
def quarter : Packet := { cameraFrame false with duration := .ofMillis 250 }

/-- A keyframe that lasts as long as a duration can. -/
def endless : Packet :=
  { cameraFrame true with duration := ⟨UInt64.size * nanosPerSecond - 1, by decide⟩ }

/-- The rendition after the keyframe has failed is another one: the next frame closes a part that
is listed as independent, while it holds no keyframe. -/
theorem failed_keyframe_marks_part : ∃ r, Reachable camera .default r ∧
    (r.write endless ⟨0, 0⟩).2 = .error .durationOverflow ∧
    (r.write endless ⟨0, 0⟩).1 ≠ r ∧
    .part 0 0 (.ofMillis 500) false ∈ (r.write quarter ⟨0, 0⟩).1.manifest ∧
    .part 0 0 (.ofMillis 500) true ∈
      ((r.write endless ⟨0, 0⟩).1.write quarter ⟨0, 0⟩).1.manifest := by
  obtain ⟨r₀, h₀⟩ : ∃ r, new? camera .default ⟨0, 0⟩ = .ok r := ⟨_, rfl⟩
  refine ⟨(r₀.write quarter ⟨0, 0⟩).1, ⟨_, r₀, h₀, .single (.write _ _ ?_)⟩, ?_, ?_, ?_, ?_⟩
  all_goals cases h₀
  · rfl
  · rfl
  · intro h
    exact absurd (congrArg (fun r : Rendition => r.current.current.independent) h) (by decide)
  · decide
  · decide

/-- A frame that fails without being a keyframe leaves the rendition as it was. -/
theorem write_eq_self_of_endless_frame : ∃ r, Reachable camera .default r ∧
    r.write { endless with medium := quarter.medium } ⟨0, 0⟩ = (r, .error .durationOverflow) := by
  obtain ⟨r₀, h₀⟩ : ∃ r, new? camera .default ⟨0, 0⟩ = .ok r := ⟨_, rfl⟩
  refine ⟨(r₀.write quarter ⟨0, 0⟩).1, ⟨_, r₀, h₀, .single (.write _ _ ?_)⟩, ?_⟩
  · cases h₀
    rfl
  · have hfailed : ((r₀.write quarter ⟨0, 0⟩).1.write
        { endless with medium := quarter.medium } ⟨0, 0⟩).2 = .error .durationOverflow := by
      cases h₀
      rfl
    refine Prod.ext ((write_eq_self_iff (by rw [hfailed]; nofun)).2 (Or.inr ⟨?_, ?_⟩)) hfailed
    · cases h₀
      rfl
    · nofun

end Rendition

end LiveHls
