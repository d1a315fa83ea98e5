import LiveHls.Proofs.TestPattern.Ending

/-!
# The packets before a time, in their order

A clock that counts on without wrapping shows the time of each packet in unbounded arithmetic. While
all clocks of a pattern do, the loop over its packets merges the streams.

* `Stream.Steady`, `takeUntil_eq_some_of_steady` : the clock goes on and does not wrap up to a
  limit; then the bound that `takeUntil` sets itself is enough;
* `Takes.append` : the packets before a limit, and those from there to a later one;
* `IsMerge`, `Takes.isMerge` : the packets before a limit are all there are, in the order of their
  times and, at the same time, of the streams.
-/

namespace LiveHls.TestPattern

/-! ## Clocks that do not wrap -/

namespace Stream

/-- The time of the next packet, in unbounded arithmetic. -/
def clock (s : Stream) : Nat :=
  match s.medium with
  | .video format .. => frameNanos format * s.made
  | .audio _ => s.made * samplesPerFrame * nanosPerSecond / sampleRate.toNat

/-- The time of the next packet is computed without wrapping. -/
def Counted (s : Stream) : Prop :=
  match s.medium with
  | .video .. => s.made < UInt32.size
  | .audio _ => s.made * samplesPerFrame * nanosPerSecond < UInt64.size

/-- The clock does not stand still. -/
def Ticks (s : Stream) : Prop :=
  match s.medium with
  | .video format .. => frameNanos format ≠ 0
  | .audio _ => True

variable {s : Stream} {limit : Duration}

theorem Counted.nanos_timestamp (h : s.Counted) : s.timestamp.nanos = s.clock := by
  cases hmedium : s.medium with
  | video =>
    simp only [Counted, hmedium] at h
    rw [nanos_timestamp_of_video hmedium, Nat.mod_eq_of_lt h, clock, hmedium]
  | audio =>
    simp only [Counted, hmedium] at h
    rw [nanos_timestamp_of_audio hmedium, Nat.mod_eq_of_lt h, clock, hmedium]

theorem Ticks.clock_lt_after (h : s.Ticks) (n : Nat) : s.clock < (s.after (n + 1)).clock := by
  cases hmedium : s.medium with
  | video format =>
    simp only [Ticks, hmedium] at h
    simp only [clock, after, hmedium]
    exact Nat.mul_lt_mul_of_pos_left (by omega) (Nat.pos_of_ne_zero h)
  | audio =>
    simp only [clock, after, hmedium, samplesPerFrame, nanosPerSecond]
    show _ / 48000 < _ / 48000
    omega

theorem Ticks.clock_le_after (h : s.Ticks) (n : Nat) : s.clock ≤ (s.after n).clock := by
  cases n with
  | zero => exact Nat.le_refl _
  | succ n => exact Nat.le_of_lt (h.clock_lt_after n)

/-- The clock goes on, and does not wrap up to the first packet that is not before the limit. -/
structure Steady (limit : Duration) (s : Stream) : Prop where
  ticks : s.Ticks
  counted : s.Counted
  next_counted : ∀ n, (s.after n).clock < limit.nanos → (s.after (n + 1)).Counted

theorem Steady.advance (h : s.Steady limit) (hs : s.clock < limit.nanos) :
    s.advance.Steady limit where
  ticks := h.ticks
  counted := h.next_counted 0 hs
  next_counted := fun n hn => by
    rw [advance_after] at hn ⊢
    exact h.next_counted (n + 1) hn

theorem Steady.mono {later : Duration} (h : s.Steady later) (hle : limit ≤ later) :
    s.Steady limit :=
  ⟨h.ticks, h.counted, fun n hn => h.next_counted n (Nat.lt_of_lt_of_le hn hle)⟩

/-- All packets before the limit are counted. -/
theorem Steady.counted_after (h : s.Steady limit) {n : Nat}
    (hn : (s.after n).clock < limit.nanos) : (s.after n).Counted := by
  cases n with
  | zero => exact h.counted
  | succ n =>
    refine h.next_counted n (Nat.lt_of_le_of_lt ?_ hn)
    exact (show (s.after n).Ticks from h.ticks).clock_le_after 1

/-- With each packet before the limit the clock is one packet nearer to it. -/
theorem Ticks.packetsBefore_advance_lt (h : s.Ticks) (hs : s.clock < limit.nanos) :
    s.advance.packetsBefore limit < s.packetsBefore limit := by
  cases hmedium : s.medium with
  | video format gop size =>
    simp only [Ticks, hmedium] at h
    have hle : s.made ≤ limit.nanos / frameNanos format := by
      rw [Nat.le_div_iff_mul_le (Nat.pos_of_ne_zero h), Nat.mul_comm]
      simp only [clock, hmedium] at hs
      exact Nat.le_of_lt hs
    simp only [packetsBefore, Stream.advance, hmedium]
    omega
  | audio format =>
    have hle : s.made ≤ limit.nanos * sampleRate.toNat / (samplesPerFrame * nanosPerSecond) := by
      rw [Nat.le_div_iff_mul_le (by decide)]
      simp only [clock, hmedium] at hs
      rw [Nat.mul_assoc, Nat.div_lt_iff_lt_mul (by decide)] at hs
      exact Nat.le_of_lt hs
    simp only [packetsBefore, Stream.advance, hmedium]
    omega

end Stream

section Loop
variable {p q r : TestPattern} {limit later : Duration} {xs ys : List Packet}

theorem packetsBefore_eq_sum (p : TestPattern) (limit : Duration) :
    p.packetsBefore limit = (p.streams.map (·.packetsBefore limit)).sum := by
  rw [packetsBefore, List.sum_eq_foldl, List.foldl_map]

/-- While no clock wraps, `takeUntil` has an answer. -/
theorem takeUntil_eq_some_of_steady (h : ∀ s ∈ p.streams, s.Steady limit) :
    ∃ xs q, p.takeUntil limit = some (xs, q) := by
  obtain ⟨xs, q, ht, hlength⟩ := exists_takes (Stream.Steady limit) (·.packetsBefore limit)
    (fun s hs hlt => by
      have hclock : s.clock < limit.nanos := hs.counted.nanos_timestamp ▸ hlt
      exact ⟨hs.advance hclock, hs.ticks.packetsBefore_advance_lt hclock⟩) h
  rw [← packetsBefore_eq_sum] at hlength
  exact ⟨xs, q, takeUntil_eq_some_iff.2 ⟨ht, hlength⟩⟩

theorem steady_advance {i : Nat} {s : Stream} (h : ∀ t ∈ p.streams, t.Steady limit)
    (he : p.streams[i]? = some s) (hs : s.timestamp < limit) :
    ∀ t ∈ (p.advance i).streams, t.Steady limit := by
  intro t ht
  obtain ⟨j, hj⟩ := List.mem_iff_getElem?.1 ht
  rw [getElem?_advance] at hj
  obtain ⟨u, hu, rfl⟩ := Option.map_eq_some_iff.1 hj
  have hsteady := h u (List.mem_of_getElem? hu)
  split
  · rename_i hij
    subst hij
    obtain rfl := Option.some.inj (he.symm.trans hu)
    exact hsteady.advance (hsteady.counted.nanos_timestamp ▸ hs)
  · exact hsteady

/-- Packets before a limit leave all clocks steady up to any later one. -/
theorem Takes.steady (ht : Takes limit p xs q) (hle : limit ≤ later)
    (h : ∀ s ∈ p.streams, s.Steady later) : ∀ s ∈ q.streams, s.Steady later := by
  induction ht with
  | done => exact h
  | cons he hs _ ih =>
    exact ih (steady_advance h (earliest?_isEarliest he).eq (Nat.lt_of_lt_of_le hs hle))

/-- The packets before a limit, and then those before a later one, are those before the later
one. -/
theorem Takes.append (hx : Takes limit p xs q) (hle : limit ≤ later) (hy : Takes later q ys r) :
    Takes later p (xs ++ ys) r := by
  induction hx with
  | done => exact hy
  | cons he hs _ ih => exact .cons he (Nat.lt_of_lt_of_le hs hle) (ih hy)

/-! ## The merge -/

/-- Stream `a.2`, the one at position `a.1`, makes its next packet before `b.2`, the one at position
`b.1`, makes its own: at an earlier time, or at the same time as the one that comes first. -/
def Precedes (a b : Nat × Stream) : Prop :=
  a.2.clock < b.2.clock ∨ a.2.clock = b.2.clock ∧ a.1 < b.1

/-- The turns of the streams of `p` to make a packet before the limit, in their order. -/
structure IsMerge (limit : Duration) (p : TestPattern) (turns : List (Nat × Stream)) : Prop where
  ordered : turns.Pairwise Precedes
  mem_iff : ∀ i s, (i, s) ∈ turns ↔
    ∃ t n, p.streams[i]? = some t ∧ s = t.after n ∧ s.clock < limit.nanos

/-- A turn of the pattern after one of its streams has made a packet. -/
theorem after_advance_iff {i j : Nat} {s t : Stream} (hi : p.streams[i]? = some s) :
    (∃ u n, p.streams[j]? = some u ∧ t = u.after n) ↔
      (j = i ∧ t = s) ∨ ∃ u n, (p.advance i).streams[j]? = some u ∧ t = u.after n := by
  rw [getElem?_advance]
  by_cases hji : j = i
  · subst hji
    rw [hi]
    simp only [Option.map_some, if_true, Option.some.injEq, true_and]
    constructor
    · rintro ⟨u, n, rfl, rfl⟩
      cases n with
      | zero => exact .inl rfl
      | succ n => exact .inr ⟨_, n, rfl, (Stream.advance_after ..).symm⟩
    · rintro (rfl | ⟨u, n, rfl, rfl⟩)
      · exact ⟨t, 0, rfl, rfl⟩
      · exact ⟨s, n + 1, rfl, Stream.advance_after ..⟩
  · have hij : ¬i = j := fun h => hji h.symm
    simp only [hji, false_and, false_or, if_neg hij, Option.map_id']

/-- The turn of the earliest stream precedes all turns after it. -/
theorem IsEarliest.precedes {i j : Nat} {s t : Stream} (hs : p.IsEarliest i s)
    (h : ∀ u ∈ p.streams, u.Steady limit) (ht : (p.advance i).streams[j]? = some t) (n : Nat) :
    Precedes (i, s) (j, t.after n) := by
  have hsteady := h s (List.mem_of_getElem? hs.eq)
  rw [getElem?_advance] at ht
  obtain ⟨u, hu, rfl⟩ := Option.map_eq_some_iff.1 ht
  split
  · -- a later packet of the same stream
    rename_i hij
    subst hij
    obtain rfl := Option.some.inj (hs.eq.symm.trans hu)
    refine .inl ?_
    rw [Stream.advance_after]
    exact hsteady.ticks.clock_lt_after n
  · have husteady := h u (List.mem_of_getElem? hu)
    have hclock := hsteady.counted.nanos_timestamp
    have huclock := husteady.counted.nanos_timestamp
    have hafter := husteady.ticks.clock_le_after n
    have hle : s.timestamp.nanos ≤ u.timestamp.nanos := hs.le hu
    have hlt : j < i → s.timestamp.nanos < u.timestamp.nanos := hs.lt hu
    show s.clock < (u.after n).clock ∨ s.clock = (u.after n).clock ∧ i < j
    omega

/-- **The loop merges the streams**: the packets before the limit are those of all turns before it,
in their order. -/
theorem Takes.isMerge (ht : Takes limit p xs q) (h : ∀ s ∈ p.streams, s.Steady limit) :
    ∃ turns, IsMerge limit p turns ∧ xs = turns.map (·.2.packet) := by
  induction ht with
  | @done p hdone =>
    refine ⟨[], ⟨.nil, fun i s => ⟨nofun, ?_⟩⟩, rfl⟩
    rintro ⟨t, n, ht, rfl, hlt⟩
    have hmem := List.mem_of_getElem? ht
    have hle : limit.nanos ≤ t.clock := (h t hmem).counted.nanos_timestamp ▸ hdone t hmem
    exact absurd (Nat.lt_of_le_of_lt ((h t hmem).ticks.clock_le_after n) hlt) (Nat.not_lt.2 hle)
  | @cons p q i s xs he hs _ ih =>
    have hearliest := earliest?_isEarliest he
    have hsteady := h s (List.mem_of_getElem? hearliest.eq)
    obtain ⟨turns, hmerge, rfl⟩ := ih (steady_advance h hearliest.eq hs)
    refine ⟨(i, s) :: turns, ⟨List.pairwise_cons.2 ⟨?_, hmerge.ordered⟩, ?_⟩, rfl⟩
    · rintro ⟨j, t⟩ hmem
      obtain ⟨u, n, hu, rfl, -⟩ := (hmerge.mem_iff j t).1 hmem
      exact hearliest.precedes h hu n
    · intro j t
      have hturn := after_advance_iff (j := j) (t := t) hearliest.eq
      rw [List.mem_cons, Prod.mk.injEq, hmerge.mem_iff]
      constructor
      · rintro (⟨rfl, rfl⟩ | ⟨u, n, hu, ht, hlt⟩)
        · exact ⟨t, 0, hearliest.eq, rfl, hsteady.counted.nanos_timestamp ▸ hs⟩
        · obtain ⟨v, m, hv, hm⟩ := hturn.2 (.inr ⟨u, n, hu, ht⟩)
          exact ⟨v, m, hv, hm, hlt⟩
      · rintro ⟨u, n, hu, ht, hlt⟩
        rcases hturn.1 ⟨u, n, hu, ht⟩ with heq | ⟨v, m, hv, hm⟩
        · exact .inl heq
        · exact .inr ⟨v, m, hv, hm, hlt⟩

end Loop

end LiveHls.TestPattern
