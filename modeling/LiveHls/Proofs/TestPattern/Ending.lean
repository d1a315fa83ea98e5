import LiveHls.Proofs.TestPattern.Merge
import Mathlib.Algebra.BigOperators.Group.List.Basic
import Mathlib.Algebra.Ring.Nat
import Mathlib.Data.Nat.Find

/-!
# Patterns whose packets before a time come to an end

The loop over the packets before a limit has no counter, so it ends only if every stream gets to the
limit. A clock that stands still, or that wraps first, never does.

* `exists_takes`, `exists_takes_iff` : the loop ends if and only if every stream gets to the limit;
* `Stream.latest`, `Stream.exists_le_timestamp_iff` : how far the clock of a stream gets, wherever
  it stands;
* `calls_end_iff` : the limits for which the patterns of a valid configuration have an answer.
-/

namespace LiveHls.TestPattern

/-! ## Ends -/

section Loop
variable {p q : TestPattern} {limit : Duration} {xs : List Packet}

/-- A loop ends if each packet before the limit brings its stream nearer to it. -/
theorem exists_takes (Good : Stream → Prop) (left : Stream → Nat)
    (hgood : ∀ s, Good s → s.timestamp < limit → Good s.advance ∧ left s.advance < left s)
    (h : ∀ s ∈ p.streams, Good s) :
    ∃ xs q, Takes limit p xs q ∧ xs.length ≤ (p.streams.map left).sum := by
  induction htotal : (p.streams.map left).sum using Nat.strongRecOn generalizing p with
  | ind total ih =>
    obtain hdone | ⟨i, s, he, hs⟩ := done_or_earliest p limit
    · exact ⟨[], p, .done hdone, Nat.zero_le _⟩
    have hi := (earliest?_isEarliest he).eq
    obtain ⟨hlength, hget⟩ := List.getElem?_eq_some_iff.1 hi
    obtain ⟨front, t, back, hstreams, hfront, hadvance⟩ :=
      List.exists_of_modify (·.advance) hlength
    obtain rfl : t = s := by
      rw [hstreams, ← hfront, List.getElem?_append_right (Nat.le_refl _), Nat.sub_self] at hi
      exact Option.some.inj hi
    obtain ⟨hnext, hlt⟩ := hgood t (h t (List.mem_of_getElem? hi)) hs
    have hsum : ((p.advance i).streams.map left).sum < total := by
      rw [← htotal, advance, hadvance, hstreams]
      simp only [List.map_append, List.map_cons, List.sum_append, List.sum_cons]
      omega
    have hgoods : ∀ u ∈ (p.advance i).streams, Good u := by
      rw [advance, hadvance]
      rw [hstreams] at h
      grind
    obtain ⟨xs, q, ht, hxs⟩ := ih _ hsum hgoods rfl
    exact ⟨_, _, .cons he hs ht, Nat.succ_le_of_lt (Nat.lt_of_le_of_lt hxs hsum)⟩

/-- A loop that ends has brought every stream to the limit. -/
theorem Takes.exists_le (ht : Takes limit p xs q) {i : Nat} {s : Stream}
    (hs : p.streams[i]? = some s) : ∃ n, limit ≤ (s.after n).timestamp := by
  induction ht generalizing s with
  | done h => exact ⟨0, h s (List.mem_of_getElem? hs)⟩
  | @cons p q j t xs he hlt ht ih =>
    have hnext := getElem?_advance p j i
    rw [hs, Option.map_some] at hnext
    obtain ⟨n, hn⟩ := ih hnext
    split at hn
    · exact ⟨n + 1, by rwa [Stream.advance_after] at hn⟩
    · exact ⟨n, hn⟩

/-- The loop ends if and only if every stream gets to the limit. -/
theorem exists_takes_iff :
    (∃ xs q, Takes limit p xs q) ↔ ∀ s ∈ p.streams, ∃ n, limit ≤ (s.after n).timestamp := by
  classical
  constructor
  · rintro ⟨xs, q, ht⟩ s hs
    obtain ⟨i, hi⟩ := List.mem_iff_getElem?.1 hs
    exact ht.exists_le hi
  · intro h
    let left (s : Stream) : Nat :=
      if hn : ∃ n, limit ≤ (s.after n).timestamp then Nat.find hn else 0
    suffices hleft : ∀ s, (∃ n, limit ≤ (s.after n).timestamp) → s.timestamp < limit →
        (∃ n, limit ≤ (s.advance.after n).timestamp) ∧ left s.advance < left s by
      obtain ⟨xs, q, ht, -⟩ := exists_takes _ left hleft h
      exact ⟨xs, q, ht⟩
    intro s hgood hlt
    -- the first packet at the limit is not the next one, so it is one nearer after it
    obtain ⟨n, hn⟩ : ∃ n, Nat.find hgood = n + 1 := by
      refine Nat.exists_eq_succ_of_ne_zero fun h0 => ?_
      have := Nat.find_spec hgood
      rw [h0, Stream.after_zero] at this
      exact absurd hlt (Nat.not_lt.2 this)
    have hreach : limit ≤ (s.advance.after n).timestamp := by
      rw [Stream.advance_after, ← hn]
      exact Nat.find_spec hgood
    have hgood' : ∃ n, limit ≤ (s.advance.after n).timestamp := ⟨n, hreach⟩
    refine ⟨hgood', ?_⟩
    simp only [left, dif_pos hgood, dif_pos hgood', hn]
    exact Nat.lt_succ_of_le (Nat.find_le hreach)

end Loop

/-! ## Clocks -/

/-- The last time that the clock of a video stream shows before its 32-bit count of frames wraps. -/
def videoLatest (fps : UInt32) : Nat := nanosPerSecond / fps.toNat * (UInt32.size - 1)

/-- The last time that the clock of an audio stream shows: a frame is `2 ^ 19 * 5 ^ 9` sample
nanoseconds, so the largest multiple that 64 bits hold, in the course of wrapping, is
`2 ^ 64 - 2 ^ 19`. -/
def audioLatest : Nat := (UInt64.size - 2 ^ 19) / sampleRate.toNat

namespace Stream

def latest (s : Stream) : Nat :=
  match s.medium with
  | .video format .. => videoLatest format.fps
  | .audio _ => audioLatest

theorem nanos_timestamp_of_video {s : Stream} {format : VideoFormat} {gop size : Nat}
    (h : s.medium = .video format gop size) :
    s.timestamp.nanos = frameNanos format * (s.made % UInt32.size) := by
  rw [timestamp]
  split <;> simp_all

theorem nanos_timestamp_of_audio {s : Stream} {format : AudioFormat}
    (h : s.medium = .audio format) :
    s.timestamp.nanos =
      s.made * samplesPerFrame * nanosPerSecond % UInt64.size / sampleRate.toNat := by
  rw [timestamp]
  split <;> simp_all

theorem timestamp_le_latest (s : Stream) : s.timestamp.nanos ≤ s.latest := by
  cases hmedium : s.medium with
  | video format =>
    rw [nanos_timestamp_of_video hmedium, latest, hmedium]
    exact Nat.mul_le_mul_left _ (Nat.le_sub_one_of_lt (Nat.mod_lt _ (by decide)))
  | audio =>
    rw [nanos_timestamp_of_audio hmedium, latest, hmedium]
    refine Nat.div_le_div_right ?_
    unfold samplesPerFrame nanosPerSecond UInt64.size
    omega

/-- Every clock comes to show its latest time, however often it has wrapped. -/
theorem exists_timestamp_eq_latest (s : Stream) : ∃ n, (s.after n).timestamp.nanos = s.latest := by
  cases hmedium : s.medium with
  | video format =>
    refine ⟨UInt32.size - 1 - s.made % UInt32.size, ?_⟩
    rw [nanos_timestamp_of_video (s := s.after _) hmedium, latest, hmedium]
    refine congrArg (frameNanos format * ·) ?_
    simp only [after]
    unfold UInt32.size
    omega
  | audio =>
    -- this frame is one before a multiple of `2 ^ 45` in units of `5 ^ 9`
    refine ⟨19506765325203 + 2 ^ 45 * s.made - s.made, ?_⟩
    rw [nanos_timestamp_of_audio (s := s.after _) hmedium, latest, hmedium]
    congr 1
    simp only [after]
    unfold samplesPerFrame nanosPerSecond UInt64.size
    omega

theorem exists_le_timestamp_iff (s : Stream) (limit : Duration) :
    (∃ n, limit ≤ (s.after n).timestamp) ↔ limit.nanos ≤ s.latest := by
  constructor
  · rintro ⟨n, hn⟩
    exact Nat.le_trans hn (timestamp_le_latest (s.after n))
  · intro h
    obtain ⟨n, hn⟩ := s.exists_timestamp_eq_latest
    exact ⟨n, Nat.le_trans h (Nat.le_of_eq hn.symm)⟩

end Stream

/-! ## Calls on the pattern of a configuration -/

/-- The patterns that calls for the packets before a time, one after the other, lead to. -/
inductive AfterCalls (start : TestPattern) : TestPattern → Prop
  | start : AfterCalls start start
  | call {p q limit bound xs} (hp : AfterCalls start p)
      (ht : p.takeWithin bound limit = some (xs, q)) : AfterCalls start q

theorem map_latest_advance (p : TestPattern) (i : Nat) :
    (p.advance i).streams.map Stream.latest = p.streams.map Stream.latest := by
  refine List.ext_getElem? fun j => ?_
  rw [List.getElem?_map, List.getElem?_map, getElem?_advance, Option.map_map]
  congr 1
  funext s
  simp only [Function.comp_apply]
  split <;> rfl

theorem Takes.map_latest {p q : TestPattern} {limit : Duration} {xs : List Packet}
    (h : Takes limit p xs q) : q.streams.map Stream.latest = p.streams.map Stream.latest := by
  induction h with
  | done => rfl
  | cons _ _ _ ih => rw [ih, map_latest_advance]

theorem AfterCalls.map_latest {start p : TestPattern} (h : AfterCalls start p) :
    p.streams.map Stream.latest = start.streams.map Stream.latest := by
  induction h with
  | start => rfl
  | call _ ht ih => rw [(takeWithin_eq_some_iff.1 ht).1.map_latest, ih]

/-- The loop ends if and only if the limit is within every clock. -/
theorem exists_takeWithin_iff {p : TestPattern} {limit : Duration} :
    (∃ bound xs q, p.takeWithin bound limit = some (xs, q)) ↔
      ∀ latest ∈ p.streams.map Stream.latest, limit.nanos ≤ latest := by
  have hends : (∃ bound xs q, p.takeWithin bound limit = some (xs, q)) ↔
      ∃ xs q, Takes limit p xs q := by
    constructor
    · rintro ⟨bound, xs, q, h⟩
      exact ⟨xs, q, (takeWithin_eq_some_iff.1 h).1⟩
    · rintro ⟨xs, q, h⟩
      exact ⟨_, xs, q, takeWithin_eq_some_iff.2 ⟨h, Nat.lt_succ_self _⟩⟩
  rw [hends, exists_takes_iff]
  simp only [Stream.exists_le_timestamp_iff, List.forall_mem_map]

section Settings
variable {settings : PatternSettings}

theorem max_one_of_ne_zero {n : UInt32} (h : n ≠ 0) : max n 1 = n := by
  have hpos : n.toNat ≠ 0 := fun h0 => h (UInt32.toNat_inj.1 h0)
  show (if n ≤ 1 then 1 else n) = n
  split
  · rename_i hle
    have : n.toNat ≤ 1 := UInt32.le_iff_toNat_le.1 hle
    exact UInt32.toNat_inj.1 (by rw [UInt32.toNat_one]; omega)
  · rfl

theorem map_latest_streamsOf (hfps : settings.fps ≠ 0) (width height : UInt32) :
    (streamsOf settings width height).map Stream.latest =
      videoLatest settings.fps :: if settings.audio then [audioLatest] else [] := by
  unfold streamsOf
  cases settings.audio <;> simp [Stream.latest, max_one_of_ne_zero hfps]

theorem within_new_iff (hfps : settings.fps ≠ 0) (n : Nat) :
    (∀ latest ∈ (new settings).streams.map Stream.latest, n ≤ latest) ↔
      settings.resolutions = [] ∨
        n ≤ videoLatest settings.fps ∧ (settings.audio = true → n ≤ audioLatest) := by
  have heach (latest : Nat) : latest ∈ (new settings).streams.map Stream.latest ↔
      settings.resolutions ≠ [] ∧
        (latest = videoLatest settings.fps ∨ settings.audio = true ∧ latest = audioLatest) := by
    simp only [new, List.map_flatMap, map_latest_streamsOf hfps, List.mem_flatMap]
    cases settings.resolutions <;> cases settings.audio <;> simp
  simp only [heach]
  constructor
  · intro h
    by_cases hnil : settings.resolutions = []
    · exact .inl hnil
    · exact .inr ⟨h _ ⟨hnil, .inl rfl⟩, fun haudio => h _ ⟨hnil, .inr ⟨haudio, rfl⟩⟩⟩
  · rintro (hnil | ⟨hvideo, haudio⟩) latest ⟨hne, rfl | ⟨ha, rfl⟩⟩
    · exact absurd hnil hne
    · exact absurd hnil hne
    · exact hvideo
    · exact haudio ha

end Settings

theorem fps_ne_zero_of_valid {c : Config} (hc : c.invalid? = none) : c.pattern.fps ≠ 0 := by
  unfold Config.invalid? at hc
  grind

/-- **Packets before a time come to an end** for the pattern of a valid configuration, after any
calls, if and only if the time is within the clocks. Video has `10 ^ 9 / fps` whole nanoseconds a
frame, so above `10 ^ 9` frames a second no time but zero is. -/
theorem calls_end_iff {c : Config} (hc : c.invalid? = none) {p : TestPattern}
    (hp : AfterCalls (new c.pattern) p) (limit : Duration) :
    (∃ bound xs q, p.takeWithin bound limit = some (xs, q)) ↔
      c.pattern.resolutions = [] ∨
        limit.nanos ≤ videoLatest c.pattern.fps ∧
          (c.pattern.audio = true → limit.nanos ≤ audioLatest) := by
  rw [exists_takeWithin_iff, hp.map_latest, within_new_iff (fps_ne_zero_of_valid hc)]

/-- A small pattern with two thousand million frames a second, which no check refuses. -/
def fastFrames : Config where
  packager := .default
  pattern := { resolutions := [(16, 16)], fps := 2000000000, gop := 1, audio := false }

/-- One second of ten frames with sound beside them. -/
def slowFrames : Config where
  packager := .default
  pattern := { resolutions := [(16, 16)], fps := 10, gop := 5, audio := true }

/-- A call for the packets before a tenth of a second ends; so does one for a second after it. -/
theorem calls_end_of_slowFrames :
    ∃ p q r xs ys, p = new slowFrames.pattern ∧
      p.takeWithin 7 (.ofMillis 100) = some (xs, q) ∧
      ∃ bound, q.takeWithin bound (.ofMillis 1000) = some (ys, r) := by
  obtain ⟨⟨xs, q⟩, hfirst⟩ : ∃ r,
      (new slowFrames.pattern).takeWithin 7 (.ofMillis 100) = some r :=
    Option.isSome_iff_exists.1 (by decide +kernel)
  obtain ⟨bound, ys, r, hsecond⟩ :=
    (calls_end_iff (by decide) (.call .start hfirst) (.ofMillis 1000)).2
      (.inr ⟨by decide +kernel, fun _ => by decide +kernel⟩)
  exact ⟨_, q, r, xs, ys, rfl, hfirst, bound, hsecond⟩

/-- Frames of less than a nanosecond have no duration, so the packets before a nanosecond never
end. -/
theorem fastFrames_endless :
    fastFrames.invalid? = none ∧
      ∀ bound, (new fastFrames.pattern).takeWithin bound ⟨1, by decide⟩ = none := by
  refine ⟨by decide, fun bound => Option.eq_none_iff_forall_ne_some.2 fun ⟨xs, q⟩ h => ?_⟩
  have hwithin := (exists_takeWithin_iff.1 ⟨bound, xs, q, h⟩) 0 (by decide)
  exact absurd hwithin (by decide)

end LiveHls.TestPattern
