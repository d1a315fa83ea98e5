import LiveHls.Proofs.Duration.Seconds
import LiveHls.Proofs.Rendition.Listing

/-!
# How far segments overshoot their target

A playlist advertises the duration at which segments close, rounded up to seconds. A segment closes
with the part that reaches it, which may go far beyond.

* `Segment.EarlierShort` : the parts before the last do not reach the target
  (`Segment.Written.earlierShort`), so a closed segment is too long by less than its last part
  (`Segment.Coherent.duration_lt`);
* `Reachable.earlierShort` : segments of every reachable rendition are like that;
* `Coherent.targetDuration_mem_iff`, `Coherent.segmentDuration_mem_iff` : the durations in a
  playlist;
* `advertisesTarget_of_reachable` : how the listed durations compare with the advertised one.
-/

namespace LiveHls

/-! ## Segments -/

namespace Segment

/-- The parts before the last do not reach the target. -/
def EarlierShort (s : Segment) : Prop :=
  (s.earlier.map (·.duration.nanos)).sum < s.target.nanos

section EarlierShort
variable {s t : Segment} {x : Packet} {progress : Progress}

/-- A segment lasts as long as the parts before the last, and once it is closed the last counts. -/
theorem Coherent.duration_eq_earlier (hs : s.Coherent) :
    s.duration.nanos = (s.earlier.map (·.duration.nanos)).sum +
      if s.isClosed then s.current.duration.nanos else 0 := by
  rw [hs.duration_eq, parts, hs.filter_concat, hs.current_closed]
  cases s.isClosed <;> simp

theorem Coherent.target_le_duration (hs : s.Coherent) (hc : s.isClosed = true) :
    s.target ≤ s.duration := by
  have heq := hs.closed_eq
  rw [hc, eq_comm, Bool.and_eq_true, decide_eq_true_iff] at heq
  exact heq.2

theorem Coherent.duration_lt (hs : s.Coherent) (h : s.EarlierShort) (hc : s.isClosed = true) :
    s.duration.nanos < s.target.nanos + s.current.duration.nanos := by
  rw [hs.duration_eq_earlier, hc, if_pos rfl]
  exact Nat.add_lt_add_right h _

/-- A write keeps the parts before the last short: the next part opens only below the target. -/
theorem Written.earlierShort (hw : s.Written x t progress) (hs : s.Coherent)
    (hopen : s.isClosed = false) (h : s.EarlierShort) : t.EarlierShort := by
  cases hw with
  | extended => exact h
  | finished => exact h
  | @continued q total _ _ ht hshort =>
    have hsum : ((s.earlier ++ [q]).map (·.duration.nanos)).sum = total.nanos := by
      rw [ht, hs.duration_eq_earlier, hopen, List.map_append, List.sum_append]
      simp
    exact hsum.trans_lt hshort

end EarlierShort

theorem targetDuration_notMem_listing (s : Segment) (n : UInt64) :
    .targetDuration n ∉ s.listing := by
  rw [listing, List.mem_append, List.mem_map]
  cases s.isClosed <;> simp [Playlist.segmentTail]

theorem segmentDuration_mem_listing {s : Segment} {d : Duration} :
    .segmentDuration d ∈ s.listing ↔ s.isClosed = true ∧ s.duration = d := by
  rw [listing, List.mem_append, List.mem_map]
  cases s.isClosed with
  | false => simp
  | true =>
    simp only [Playlist.segmentTail, if_true, reduceCtorEq, and_false, exists_false, List.mem_cons,
      Playlist.Line.segmentDuration.injEq, List.not_mem_nil, or_false, false_or, true_and]
    exact eq_comm

end Segment

namespace Rendition

section Runs
variable {format : SourceFormat} {options : Options} {r r' : Rendition} {x : Packet}
  {now : Instant} {result : Except Fault Unit}

theorem Written.earlierShort (hw : r.Written x now r' result) (hr : r.Coherent)
    (hpos : 0 < r.options.segmentDuration.nanos) (h : ∀ s ∈ r.live, s.EarlierShort) :
    ∀ s ∈ r'.live, s.EarlierShort := by
  intro s hs
  rcases hw.live_cases hr hs with hs | ⟨progress, hwritten⟩ | rfl
  · exact h s hs
  · exact hwritten.earlierShort hr.current_coherent hr.current_open (h _ r.current_mem_live)
  · exact hpos

/-- **In every reachable rendition** the parts before the last of a segment do not reach the
target. -/
theorem Reachable.earlierShort (h : Reachable format options r)
    (hpos : 0 < options.segmentDuration.nanos) : ∀ s ∈ r.live, s.EarlierShort := by
  obtain ⟨now, r₀, h₀, hlater⟩ := h
  have hr₀ := coherent_of_new? h₀
  obtain ⟨-, -, hoptions, hearlier, hcurrent, -⟩ := new?_eq_ok h₀
  have hpos₀ : 0 < r₀.options.segmentDuration.nanos := by
    rw [hoptions]
    exact hpos
  induction hlater with
  | refl =>
    intro s hs
    rw [live, hearlier, hcurrent] at hs
    rw [List.mem_singleton.1 hs]
    exact hpos₀
  | tail hprev hstep ih =>
    cases hstep with
    | write x now hin =>
      have hr := hr₀.later hprev
      refine (hr.write x now hin).earlierShort hr ?_ ih
      rw [(hr₀.frame_later hprev).2.1]
      exact hpos₀
    | close => exact ih

/-! ## Durations in the playlist -/

/-- There is one target duration in the playlist. -/
theorem Coherent.targetDuration_mem_iff (hr : r.Coherent) {n : UInt64} :
    .targetDuration n ∈ r.manifest ↔ n = r.options.segmentDuration.ceilSeconds := by
  rw [hr.manifest_eq_listings]
  simp [Playlist.header, Segment.targetDuration_notMem_listing]

/-- The playlist lists the durations of the closed segments. -/
theorem Coherent.segmentDuration_mem_iff (hr : r.Coherent) {d : Duration} :
    .segmentDuration d ∈ r.manifest ↔ ∃ s ∈ r.live, s.isClosed = true ∧ s.duration = d := by
  rw [hr.mem_manifest_iff (l := .segmentDuration d) (by simp [Playlist.header]) nofun]
  simp only [Segment.segmentDuration_mem_listing]

end Runs

/-- A rendition whose playlist advertises the duration `target` at which its segments close, and
lists what they last. -/
structure AdvertisesTarget (target : Duration) (r : Rendition) : Prop where
  targetDuration_iff : ∀ n, .targetDuration n ∈ r.manifest ↔ n = target.ceilSeconds
  /-- The advertised duration is the target, rounded up. -/
  ceilSeconds_eq : target.nanos < 2 ^ 23 * nanosPerSecond →
    target.ceilSeconds.toNat = target.nanos ⌈/⌉ nanosPerSecond
  segmentDuration_iff : ∀ d, .segmentDuration d ∈ r.manifest ↔
    ∃ s ∈ r.live, s.isClosed = true ∧ s.duration = d
  /-- What is listed is not shorter than the target, and longer by less than a last part. -/
  overshoot : ∀ s ∈ r.live, s.isClosed = true →
    target ≤ s.duration ∧ s.duration.nanos < target.nanos + s.current.duration.nanos
  /-- A target of whole seconds bounds only those segments that hit it. -/
  bounded_iff : target.nanos < 2 ^ 23 * nanosPerSecond → nanosPerSecond ∣ target.nanos →
    ∀ d, .segmentDuration d ∈ r.manifest →
      (d.nanos ≤ target.ceilSeconds.toNat * nanosPerSecond ↔ d = target)

/-- **The advertised target duration** is the configured one, rounded up. A listed segment is too
long for it by less than its last part, and if the configured duration is a number of seconds, by
any overshoot at all. -/
theorem advertisesTarget_of_reachable {format : SourceFormat} {options : Options} {r : Rendition}
    (h : Reachable format options r) (hpos : 0 < options.segmentDuration.nanos) :
    r.AdvertisesTarget options.segmentDuration := by
  have hr := h.coherent
  have htarget : r.options.segmentDuration = options.segmentDuration := by rw [h.options_eq]
  have hreached : ∀ s ∈ r.live, s.isClosed = true → options.segmentDuration ≤ s.duration := by
    intro s hs hc
    rw [← htarget, ← (hr.slot_of_mem hs).target_eq]
    exact (hr.segment_coherent s hs).target_le_duration hc
  refine ⟨fun n => ?_, Duration.ceilSeconds_eq, fun d => hr.segmentDuration_mem_iff, ?_, ?_⟩
  · rw [hr.targetDuration_mem_iff, htarget]
  · intro s hs hc
    refine ⟨hreached s hs hc, ?_⟩
    rw [← htarget, ← (hr.slot_of_mem hs).target_eq]
    exact (hr.segment_coherent s hs).duration_lt (h.earlierShort hpos s hs) hc
  · intro hsmall hwhole d hd
    obtain ⟨s, hs, hc, rfl⟩ := hr.segmentDuration_mem_iff.1 hd
    have hexact : options.segmentDuration.nanos ⌈/⌉ nanosPerSecond * nanosPerSecond =
        options.segmentDuration.nanos := by
      obtain ⟨n, hn⟩ := hwhole
      have hdiv : nanosPerSecond * n ⌈/⌉ nanosPerSecond = n := smul_ceilDiv (by decide) n
      rw [hn, hdiv, Nat.mul_comm]
    rw [Duration.ceilSeconds_eq hsmall, hexact]
    constructor
    · intro hle
      exact Duration.ext (Nat.le_antisymm hle (hreached s hs hc))
    · rintro heq
      rw [heq]

/-! ### A segment that is too long -/

/-- Three frames of 900 ms. -/
def slowFrames : List Packet :=
  [cameraFrame true, cameraFrame false, cameraFrame false].map fun x =>
    { x with duration := .ofMillis 900 }

/-- With the usual timing, three frames of 900 ms make a segment of 2.7 s, which is listed under a
target duration of two seconds. -/
theorem listed_segment_exceeds_target : ∃ r₀ r, new? camera .default ⟨0, 0⟩ = .ok r₀ ∧
    r₀.writeAll? (slowFrames.map fun x => ⟨x, ⟨0, 0⟩⟩) = some r ∧
    .targetDuration 2 ∈ r.manifest ∧ .segmentDuration (.ofMillis 2700) ∈ r.manifest ∧
    ¬ Duration.ofMillis 2700 ≤ .ofSeconds 2 :=
  ⟨_, _, rfl, rfl, by decide, by decide, by decide⟩

/-- That segment is too long by less than its last part. -/
theorem advertisesTarget_of_slowFrames : ∃ r s, Reachable camera .default r ∧
    0 < Options.default.segmentDuration.nanos ∧ s ∈ r.live ∧ s.isClosed = true ∧
    s.duration = .ofMillis 2700 ∧ s.current.duration = .ofMillis 900 ∧
    r.AdvertisesTarget Options.default.segmentDuration := by
  obtain ⟨r₀, r, s, h₀, h, hs, hc, hduration, hlast⟩ : ∃ r₀ r s,
      new? camera .default ⟨0, 0⟩ = .ok r₀ ∧
      r₀.writeAll? (slowFrames.map fun x => ⟨x, ⟨0, 0⟩⟩) = some r ∧ r.live.head? = some s ∧
      s.isClosed = true ∧ s.duration = .ofMillis 2700 ∧ s.current.duration = .ofMillis 900 :=
    ⟨_, _, _, rfl, rfl, rfl, rfl, rfl, rfl⟩
  have hr : Reachable camera .default r := ⟨_, _, h₀, later_of_writeAll? h⟩
  exact ⟨r, s, hr, by decide, List.mem_of_mem_head? hs, hc, hduration, hlast,
    advertisesTarget_of_reachable hr (by decide)⟩

end Rendition

end LiveHls
