import LiveHls.Proofs.Rendition.Greedy
import LiveHls.Proofs.Rendition.Overshoot

/-!
# How long parts and segments get

A part is too long by less than the packet that ends it, a segment by less than the part that ends
it.

* `forall_mem_cutRuns`, `cutRuns_open` : the runs of a list that is cut, from what holds of an open
  run;
* `Timeline.Bounded`, `timeline_bounded` : parts and segments of a timeline between their targets
  and the longest packet beyond them;
* `Rendition.Bounded`, `Shows.bounded` : the same of the parts and segments that are live;
* `lengths_bounded` : so it is in every run.
-/

namespace LiveHls

/-! ## Runs of a list -/

section Cut
variable {α : Type} {complete : List α → Bool} {P : List α → Prop}

/-- What an element that does not complete an open run keeps holds of the run that is open. -/
theorem cutRuns_open (hnil : P [])
    (hstep : ∀ run x, P run → complete (run ++ [x]) = false → P (run ++ [x])) (xs : List α) :
    P (cutRuns complete [] xs).2 := by
  induction xs using List.reverseRecOn with
  | nil => exact hnil
  | append_singleton xs x ih =>
    rw [cutRuns_concat]
    split
    · exact hnil
    · rename_i hshort
      exact hstep _ x ih (Bool.eq_false_of_not_eq_true hshort)

/-- A complete run was open, and not complete, before its last element. -/
theorem forall_mem_cutRuns (hnil : P [])
    (hstep : ∀ run x, P run → complete (run ++ [x]) = false → P (run ++ [x])) (xs : List α) :
    ∀ run ∈ (cutRuns complete [] xs).1,
      ∃ front x, run = front ++ [x] ∧ P front ∧ complete (front ++ [x]) = true := by
  induction xs using List.reverseRecOn with
  | nil => nofun
  | append_singleton xs x ih =>
    rw [cutRuns_concat]
    split
    · rename_i hcomplete
      intro run hrun
      rcases List.mem_append.1 hrun with hrun | hrun
      · exact ih run hrun
      · exact ⟨_, x, List.mem_singleton.1 hrun, cutRuns_open hnil hstep xs, hcomplete⟩
    · exact ih

end Cut

/-! ## Timelines -/

/-- Parts reach the target `part` and segments the target `segment`; a part goes beyond it by less
than `longest`, and a segment by less than a part. -/
structure Timeline.Bounded (t : Timeline) (hasVideo : Bool) (part segment longest : Nat) :
    Prop where
  part_bounds : ∀ block ∈ t.segments ++ [t.parts], ∀ xs ∈ block,
    part ≤ countedNanos hasVideo xs ∧ countedNanos hasVideo xs < part + longest
  rest_lt : countedNanos hasVideo t.rest < part
  segment_bounds : ∀ block ∈ t.segments,
    segment ≤ (block.map (countedNanos hasVideo)).sum ∧
      (block.map (countedNanos hasVideo)).sum < segment + part + longest
  parts_lt : (t.parts.map (countedNanos hasVideo)).sum < segment

section Timelines
variable {hasVideo : Bool} {options : Options} {longest : Duration} {xs : List Packet}

theorem countedNanos_lt_of_not_partEnds {target : Duration} {x : Packet}
    (h : countedNanos hasVideo xs < target.nanos)
    (hopen : partEnds hasVideo target (xs ++ [x]) = false) :
    countedNanos hasVideo (xs ++ [x]) < target.nanos := by
  rw [partEnds_concat] at hopen
  cases hc : countsIn hasVideo x with
  | true =>
    rw [hc, Bool.true_and, decide_eq_false_iff_not] at hopen
    exact Nat.lt_of_not_le hopen
  | false =>
    rw [countedNanos_concat, hc]
    exact h

/-- Complete parts go beyond their target by less than the packet that ends them. -/
theorem part_bounds (hpos : 0 < options.partDuration.nanos)
    (hlongest : ∀ x ∈ xs, countsIn hasVideo x = true → x.duration ≤ longest) :
    ∀ part ∈ (cutRuns (partEnds hasVideo options.partDuration) [] xs).1,
      options.partDuration.nanos ≤ countedNanos hasVideo part ∧
        countedNanos hasVideo part < options.partDuration.nanos + longest.nanos := by
  intro part hpart
  obtain ⟨front, x, rfl, hfront, hends⟩ := forall_mem_cutRuns hpos
    (fun _ _ => countedNanos_lt_of_not_partEnds) xs part hpart
  have hx : x ∈ xs := by
    have hflatten := flatten_cutRuns (partEnds hasVideo options.partDuration) [] xs
    rw [List.nil_append] at hflatten
    rw [← hflatten]
    exact List.mem_append_left _ (List.mem_flatten_of_mem hpart (by simp))
  rw [partEnds_concat, Bool.and_eq_true, decide_eq_true_iff] at hends
  have hle : x.duration.nanos ≤ longest.nanos := hlongest x hx hends.1
  refine ⟨hends.2, ?_⟩
  rw [countedNanos_concat, if_pos hends.1]
  omega

/-- **The parts and segments of a timeline** overshoot their targets by less than the longest packet
that counts, and a part. -/
theorem timeline_bounded (hpart : 0 < options.partDuration.nanos)
    (hsegment : 0 < options.segmentDuration.nanos)
    (hlongest : ∀ x ∈ xs, countsIn hasVideo x = true → x.duration ≤ longest) :
    (timeline hasVideo options xs).Bounded hasVideo options.partDuration.nanos
      options.segmentDuration.nanos longest.nanos := by
  have hparts := part_bounds hpart hlongest
  have hflatten := flatten_cutRuns (segmentEnds hasVideo options.segmentDuration) []
    (cutRuns (partEnds hasVideo options.partDuration) [] xs).1
  rw [List.nil_append] at hflatten
  rw [← hflatten] at hparts
  have hnil : (([] : List (List Packet)).map (countedNanos hasVideo)).sum <
    options.segmentDuration.nanos := hsegment
  have hstep : ∀ (run : List (List Packet)) part,
      (run.map (countedNanos hasVideo)).sum < options.segmentDuration.nanos →
      segmentEnds hasVideo options.segmentDuration (run ++ [part]) = false →
      ((run ++ [part]).map (countedNanos hasVideo)).sum < options.segmentDuration.nanos :=
    fun run part _ hopen => Nat.lt_of_not_le (of_decide_eq_false hopen)
  refine ⟨?_, cutRuns_open hpart (fun _ _ => countedNanos_lt_of_not_partEnds) xs, ?_,
    cutRuns_open hnil hstep _⟩
  · intro block hblock part hmem
    refine hparts part ?_
    rcases List.mem_append.1 hblock with hblock | hblock
    · exact List.mem_append_left _ (List.mem_flatten_of_mem hblock hmem)
    · rw [List.mem_singleton.1 hblock] at hmem
      exact List.mem_append_right _ hmem
  · intro block hblock
    obtain ⟨front, part, rfl, hfront, hends⟩ := forall_mem_cutRuns hnil hstep _ block hblock
    have hlast := hparts part
      (List.mem_append_left _ (List.mem_flatten_of_mem hblock (by simp)))
    refine ⟨of_decide_eq_true hends, ?_⟩
    rw [List.map_append, List.sum_append, List.map_singleton, List.sum_singleton]
    omega

end Timelines

/-! ## Renditions -/

namespace Segment

/-- A closed segment lasts as long as its parts together. -/
theorem Coherent.duration_eq_sum {s : Segment} (hs : s.Coherent) (hc : s.isClosed = true) :
    s.duration.nanos = (s.parts.map (·.duration.nanos)).sum := by
  rw [hs.duration_eq, hs.filter_parts_of_closed hc]

/-- The parts of a segment last as long as the packets of its block. -/
theorem Holds.durations_eq {s : Segment} {block : List (List Packet)} {hasVideo : Bool}
    (h : s.Holds block) (hs : s.Coherent) (hv : s.videoTimed = hasVideo) :
    s.parts.map (·.duration.nanos) = block.map (countedNanos hasVideo) := by
  have hcounted : s.parts.map (·.duration.nanos) = s.contents.map (countedNanos hasVideo) := by
    rw [contents, List.map_map]
    refine List.map_congr_left fun p hp => ?_
    obtain ⟨i, hi⟩ := List.getElem?_of_mem hp
    have hvideo : p.videoTimed = s.videoTimed := (hs.part_slot i p hi).videoTimed_eq
    rw [(hs.part_coherent p hp).duration_eq, hvideo, hv]
    rfl
  rw [hcounted, h, List.map_map]
  exact List.map_congr_left fun xs _ => Rendition.countedNanos_map_fold hasVideo xs

end Segment

namespace Rendition

/-- The live parts and segments reach their targets, and go beyond them as in `Timeline.Bounded`. -/
structure Bounded (r : Rendition) (part segment longest : Nat) : Prop where
  closed_part : ∀ s ∈ r.live, ∀ p ∈ s.parts, p.isClosed = true →
    part ≤ p.duration.nanos ∧ p.duration.nanos < part + longest
  open_part : ∀ s ∈ r.live, ∀ p ∈ s.parts, p.isClosed = false → p.duration.nanos < part
  /-- The playlist lists closed segments with the sum of their parts. -/
  closed_segment : ∀ s ∈ r.live, s.isClosed = true →
    Playlist.segmentTail s.id s.startedAt s.duration <:+: r.manifest ∧
      s.duration.nanos = (s.parts.map (·.duration.nanos)).sum ∧
      segment ≤ s.duration.nanos ∧ s.duration.nanos < segment + part + longest
  open_segment : ∀ s ∈ r.live, s.isClosed = false →
    ((s.parts.filter (·.isClosed)).map (·.duration.nanos)).sum < segment

section Shown
variable {r : Rendition} {t : Timeline} {s : Segment} {p : Part}

/-- Only the last part of the current segment is open. -/
theorem Coherent.eq_current_of_open (hr : r.Coherent) (hs : s ∈ r.live) (hp : p ∈ s.parts)
    (hopen : p.isClosed = false) : s = r.current ∧ p = r.current.current := by
  obtain ⟨i, hi⟩ := List.getElem?_of_mem hp
  have hclosed := (hr.segment_coherent s hs).part_closed_iff hi
  rw [hopen] at hclosed
  have hlast : s.isClosed ≠ true := fun hc => Bool.false_ne_true (hclosed.2 (Or.inr hc))
  obtain rfl : s = r.current := by
    rcases List.mem_append.1 hs with hs | hs
    · exact absurd (hr.earlier_closed s hs) hlast
    · exact List.mem_singleton.1 hs
  refine ⟨rfl, ?_⟩
  rcases List.mem_append.1 hp with hp | hp
  · rw [hr.current_coherent.earlier_closed p hp] at hopen
    cases hopen
  · exact List.mem_singleton.1 hp

/-- The parts of a closed live segment last as long as the packets of a complete segment. -/
theorem Shows.durations_of_closed (hr : r.Coherent) (h : r.Shows t) (hs : s ∈ r.live)
    (hc : s.isClosed = true) : ∃ block ∈ t.segments,
      s.parts.map (·.duration.nanos) = block.map (countedNanos r.layout.hasVideo) := by
  have hearlier : s ∈ r.earlier := by
    rcases List.mem_append.1 hs with hs | hs
    · exact hs
    · rw [List.mem_singleton.1 hs, hr.current_open] at hc
      cases hc
  obtain ⟨i, hi⟩ := List.getElem?_of_mem hearlier
  obtain ⟨block, hblock, hholds⟩ := h.earlier_holds i s hi
  exact ⟨block, List.mem_of_getElem? hblock,
    hholds.durations_eq (hr.segment_coherent s hs) (hr.slot_of_mem hs).videoTimed_eq⟩

/-- The parts of the current segment last as long as the packets of the open one. -/
theorem Shows.durations_current (hr : r.Coherent) (h : r.Shows t) :
    r.current.earlier.map (·.duration.nanos) = t.parts.map (countedNanos r.layout.hasVideo) ∧
      r.current.current.duration.nanos = countedNanos r.layout.hasVideo t.rest := by
  have hall := h.current_holds.durations_eq hr.current_coherent hr.current_slot.videoTimed_eq
  rw [Segment.parts, List.map_append, List.map_append] at hall
  obtain ⟨hearlier, hcurrent⟩ := List.append_inj' hall rfl
  exact ⟨hearlier, List.singleton_injective hcurrent⟩

/-- **Live parts and segments are bounded** as those of the timeline that the rendition shows. -/
theorem Shows.bounded {part segment longest : Nat} (hr : r.Coherent) (h : r.Shows t)
    (hb : t.Bounded r.layout.hasVideo part segment longest) : r.Bounded part segment longest := by
  obtain ⟨hearlier, hcurrent⟩ := h.durations_current hr
  have hof : ∀ {s : Segment}, s ∈ r.live → s.isClosed = false → s = r.current := fun hs hc =>
    (hr.eq_current_of_open hs (List.mem_append_right _ (List.mem_singleton_self _))
      ((hr.segment_coherent _ hs).current_closed.trans hc)).1
  refine ⟨?_, ?_, ?_, ?_⟩
  · intro s hs p hp hc
    have hbounds : ∀ block ∈ t.segments ++ [t.parts],
        p.duration.nanos ∈ block.map (countedNanos r.layout.hasVideo) →
        part ≤ p.duration.nanos ∧ p.duration.nanos < part + longest := by
      intro block hblock hmem
      obtain ⟨xs, hxs, heq⟩ := List.mem_map.1 hmem
      rw [← heq]
      exact hb.part_bounds block hblock xs hxs
    cases hsc : s.isClosed with
    | true =>
      obtain ⟨block, hblock, heq⟩ := h.durations_of_closed hr hs hsc
      exact hbounds block (List.mem_append_left _ hblock) (heq ▸ List.mem_map_of_mem hp)
    | false =>
      obtain rfl := hof hs hsc
      have hmem : p ∈ r.current.earlier := by
        rw [← hr.current_coherent.filter_parts hsc]
        exact List.mem_filter.2 ⟨hp, hc⟩
      exact hbounds t.parts (List.mem_append_right _ (List.mem_singleton_self _))
        (hearlier ▸ List.mem_map_of_mem hmem)
  · intro s hs p hp hopen
    obtain ⟨-, rfl⟩ := hr.eq_current_of_open hs hp hopen
    rw [hcurrent]
    exact hb.rest_lt
  · intro s hs hc
    obtain ⟨block, hblock, heq⟩ := h.durations_of_closed hr hs hc
    have hsum := (hr.segment_coherent s hs).duration_eq_sum hc
    obtain ⟨hreached, hlt⟩ := hb.segment_bounds block hblock
    rw [← heq, ← hsum] at hreached hlt
    exact ⟨hr.tail_infix hs hc, hsum, hreached, hlt⟩
  · intro s hs hc
    obtain rfl := hof hs hc
    rw [hr.current_coherent.filter_parts hc, hearlier]
    exact hb.parts_lt

end Shown

/-- **Parts and segments overshoot by less than what ends them.** -/
theorem lengths_bounded {format : SourceFormat} {options : Options} {now : Instant}
    {r₀ r : Rendition} {arrivals : List Arrival} {longest : Duration}
    (h₀ : new? format options now = .ok r₀) (h : r₀.writeAll? arrivals = some r)
    (hpart : 0 < options.partDuration.nanos) (hsegment : 0 < options.segmentDuration.nanos)
    (hlongest : ∀ x ∈ r₀.accepted arrivals,
      countsIn format.video.isSome x = true → x.duration ≤ longest) :
    r.Bounded options.partDuration.nanos options.segmentDuration.nanos longest.nanos ∧
    (timeline format.video.isSome options (r₀.accepted arrivals)).Bounded format.video.isSome
      options.partDuration.nanos options.segmentDuration.nanos longest.nanos := by
  have htimeline := timeline_bounded hpart hsegment hlongest
  refine ⟨?_, htimeline⟩
  have hr₀ := coherent_of_new? h₀
  have hlater := later_of_writeAll? h
  refine (shows_of_run h₀ h).1.bounded (hr₀.later hlater) ?_
  rw [(hr₀.frame_later hlater).2.2, Mp4.Muxer.hasVideo_of_ofFormat? (new?_eq_ok h₀).1]
  exact htimeline

/-- Three frames of 900 ms, with the usual timing: the segment that they make lasts 2.7 s, less than
its target of 2 s, a part of 495 ms and a frame. -/
theorem lengths_bounded_of_slowFrames : ∃ r₀ r s, new? camera .default ⟨0, 0⟩ = .ok r₀ ∧
    r₀.writeAll? (slowFrames.map fun x => ⟨x, ⟨0, 0⟩⟩) = some r ∧ s ∈ r.live ∧
    s.isClosed = true ∧ s.duration = .ofMillis 2700 ∧
    r.Bounded (Duration.ofMillis 495).nanos (Duration.ofMillis 2000).nanos
      (Duration.ofMillis 900).nanos := by
  obtain ⟨r₀, r, s, h₀, h, hs, hc, hduration, hlongest⟩ : ∃ r₀ r s,
      new? camera .default ⟨0, 0⟩ = .ok r₀ ∧
      r₀.writeAll? (slowFrames.map fun x => ⟨x, ⟨0, 0⟩⟩) = some r ∧ r.live.head? = some s ∧
      s.isClosed = true ∧ s.duration = .ofMillis 2700 ∧
      ∀ x ∈ r₀.accepted (slowFrames.map fun x => ⟨x, ⟨0, 0⟩⟩),
        countsIn camera.video.isSome x = true → x.duration ≤ .ofMillis 900 :=
    ⟨_, _, _, rfl, rfl, rfl, rfl, rfl, by decide⟩
  obtain ⟨hbounded, -⟩ := lengths_bounded h₀ h (by decide) (by decide) hlongest
  exact ⟨r₀, r, s, h₀, h, List.mem_of_mem_head? hs, hc, hduration, hbounded⟩

end Rendition

end LiveHls
