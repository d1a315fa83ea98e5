import LiveHls.Proofs.Rendition.Ring

/-!
# Parts and segments are the greedy partition of the packets

* `cutRuns` : a list cut after every element that completes a run (`cutRuns_concat`: what one more
  element does; `flatten_cutRuns`: nothing is lost);
* `timeline` : packets cut into parts and the complete parts into segments;
* `Rendition.Shows` : a rendition's live segments are the last ones of a timeline; a write of an
  accepted packet keeps it (`Shows.write`);
* `live_is_greedy_partition` : what a rendition holds after any packets in range.
-/

namespace LiveHls

/-- Whether a packet can go into a rendition of the source: it has a payload and a track. -/
def SourceFormat.carries (format : SourceFormat) (x : Packet) : Bool :=
  !x.isEmpty && if x.isVideo then format.video.isSome else format.audio.isSome

/-! ## Cutting a list -/

/-- The complete runs of a list and the run that is still open at its end, where `run` is open at
its start. A run ends as soon as it is complete. -/
def cutRuns {α : Type} (complete : List α → Bool) (run : List α) : List α → List (List α) × List α
  | [] => ([], run)
  | x :: xs =>
    if complete (run ++ [x]) then
      let cut := cutRuns complete [] xs
      ((run ++ [x]) :: cut.1, cut.2)
    else cutRuns complete (run ++ [x]) xs

section Cut
variable {α : Type} {complete : List α → Bool}

/-- One more element either completes the open run or prolongs it. -/
theorem cutRuns_concat (run xs : List α) (x : α) :
    cutRuns complete run (xs ++ [x]) =
      if complete ((cutRuns complete run xs).2 ++ [x]) then
        ((cutRuns complete run xs).1 ++ [(cutRuns complete run xs).2 ++ [x]], [])
      else ((cutRuns complete run xs).1, (cutRuns complete run xs).2 ++ [x]) := by
  induction xs generalizing run with
  | nil =>
    simp only [List.nil_append, cutRuns]
    rfl
  | cons y ys ih =>
    rw [List.cons_append, cutRuns, cutRuns]
    by_cases hy : complete (run ++ [y])
    · simp only [if_pos hy]
      rw [ih]
      split <;> rfl
    · simp only [if_neg hy]
      exact ih _

variable (complete) in
/-- Nothing is lost and nothing moves. -/
theorem flatten_cutRuns (run xs : List α) :
    (cutRuns complete run xs).1.flatten ++ (cutRuns complete run xs).2 = run ++ xs := by
  induction xs generalizing run with
  | nil => simp [cutRuns]
  | cons x xs ih =>
    unfold cutRuns
    split
    · simp only [List.flatten_cons, List.append_assoc]
      rw [ih]
      simp
    · rw [ih]
      simp

end Cut

/-! ## Packets on a timeline -/

/-- Whether parts end a segment: their durations reach the target. -/
def segmentEnds (hasVideo : Bool) (target : Duration) (parts : List (List Packet)) : Bool :=
  decide (target.nanos ≤ (parts.map (countedNanos hasVideo)).sum)

/-- Packets cut into parts and parts into segments. -/
structure Timeline where
  /-- The complete segments, each a list of its parts. -/
  segments : List (List (List Packet))
  /-- The complete parts of the open segment. -/
  parts : List (List Packet)
  /-- The packets of the open part. -/
  rest : List Packet

namespace Timeline

/-- All segments, the open one last, and in it the open part last. -/
def blocks (t : Timeline) : List (List (List Packet)) := t.segments ++ [t.parts ++ [t.rest]]

def push (hasVideo : Bool) (options : Options) (t : Timeline) (x : Packet) : Timeline :=
  if partEnds hasVideo options.partDuration (t.rest ++ [x]) then
    if segmentEnds hasVideo options.segmentDuration (t.parts ++ [t.rest ++ [x]]) then
      ⟨t.segments ++ [t.parts ++ [t.rest ++ [x]]], [], []⟩
    else ⟨t.segments, t.parts ++ [t.rest ++ [x]], []⟩
  else ⟨t.segments, t.parts, t.rest ++ [x]⟩

end Timeline

/-- The greedy partition of packets: a part ends with the first packet that ends it, and a segment
with the first part that does. -/
def timeline (hasVideo : Bool) (options : Options) (xs : List Packet) : Timeline :=
  let parts := cutRuns (partEnds hasVideo options.partDuration) [] xs
  let segments := cutRuns (segmentEnds hasVideo options.segmentDuration) [] parts.1
  ⟨segments.1, segments.2, parts.2⟩

theorem timeline_concat (v : Bool) (options : Options) (xs : List Packet) (x : Packet) :
    timeline v options (xs ++ [x]) = (timeline v options xs).push v options x := by
  unfold timeline Timeline.push
  simp only [cutRuns_concat]
  split
  · simp only [cutRuns_concat]
    split <;> rfl
  · rfl

theorem flatten_blocks_timeline (v : Bool) (options : Options) (xs : List Packet) :
    (timeline v options xs).blocks.flatten.flatten = xs := by
  have hparts := flatten_cutRuns (partEnds v options.partDuration) [] xs
  have hsegments := flatten_cutRuns (segmentEnds v options.segmentDuration) []
    (cutRuns (partEnds v options.partDuration) [] xs).1
  rw [List.nil_append] at hparts hsegments
  unfold timeline Timeline.blocks
  rw [List.flatten_append, List.flatten_singleton, ← List.append_assoc, hsegments,
    List.flatten_append, List.flatten_singleton, hparts]

/-! ## Renditions on a timeline -/

namespace Rendition

theorem countedNanos_map_fold (v : Bool) (xs : List Packet) :
    countedNanos v (xs.map fold) = countedNanos v xs := by
  unfold countedNanos
  rw [List.filter_map, List.map_map]
  rfl

/-- Folding times changes nothing about where parts end. -/
theorem partEnds_map_fold (v : Bool) (target : Duration) (xs : List Packet) :
    partEnds v target (xs.map fold) = partEnds v target xs := by
  unfold partEnds
  rw [countedNanos_map_fold, List.getLast?_map, Option.any_map]
  rfl

end Rendition

namespace Segment

def contents (s : Segment) : List (List Packet) := s.parts.map (·.packets)

/-- The segment holds the packets of `block`, with times folded. -/
def Holds (s : Segment) (block : List (List Packet)) : Prop :=
  s.contents = block.map (·.map Rendition.fold)

/-- The closed parts of an open segment last as long as their packets. -/
theorem Coherent.duration_eq_of_holds {s : Segment} (hs : s.Coherent) (hopen : s.isClosed = false)
    {parts : List (List Packet)} {rest : List Packet} (h : s.Holds (parts ++ [rest])) :
    s.duration.nanos = (parts.map (countedNanos s.videoTimed)).sum := by
  have hp : s.earlier.map (·.packets) = parts.map (·.map Rendition.fold) := by
    rw [Holds, contents, Segment.parts, List.map_append, List.map_append] at h
    exact List.append_inj_left' h rfl
  have he : s.earlier.map (·.duration.nanos) = s.earlier.map fun p =>
      countedNanos s.videoTimed p.packets := by
    apply List.map_congr_left
    intro p hp
    obtain ⟨i, hi⟩ := List.getElem?_of_mem hp
    rw [(hs.earlier_coherent p hp).duration_eq, (hs.earlier_slot i p hi).videoTimed_eq]
    rfl
  rw [hs.duration_eq, hs.filter_parts hopen, he,
    show (fun p : Part => countedNanos s.videoTimed p.packets) =
      countedNanos s.videoTimed ∘ (·.packets) from rfl, ← List.map_map, hp, List.map_map]
  congr 1
  exact List.map_congr_left fun xs _ => Rendition.countedNanos_map_fold _ xs

section Written
variable {s t : Segment} {x : Packet} {q : Part} {parts : List (List Packet)} {rest : List Packet}

theorem Holds.current_packets (h : s.Holds (parts ++ [rest])) :
    s.earlier.map (·.packets) = parts.map (·.map Rendition.fold) ∧
      s.current.packets = rest.map Rendition.fold := by
  rw [Holds, contents, Segment.parts, List.map_append, List.map_append] at h
  obtain ⟨he, hc⟩ := List.append_inj' h rfl
  exact ⟨he, by simpa using hc⟩

theorem Holds.grown_packets (h : s.Holds (parts ++ [rest]))
    (hq : s.current.Grown (Rendition.fold x) q) :
    q.packets = (rest ++ [x]).map Rendition.fold := by
  rw [hq.packets_eq, h.current_packets.2]
  simp

theorem Holds.grown (h : s.Holds (parts ++ [rest]))
    (hq : s.current.Grown (Rendition.fold x) q) :
    (s.earlier ++ [q]).map (·.packets) = (parts ++ [rest ++ [x]]).map (·.map Rendition.fold) := by
  rw [List.map_append, List.map_append, h.current_packets.1, List.map_singleton,
    List.map_singleton, h.grown_packets hq]

/-- A part is closed exactly if the packets it holds end it. -/
theorem Coherent.isClosed_grown (hs : s.Coherent) (h : s.Holds (parts ++ [rest]))
    (hq : s.current.Grown (Rendition.fold x) q) :
    q.isClosed = partEnds s.videoTimed s.partTarget (rest ++ [x]) := by
  have hslot := hs.grown_slot hq
  rw [hq.coherent.closed_eq, hslot.videoTimed_eq, hslot.target_eq, h.grown_packets hq,
    Rendition.partEnds_map_fold]
  rfl

/-- The durations that decide whether a segment ends with its current part. -/
theorem Coherent.total_grown (hs : s.Coherent) (hopen : s.isClosed = false)
    (h : s.Holds (parts ++ [rest])) (hq : s.current.Grown (Rendition.fold x) q) {total : Duration}
    (ht : total.nanos = s.duration.nanos + q.duration.nanos) :
    ((parts ++ [rest ++ [x]]).map (countedNanos s.videoTimed)).sum = total.nanos := by
  have hqd : q.duration.nanos = countedNanos s.videoTimed (rest ++ [x]) := by
    rw [hq.coherent.duration_eq, (hs.grown_slot hq).videoTimed_eq, h.grown_packets hq,
      Rendition.countedNanos_map_fold]
    rfl
  rw [ht, hs.duration_eq_of_holds hopen h, hqd]
  simp

end Written

end Segment

namespace Rendition

/-- A rendition shows a timeline: its live segments are the last ones of it. -/
structure Shows (r : Rendition) (t : Timeline) : Prop where
  current_holds : r.current.Holds (t.parts ++ [t.rest])
  earlier_holds : ∀ i s, r.earlier[i]? = some s →
    ∃ block, t.segments[r.mediaSequence + i]? = some block ∧ s.Holds block
  id_eq : r.current.id = t.segments.length

section Written
variable {r : Rendition} {t : Timeline} {x : Packet} {now : Instant} {s : Segment}

theorem Shows.extend (hr : r.Coherent) (h : r.Shows t)
    (hw : r.current.Written (fold x) s .remainsOpen) :
    (r.extend s).Shows (t.push r.layout.hasVideo r.options x) := by
  have hc := hr.current_coherent
  have hslot := hr.current_slot
  have hid : s.id = t.segments.length := hw.frame.1.trans h.id_eq
  cases hw with
  | extended hq hpart =>
    rw [hc.isClosed_grown h.current_holds hq, hslot.videoTimed_eq, hslot.partTarget_eq] at hpart
    rw [Timeline.push, if_neg (by rw [hpart]; nofun)]
    exact ⟨h.current_holds.grown hq, h.earlier_holds, hid⟩
  | continued hq hpart ht hshort =>
    rw [hc.isClosed_grown h.current_holds hq, hslot.videoTimed_eq, hslot.partTarget_eq] at hpart
    have htotal := hc.total_grown hr.current_open h.current_holds hq ht
    rw [hslot.videoTimed_eq] at htotal
    rw [hslot.target_eq] at hshort
    rw [Timeline.push, if_pos hpart, segmentEnds, htotal,
      if_neg (by rw [decide_eq_true_iff]; exact Nat.not_le_of_lt hshort)]
    refine ⟨?_, h.earlier_holds, hid⟩
    unfold Segment.Holds
    rw [List.map_append, ← h.current_holds.grown hq]
    exact List.map_append

theorem Shows.replace (hr : r.Coherent) (h : r.Shows t)
    (hw : r.current.Written (fold x) s .closed) :
    (r.replace s now).Shows (t.push r.layout.hasVideo r.options x) := by
  have hc := hr.current_coherent
  have hslot := hr.current_slot
  have hid : s.id = t.segments.length := hw.frame.1.trans h.id_eq
  cases hw with
  | finished hq hpart ht hreached =>
    rw [hc.isClosed_grown h.current_holds hq, hslot.videoTimed_eq, hslot.partTarget_eq] at hpart
    have htotal := hc.total_grown hr.current_open h.current_holds hq ht
    rw [hslot.videoTimed_eq] at htotal
    rw [hslot.target_eq] at hreached
    rw [Timeline.push, if_pos hpart, segmentEnds, htotal, if_pos (decide_eq_true hreached)]
    refine ⟨rfl, ?_, ?_⟩
    · intro i s' hs'
      rw [earlier_replace, List.getElem?_drop] at hs'
      rw [mediaSequence_replace, Nat.add_assoc]
      refine forall_getElem?_concat (P := fun j s' => ∃ block,
        (t.segments ++ [_])[r.mediaSequence + j]? = some block ∧ s'.Holds block) ?_ ?_ _ s' hs'
      · intro j s' hj
        obtain ⟨block, hb, hh⟩ := h.earlier_holds j s' hj
        have hlt := (List.getElem?_eq_some_iff.1 hb).1
        exact ⟨block, by rw [List.getElem?_append_left hlt, hb], hh⟩
      · refine ⟨_, ?_, h.current_holds.grown hq⟩
        rw [← hslot.id_eq, h.id_eq, List.getElem?_concat_length]
    · rw [List.length_append, List.length_singleton, ← hid]
      rfl

end Written

/-! ## Packets that are accepted -/

/-- The packets that are accepted when they are written one after the other. -/
def accepted (r : Rendition) : List Arrival → List Packet
  | [] => []
  | a :: rest =>
    match (r.write a.packet a.time).2 with
    | .ok _ => a.packet :: accepted (r.write a.packet a.time).1 rest
    | .error _ => accepted (r.write a.packet a.time).1 rest

theorem refusal?_eq_none_iff {format : SourceFormat} {r : Rendition} {x : Packet}
    (hl : Mp4.Muxer.ofFormat? format = .ok r.layout) (hc : r.closed = false) :
    r.refusal? x = none ↔ format.carries x = true := by
  unfold refusal? refusalOf?
  rw [hc, Mp4.Muxer.accepts, Mp4.Muxer.hasVideo_of_ofFormat? hl, Mp4.Muxer.hasAudio_of_ofFormat? hl,
    SourceFormat.carries]
  cases x.isEmpty <;> cases x.isVideo <;> cases format.video.isSome <;>
    cases format.audio.isSome <;> simp

/-- What a write makes of an open rendition that shows a timeline: a packet that the source carries
is accepted and prolongs the timeline, any other is refused and changes nothing. -/
theorem Shows.write {format : SourceFormat} {r : Rendition} {t : Timeline} {x : Packet}
    {now : Instant} (hr : r.Coherent) (h : r.Shows t)
    (hl : Mp4.Muxer.ofFormat? format = .ok r.layout) (hc : r.closed = false)
    (hin : r.overflows x now = false) :
    if format.carries x then
      (r.write x now).2 = .ok () ∧
        (r.write x now).1.Shows (t.push format.video.isSome r.options x)
    else ∃ e, r.write x now = (r, .error (.error e)) := by
  have hw := hr.write x now hin
  rw [← Mp4.Muxer.hasVideo_of_ofFormat? hl]
  rcases hp : r.write x now with ⟨r', result⟩
  rw [hp] at hw
  cases hw with
  | refused he =>
    rw [if_neg fun hcarries => ?_]
    · exact ⟨_, rfl⟩
    · rw [(refusal?_eq_none_iff hl hc).2 hcarries] at he
      cases he
  | extended ha hw =>
    rw [if_pos ((refusal?_eq_none_iff hl hc).1 ha)]
    exact ⟨rfl, h.extend hr hw⟩
  | replaced ha hw =>
    rw [if_pos ((refusal?_eq_none_iff hl hc).1 ha)]
    exact ⟨rfl, h.replace hr hw⟩

/-- **A run of writes prolongs the timeline by the packets that the source carries**; the others
might as well not have been written. -/
theorem Shows.writeAll {format : SourceFormat} {r r' : Rendition} {xs : List Packet}
    {arrivals : List Arrival} (hr : r.Coherent)
    (h : r.Shows (timeline format.video.isSome r.options xs))
    (hl : Mp4.Muxer.ofFormat? format = .ok r.layout) (hc : r.closed = false)
    (hrun : r.writeAll? arrivals = some r') :
    r'.Shows (timeline format.video.isSome r.options (xs ++ r.accepted arrivals)) ∧
      r.accepted arrivals = (arrivals.map (·.packet)).filter format.carries ∧
      r.writeAll? (arrivals.filter fun a => format.carries a.packet) = some r' := by
  induction arrivals generalizing r xs with
  | nil =>
    cases hrun
    exact ⟨by rwa [accepted, List.append_nil], rfl, rfl⟩
  | cons a rest ih =>
    obtain ⟨hin, hrest⟩ := writeAll?_cons_eq_some_iff.1 hrun
    have hstep := h.write hr hl hc hin
    have hwritten := hr.write _ _ hin
    obtain ⟨-, hoptions, hlayout, hclosed⟩ := hwritten.frame
    rw [List.map_cons, List.filter_cons, List.filter_cons, accepted]
    split at hstep
    · rename_i hcarries
      obtain ⟨hok, hshows⟩ := hstep
      rw [← timeline_concat, ← hoptions] at hshows
      obtain ⟨hfinal, haccepted, hfiltered⟩ := ih (hwritten.coherent hr) hshows
        (hlayout ▸ hl) (hclosed.trans hc) hrest
      rw [hok, if_pos hcarries, if_pos hcarries, writeAll?_cons_eq_some_iff]
      refine ⟨?_, congrArg _ haccepted, hin, hfiltered⟩
      rwa [hoptions, List.append_assoc] at hfinal
    · rename_i hcarries
      obtain ⟨e, he⟩ := hstep
      rw [he] at hrest ⊢
      rw [if_neg hcarries, if_neg hcarries]
      exact ih hr h hl hc hrest

end Rendition

/-! ## The greedy partition -/

/-- A part is the one that `xs` make as part `id` of a segment: they are its packets, with times
folded, those that count give its duration, a video keyframe among them makes it independent, and it
is closed if they end it. -/
structure Part.Fills (p : Part) (hasVideo : Bool) (target : Duration) (segment id : Nat)
    (xs : List Packet) : Prop where
  segment_eq : p.segment = segment
  id_eq : p.id = id
  packets_eq : p.packets = xs.map Rendition.fold
  duration_eq : p.duration.nanos = countedNanos hasVideo xs
  independent_iff : p.independent = true ↔ ∃ x ∈ xs, ∃ format, x.medium = .video format true
  closed_eq : p.isClosed = partEnds hasVideo target xs

/-- A segment is the one that `block` makes as segment `id`. -/
structure Segment.Fills (s : Segment) (hasVideo : Bool) (options : Options) (id : Nat)
    (block : List (List Packet)) : Prop where
  id_eq : s.id = id
  length_eq : s.parts.length = block.length
  part_fills : ∀ j (p : Part) xs, s.parts[j]? = some p → block[j]? = some xs →
    p.Fills hasVideo options.partDuration id j xs

theorem Packet.isKeyframe_iff (x : Packet) :
    x.isKeyframe = true ↔ ∃ format, x.medium = .video format true := by
  unfold isKeyframe
  cases x.medium with
  | video format keyframe => simp
  | audio format => simp

theorem Segment.Holds.fills {s : Segment} {options : Options} {layout : Mp4.Muxer} {id : Nat}
    {block : List (List Packet)} (hs : s.Coherent) (hslot : Rendition.Slot options layout id s)
    (h : s.Holds block) : s.Fills layout.hasVideo options id block where
  id_eq := hslot.id_eq
  length_eq := by
    have := congrArg List.length h
    simpa [Segment.contents] using this
  part_fills := by
    intro j p xs hp hxs
    have hpart := hs.part_coherent p (List.mem_of_getElem? hp)
    have hplace := hs.part_slot j p hp
    have hpackets : p.packets = xs.map Rendition.fold := by
      have hj := congrArg (·[j]?) h
      simpa [Segment.contents, hp, hxs] using hj
    have hvideo : p.videoTimed = layout.hasVideo := hplace.videoTimed_eq.trans hslot.videoTimed_eq
    refine ⟨hplace.segment_eq.trans hslot.id_eq, hplace.id_eq, hpackets, ?_, ?_, ?_⟩
    · rw [hpart.duration_eq, hvideo, hpackets, Rendition.countedNanos_map_fold]
    · rw [hpart.independent_eq, hpackets, List.any_map, List.any_eq_true]
      exact exists_congr fun x => and_congr_right fun _ => x.isKeyframe_iff
    · rw [hpart.closed_eq, hvideo, hplace.target_eq, hpackets, Rendition.partEnds_map_fold]
      exact congrArg (partEnds _ · _) hslot.partTarget_eq

namespace Rendition

theorem shows_of_new? {format : SourceFormat} {options : Options} {now : Instant} {r : Rendition}
    (h : new? format options now = .ok r) (v : Bool) : r.Shows (timeline v r.options []) := by
  obtain ⟨-, -, -, hearlier, hcurrent, -, -, -⟩ := new?_eq_ok h
  refine ⟨by rw [hcurrent]; rfl, ?_, by rw [hcurrent]; rfl⟩
  intro i s hs
  rw [hearlier] at hs
  cases hs

/-- Each live segment holds its block of the timeline. -/
theorem Shows.live_holds {r : Rendition} {t : Timeline} (hr : r.Coherent) (h : r.Shows t) :
    ∀ i s, r.live[i]? = some s →
      ∃ block, t.blocks[r.mediaSequence + i]? = some block ∧ s.Holds block := by
  refine forall_getElem?_concat (fun i s hs => ?_) ?_
  · obtain ⟨block, hb, hh⟩ := h.earlier_holds i s hs
    refine ⟨block, ?_, hh⟩
    unfold Timeline.blocks
    rw [List.getElem?_append_left (List.getElem?_eq_some_iff.1 hb).1, hb]
  · refine ⟨_, ?_, h.current_holds⟩
    unfold Timeline.blocks
    rw [← hr.current_slot.id_eq, h.id_eq, List.getElem?_concat_length]

/-- After packets in range a new rendition shows the timeline of those that were accepted, which
are those that the source carries. -/
theorem shows_of_run {format : SourceFormat} {options : Options} {now : Instant}
    {r₀ r : Rendition} {arrivals : List Arrival} (h₀ : new? format options now = .ok r₀)
    (h : r₀.writeAll? arrivals = some r) :
    r.Shows (timeline format.video.isSome options (r₀.accepted arrivals)) ∧
      r₀.accepted arrivals = (arrivals.map (·.packet)).filter format.carries ∧
      r₀.writeAll? (arrivals.filter fun a => format.carries a.packet) = some r := by
  obtain ⟨hl, -, hoptions, -, -, -, -, hc⟩ := new?_eq_ok h₀
  have hrun := (shows_of_new? h₀ _).writeAll (coherent_of_new? h₀) hl hc h
  rw [hoptions] at hrun
  exact hrun

/-- **The live segments are the greedy partition of the accepted packets.** After packets in range
the accepted ones are those that the source carries, the others left no trace, and the last
segments of the partition are live, each with exactly its parts and packets. -/
theorem live_is_greedy_partition {format : SourceFormat} {options : Options} {now : Instant}
    {r₀ r : Rendition} {arrivals : List Arrival} (h₀ : new? format options now = .ok r₀)
    (h : r₀.writeAll? arrivals = some r) :
    let xs := r₀.accepted arrivals
    let blocks := (timeline format.video.isSome options xs).blocks
    xs = (arrivals.map (·.packet)).filter format.carries ∧
    r₀.writeAll? (arrivals.filter fun a => format.carries a.packet) = some r ∧
    blocks.flatten.flatten = xs ∧
    r.mediaSequence = blocks.length - max options.segmentCount 1 ∧
    r.mediaSequence + r.live.length = blocks.length ∧
    ∀ i s, r.live[i]? = some s → ∃ block, blocks[r.mediaSequence + i]? = some block ∧
      s.Fills format.video.isSome options (r.mediaSequence + i) block ∧
      (s.isClosed = true ↔ r.mediaSequence + i + 1 < blocks.length) := by
  intro xs blocks
  obtain ⟨hl, -, hoptions, -, -, -, -, -⟩ := new?_eq_ok h₀
  have hr₀ := coherent_of_new? h₀
  have hlater := later_of_writeAll? h
  have hr := hr₀.later hlater
  obtain ⟨-, hoptions', hlayout⟩ := hr₀.frame_later hlater
  obtain ⟨hshows, haccepted, hfiltered⟩ := shows_of_run h₀ h
  have hlength : r.current.id + 1 = blocks.length := by
    rw [hshows.id_eq]
    simp [blocks, xs, Timeline.blocks]
  refine ⟨haccepted, hfiltered, flatten_blocks_timeline .., ?_, ?_, ?_⟩
  · rw [hr.mediaSequence_eq, hlength, hoptions', hoptions]
  · rw [← hr.current_id, hlength]
  · intro i s hs
    obtain ⟨block, hb, hh⟩ := hshows.live_holds hr i s hs
    have hmem := List.mem_of_getElem? hs
    have hslot := hr.segment_slot i s hs
    refine ⟨block, hb, ?_, ?_⟩
    · have hfills := hh.fills (hr.segment_coherent s hmem) hslot
      rw [hlayout, Mp4.Muxer.hasVideo_of_ofFormat? hl, hoptions', hoptions] at hfills
      exact ⟨hfills.id_eq, hfills.length_eq, hfills.part_fills⟩
    · rw [hr.closed_iff hmem, hslot.id_eq, ← hlength]
      have hlt : i < r.live.length := (List.getElem?_eq_some_iff.1 hs).1
      have := hr.current_id
      omega

/-! ### Sound and pictures -/

def studioAudio : AudioFormat := ⟨.aac, 48000, 2, 0, []⟩

def studio : SourceFormat := ⟨"camera", some cameraVideo, some studioAudio⟩

def audioFrame : Packet := ⟨.zero, .ofMillis 21, [0], "camera", 0, .audio studioAudio⟩

/-- Three frames of video with sound between them and one packet that is refused. -/
def soundAndPictures : List Arrival :=
  [cameraFrame true, audioFrame, { cameraFrame false with payload := [] }, cameraFrame false,
    audioFrame, cameraFrame true].map fun x => ⟨x, ⟨0, 0⟩⟩

theorem soundAndPictures_run : ∃ r₀ r, new? studio shortest ⟨0, 0⟩ = .ok r₀ ∧
    r₀.writeAll? soundAndPictures = some r ∧ r.mediaSequence = 1 ∧
    (timeline true shortest (r₀.accepted soundAndPictures)).blocks.map (·.map List.length) =
      [[1, 2], [2, 0]] :=
  ⟨_, _, rfl, rfl, rfl, rfl⟩

theorem greedy_partition_of_soundAndPictures : ∃ r₀ r, new? studio shortest ⟨0, 0⟩ = .ok r₀ ∧
    r₀.writeAll? soundAndPictures = some r ∧
    (timeline true shortest (r₀.accepted soundAndPictures)).blocks.map (·.map List.length) =
      [[1, 2], [2, 0]] ∧
    ∀ i s, r.live[i]? = some s → ∃ block,
      (timeline true shortest (r₀.accepted soundAndPictures)).blocks[1 + i]? = some block ∧
      s.Fills true shortest (1 + i) block := by
  obtain ⟨r₀, r, h₀, h, hsequence, hlengths⟩ := soundAndPictures_run
  refine ⟨r₀, r, h₀, h, hlengths, fun i s hs => ?_⟩
  obtain ⟨-, -, -, -, -, hlive⟩ := live_is_greedy_partition h₀ h
  obtain ⟨block, hb, hfills, -⟩ := hlive i s hs
  rw [hsequence] at hb hfills
  exact ⟨block, hb, hfills⟩

end Rendition

end LiveHls
