import LiveHls.Proofs.Mp4.Layout
import LiveHls.Proofs.Rendition.Parts
import LiveHls.Rendition.Basic
import Mathlib.Logic.Relation

/-!
# The ring of live segments

* `Rendition.Later` : what comes of a rendition by writes in range and by its end;
  `Rendition.Reachable` : what comes of a new one;
* `Rendition.Written`, `Rendition.Coherent.write` : all that a write does;
* `Rendition.Coherent` : the live segments are numbered in order, all closed but the last, the
  playlist describes them, and those that were dropped had released their latches; a write keeps it
  (`Written.coherent`), so every reachable rendition has it (`Reachable.coherent`);
* `Coherent.liveIds_eq`, `Coherent.segment?_eq` : what that says of the numbers.
-/

namespace LiveHls

namespace Rendition

/-! ## Runs -/

/-- Whether a sum of durations leaves its range when the packet is written. -/
def overflows (r : Rendition) (x : Packet) (now : Instant) : Bool :=
  match (r.write x now).2 with
  | .error .durationOverflow => true
  | _ => false

theorem overflows_iff {r : Rendition} {x : Packet} {now : Instant} :
    r.overflows x now = true ↔ (r.write x now).2 = .error .durationOverflow := by
  unfold overflows
  split
  · rename_i h
    simp [h]
  · rename_i h
    exact ⟨nofun, fun he => absurd he h⟩

/-- A write that keeps all durations in their range, or the end of the rendition. -/
inductive Step (r : Rendition) : Rendition → Prop
  | write (x : Packet) (now : Instant) (in_range : r.overflows x now = false) :
      Step r (r.write x now).1
  | close : Step r r.close

/-- What comes of a rendition by any number of steps. -/
def Later : Rendition → Rendition → Prop := Relation.ReflTransGen Step

/-- What comes of a new rendition. -/
def Reachable (format : SourceFormat) (options : Options) (r : Rendition) : Prop :=
  ∃ now r₀, new? format options now = .ok r₀ ∧ r₀.Later r

theorem Reachable.later {format : SourceFormat} {options : Options} {r r' : Rendition}
    (h : Reachable format options r) (h' : r.Later r') : Reachable format options r' := by
  obtain ⟨now, r₀, h₀, hr⟩ := h
  exact ⟨now, r₀, h₀, hr.trans h'⟩

/-- A packet and the time of day at which it is written. -/
structure Arrival where
  packet : Packet
  time : Instant

/-- The rendition after packets written one after the other; none once a duration leaves its
range. -/
def writeAll? (r : Rendition) : List Arrival → Option Rendition
  | [] => some r
  | a :: rest =>
    if r.overflows a.packet a.time then none
    else writeAll? (r.write a.packet a.time).1 rest

theorem writeAll?_cons_eq_some_iff {r r' : Rendition} {a : Arrival} {rest : List Arrival} :
    r.writeAll? (a :: rest) = some r' ↔
      r.overflows a.packet a.time = false ∧
        (r.write a.packet a.time).1.writeAll? rest = some r' := by
  rw [writeAll?]
  cases r.overflows a.packet a.time <;> simp

theorem later_of_writeAll? {r r' : Rendition} {arrivals : List Arrival}
    (h : r.writeAll? arrivals = some r') : r.Later r' := by
  induction arrivals generalizing r with
  | nil =>
    cases h
    exact .refl
  | cons a rest ih =>
    obtain ⟨hin, hrest⟩ := writeAll?_cons_eq_some_iff.1 h
    exact .head (.write a.packet a.time hin) (ih hrest)

/-! ## What a write does -/

/-- The current segment goes on as `t`. -/
def extend (r : Rendition) (t : Segment) : Rendition := refresh { r with current := t }

/-- The current segment has closed as `t`: the next one opens and the oldest may be dropped. -/
def replace (r : Rendition) (t : Segment) (now : Instant) : Rendition :=
  (evict (rollOver { r with current := t } now)).refresh

/-- All that a packet can do to a rendition without an overflow. -/
inductive Written (r : Rendition) (x : Packet) (now : Instant) :
    Rendition → Except Fault Unit → Prop
  | refused {e : Error} (refusal : r.refusal? x = some e) : Written r x now r (.error (.error e))
  | extended {t : Segment} (accepted : r.refusal? x = none)
      (written : r.current.Written (fold x) t .remainsOpen) : Written r x now (r.extend t) (.ok ())
  | replaced {t : Segment} (accepted : r.refusal? x = none)
      (written : r.current.Written (fold x) t .closed) : Written r x now (r.replace t now) (.ok ())

/-- **All that a write does to a rendition.** -/
theorem write_cases {r : Rendition} (hs : r.current.Coherent) (hopen : r.current.isClosed = false)
    (x : Packet) (now : Instant) :
    (r.write x now).2 = .error .durationOverflow ∨
      r.Written x now (r.write x now).1 (r.write x now).2 := by
  cases ha : r.refusal? x with
  | some e =>
    right
    rw [show r.write x now = (r, .error (.error e)) by rw [write, ha]]
    exact .refused ha
  | none =>
    have hw := hs.write hopen (fold x)
    rcases hp : r.current.write (fold x) with ⟨t, progress⟩
    rw [hp] at hw
    cases progress with
    | overflow =>
      left
      simp [write, ha, hp]
    | remainsOpen =>
      right
      rcases hw with hw | hw
      · cases hw
      · rw [show r.write x now = (r.extend t, .ok ()) by simp [write, ha, hp, extend]]
        exact .extended ha hw
    | closed =>
      right
      rcases hw with hw | hw
      · cases hw
      · rw [show r.write x now = (r.replace t now, .ok ()) by simp [write, ha, hp, replace]]
        exact .replaced ha hw

theorem Written.frame {r r' : Rendition} {x : Packet} {now : Instant} {result : Except Fault Unit}
    (hw : r.Written x now r' result) :
    r'.format = r.format ∧ r'.options = r.options ∧ r'.layout = r.layout ∧
      r'.closed = r.closed := by
  cases hw <;> exact ⟨rfl, rfl, rfl, rfl⟩

/-! ## The invariant -/

/-- A segment with number `id` and the timing of a rendition. -/
structure Slot (options : Options) (layout : Mp4.Muxer) (id : Nat) (s : Segment) : Prop where
  id_eq : s.id = id
  target_eq : s.target = options.segmentDuration
  partTarget_eq : s.partTarget = options.partDuration
  videoTimed_eq : s.videoTimed = layout.hasVideo

/-- A rendition whose live segments are numbered in order and closed but for the last, at most as
many as are retained, and described by its playlist, and that has not dropped a latch which was not
released. -/
structure Coherent (r : Rendition) : Prop where
  segment_coherent : ∀ s ∈ r.live, s.Coherent
  segment_slot : ∀ i s, r.live[i]? = some s → Slot r.options r.layout (r.mediaSequence + i) s
  earlier_closed : ∀ s ∈ r.earlier, s.isClosed = true
  current_open : r.current.isClosed = false
  retained_pos : 0 < r.options.segmentCount
  length_eq : r.live.length = min (r.current.id + 1) r.options.segmentCount
  abandoned_eq : r.abandoned = []
  manifest_eq : r.manifest = r.render

theorem current_mem_live (r : Rendition) : r.current ∈ r.live :=
  List.mem_append_right _ (List.mem_singleton_self _)

theorem Coherent.current_coherent {r : Rendition} (hr : r.Coherent) : r.current.Coherent :=
  hr.segment_coherent _ r.current_mem_live

theorem Coherent.current_slot {r : Rendition} (hr : r.Coherent) :
    Slot r.options r.layout (r.mediaSequence + r.earlier.length) r.current :=
  hr.segment_slot _ _ (by rw [live, List.getElem?_concat_length])

theorem Coherent.slot_of_mem {r : Rendition} (hr : r.Coherent) {s : Segment} (hs : s ∈ r.live) :
    Slot r.options r.layout s.id s := by
  obtain ⟨i, hi⟩ := List.getElem?_of_mem hs
  have hslot := hr.segment_slot i s hi
  exact ⟨rfl, hslot.target_eq, hslot.partTarget_eq, hslot.videoTimed_eq⟩

/-- A new rendition: one open segment, and at least one retained. -/
theorem new?_eq_ok {format : SourceFormat} {options : Options} {now : Instant} {r : Rendition}
    (h : new? format options now = .ok r) :
    Mp4.Muxer.ofFormat? format = .ok r.layout ∧ r.format = format ∧
      r.options = { options with segmentCount := max options.segmentCount 1 } ∧ r.earlier = [] ∧
      r.current = newSegment r.options r.layout 0 now ∧ r.mediaSequence = 0 ∧
      r.manifest = r.render ∧ r.closed = false := by
  obtain ⟨layout, hl, rfl⟩ := Mp4.exists_of_map_eq_ok h
  exact ⟨hl, rfl, rfl, rfl, rfl, rfl, rfl, rfl⟩

theorem coherent_of_new? {format : SourceFormat} {options : Options} {now : Instant}
    {r : Rendition} (h : new? format options now = .ok r) : r.Coherent := by
  obtain ⟨-, -, hoptions, hearlier, hcurrent, hsequence, hmanifest, -⟩ := new?_eq_ok h
  have habandoned : r.abandoned = [] := by
    obtain ⟨-, -, rfl⟩ := Mp4.exists_of_map_eq_ok h
    rfl
  have hlive : r.live = [newSegment r.options r.layout 0 now] := by
    unfold live
    rw [hearlier, hcurrent, List.nil_append]
  refine ⟨?_, ?_, by simp [hearlier], by rw [hcurrent]; rfl, ?_, ?_, habandoned, hmanifest⟩
  · intro s hs
    rw [hlive] at hs
    rw [List.mem_singleton.1 hs]
    exact Segment.coherent_new ..
  · rw [hlive, hsequence]
    exact @forall_getElem?_concat _ _ [] _ (by simp) ⟨rfl, rfl, rfl, rfl⟩
  · rw [hoptions]
    exact Nat.le_max_right ..
  · rw [hlive, hcurrent, hoptions]
    show 1 = min (0 + 1) (max options.segmentCount 1)
    omega

theorem Slot.written {options : Options} {layout : Mp4.Muxer} {id : Nat} {s t : Segment}
    {x : Packet} {progress : Progress} (hs : Slot options layout id s)
    (hw : s.Written x t progress) : Slot options layout id t := by
  obtain ⟨hid, htarget, hpart, hvideo, -⟩ := hw.frame
  exact ⟨hid.trans hs.id_eq, htarget.trans hs.target_eq, hpart.trans hs.partTarget_eq,
    hvideo.trans hs.videoTimed_eq⟩

theorem Coherent.earlier_slot {r : Rendition} (hr : r.Coherent) :
    ∀ i s, r.earlier[i]? = some s → Slot r.options r.layout (r.mediaSequence + i) s := by
  intro i s h
  have hi : i < r.earlier.length := (List.getElem?_eq_some_iff.1 h).1
  apply hr.segment_slot i s
  unfold live
  rw [List.getElem?_append_left hi, h]

section Kept
variable {r : Rendition} {x : Packet} {now : Instant} {t : Segment} {progress : Progress}

/-- The live segments with the current one replaced by what a write made of it. -/
theorem Coherent.concat_coherent (hr : r.Coherent) (hw : r.current.Written x t progress) :
    ∀ s ∈ r.earlier ++ [t], s.Coherent := by
  intro s hs
  rcases List.mem_append.1 hs with hs | hs
  · exact hr.segment_coherent s (List.mem_append_left _ hs)
  · rw [List.mem_singleton.1 hs]
    exact hw.coherent hr.current_coherent hr.current_open

theorem Coherent.concat_slot (hr : r.Coherent) (hw : r.current.Written x t progress) :
    ∀ i s, (r.earlier ++ [t])[i]? = some s → Slot r.options r.layout (r.mediaSequence + i) s :=
  forall_getElem?_concat hr.earlier_slot (hr.current_slot.written hw)

theorem Coherent.extend (hr : r.Coherent) (hw : r.current.Written x t .remainsOpen) :
    (r.extend t).Coherent where
  segment_coherent := hr.concat_coherent hw
  segment_slot := hr.concat_slot hw
  earlier_closed := hr.earlier_closed
  current_open := hw.isClosed_eq hr.current_open
  retained_pos := hr.retained_pos
  length_eq := by
    have hl : (r.extend t).live.length = r.live.length := by
      simp [Rendition.extend, live, refresh]
    rw [hl, hr.length_eq]
    show _ = min (t.id + 1) _
    rw [hw.frame.1]
    rfl
  abandoned_eq := hr.abandoned_eq
  manifest_eq := rfl

/-- The live segments before the oldest are dropped. -/
def candidates (r : Rendition) (t : Segment) (now : Instant) : List Segment :=
  r.earlier ++ [t] ++ [newSegment r.options r.layout (t.id + 1) now]

/-- How many segments are dropped once the current one has closed. -/
def excess (r : Rendition) : Nat := r.live.length + 1 - r.options.segmentCount

theorem excess_le (hr : r.Coherent) : r.excess ≤ (r.earlier ++ [t]).length := by
  have := hr.retained_pos
  simp only [excess, live, List.length_append, List.length_singleton]
  omega

theorem earlier_replace : (r.replace t now).earlier = (r.earlier ++ [t]).drop r.excess := by
  simp [replace, refresh, evict, rollOver, live, excess]

theorem mediaSequence_replace : (r.replace t now).mediaSequence = r.mediaSequence + r.excess := by
  simp [replace, refresh, evict, rollOver, live, excess]

theorem abandoned_replace : (r.replace t now).abandoned =
    r.abandoned ++ ((r.earlier ++ [t]).take r.excess).flatMap (·.unreleased) := by
  simp [replace, refresh, evict, rollOver, live, excess]

theorem live_replace (hr : r.Coherent) :
    (r.replace t now).live = (r.candidates t now).drop r.excess := by
  unfold live
  rw [earlier_replace, candidates, List.drop_append_of_le_length (excess_le hr)]
  rfl

/-- The live segments are all closed at the moment when the oldest of them are dropped. -/
theorem Coherent.concat_closed (hr : r.Coherent) (hw : r.current.Written x t .closed) :
    ∀ s ∈ r.earlier ++ [t], s.isClosed = true := by
  intro s hs
  rcases List.mem_append.1 hs with hs | hs
  · exact hr.earlier_closed s hs
  · rw [List.mem_singleton.1 hs]
    exact hw.isClosed_eq hr.current_open

/-- **Every segment that is dropped has released its latches**, and so have its parts. -/
theorem Coherent.unreleased_of_dropped (hr : r.Coherent) (hw : r.current.Written x t .closed) :
    ∀ s ∈ (r.earlier ++ [t]).take r.excess, s.unreleased = [] := by
  intro s hs
  have hmem := List.mem_of_mem_take hs
  exact (hr.concat_coherent hw s hmem).unreleased_eq_nil (hr.concat_closed hw s hmem)

theorem Coherent.replace (hr : r.Coherent) (hw : r.current.Written x t .closed) :
    (r.replace t now).Coherent where
  segment_coherent := by
    intro s hs
    rw [live_replace hr] at hs
    rcases List.mem_append.1 (List.mem_of_mem_drop hs) with hs | hs
    · exact hr.concat_coherent hw s hs
    · rw [List.mem_singleton.1 hs]
      exact Segment.coherent_new ..
  segment_slot := by
    intro i s h
    have hall : ∀ i s, (r.candidates t now)[i]? = some s →
        Slot r.options r.layout (r.mediaSequence + i) s := by
      refine forall_getElem?_concat (hr.concat_slot hw) ⟨?_, rfl, rfl, rfl⟩
      show t.id + 1 = _
      rw [(hr.current_slot.written hw).id_eq, List.length_append, List.length_singleton]
      omega
    rw [live_replace hr, List.getElem?_drop] at h
    rw [mediaSequence_replace, Nat.add_assoc]
    exact hall _ s h
  earlier_closed := by
    intro s hs
    rw [earlier_replace] at hs
    exact hr.concat_closed hw s (List.mem_of_mem_drop hs)
  current_open := rfl
  retained_pos := hr.retained_pos
  length_eq := by
    have hid : t.id = r.current.id := hw.frame.1
    have hlen := hr.length_eq
    have hcand : (r.candidates t now).length = r.live.length + 1 := by
      simp [candidates, live]
    rw [live_replace hr, List.length_drop, hcand, excess]
    show _ = min (t.id + 1 + 1) r.options.segmentCount
    omega
  abandoned_eq := by
    rw [abandoned_replace, hr.abandoned_eq, List.nil_append]
    exact List.flatMap_eq_nil_iff.2 (hr.unreleased_of_dropped hw)
  manifest_eq := rfl

/-- A live segment after a write was there before it, is what the write made of the current one, or
is new. -/
theorem Written.live_cases {r' : Rendition} {result : Except Fault Unit}
    (hw : r.Written x now r' result) (hr : r.Coherent) {s : Segment} (hs : s ∈ r'.live) :
    s ∈ r.live ∨ (∃ progress, r.current.Written (fold x) s progress) ∨
      s = newSegment r.options r.layout (r.current.id + 1) now := by
  cases hw with
  | refused => exact Or.inl hs
  | extended _ hw =>
    rcases List.mem_append.1 hs with hs | hs
    · exact Or.inl (List.mem_append_left _ hs)
    · rw [List.mem_singleton.1 hs]
      exact Or.inr (Or.inl ⟨_, hw⟩)
  | replaced _ hw =>
    rw [live_replace hr] at hs
    rcases List.mem_append.1 (List.mem_of_mem_drop hs) with hs | hs
    · rcases List.mem_append.1 hs with hs | hs
      · exact Or.inl (List.mem_append_left _ hs)
      · rw [List.mem_singleton.1 hs]
        exact Or.inr (Or.inl ⟨_, hw⟩)
    · rw [List.mem_singleton.1 hs, hw.frame.1]
      exact Or.inr (Or.inr rfl)

/-- **A write in range keeps the invariant.** -/
theorem Written.coherent {r' : Rendition} {result : Except Fault Unit}
    (hw : r.Written x now r' result) (hr : r.Coherent) : r'.Coherent := by
  cases hw with
  | refused => exact hr
  | extended _ hw => exact hr.extend hw
  | replaced _ hw => exact hr.replace hw

theorem Coherent.write (hr : r.Coherent) (x : Packet) (now : Instant)
    (h : r.overflows x now = false) :
    r.Written x now (r.write x now).1 (r.write x now).2 := by
  apply (write_cases hr.current_coherent hr.current_open x now).resolve_left
  intro ho
  rw [overflows_iff.2 ho] at h
  cases h

end Kept

theorem Coherent.step {r r' : Rendition} (hr : r.Coherent) (h : r.Step r') : r'.Coherent := by
  cases h with
  | write x now h => exact (hr.write x now h).coherent hr
  | close => exact ⟨hr.1, hr.2, hr.3, hr.4, hr.5, hr.6, hr.7, hr.8⟩

theorem Coherent.later {r r' : Rendition} (hr : r.Coherent) (h : r.Later r') : r'.Coherent := by
  induction h with
  | refl => exact hr
  | tail _ hstep ih => exact ih.step hstep

theorem Reachable.coherent {format : SourceFormat} {options : Options} {r : Rendition}
    (h : Reachable format options r) : r.Coherent := by
  obtain ⟨now, r₀, h₀, hr⟩ := h
  exact (coherent_of_new? h₀).later hr

theorem Coherent.frame_later {r r' : Rendition} (hr : r.Coherent) (h : r.Later r') :
    r'.format = r.format ∧ r'.options = r.options ∧ r'.layout = r.layout := by
  induction h with
  | refl => exact ⟨rfl, rfl, rfl⟩
  | tail hprev hstep ih =>
    cases hstep with
    | write x now h =>
      obtain ⟨hf, ho, hl, -⟩ := ((hr.later hprev).write x now h).frame
      exact ⟨hf.trans ih.1, ho.trans ih.2.1, hl.trans ih.2.2⟩
    | close => exact ih

theorem Reachable.options_eq {format : SourceFormat} {options : Options} {r : Rendition}
    (h : Reachable format options r) :
    r.options = { options with segmentCount := max options.segmentCount 1 } := by
  obtain ⟨now, r₀, h₀, hr⟩ := h
  rw [((coherent_of_new? h₀).frame_later hr).2.1]
  exact (new?_eq_ok h₀).2.2.1

/-! ## Numbers of segments -/

/-- Looking for a number among members that are numbered from `base`. -/
theorem find?_numbered {α : Type} {number : α → Nat} {id : Nat} (xs : List α) (base : Nat)
    (h : ∀ i a, xs[i]? = some a → number a = base + i) :
    xs.find? (number · == id) = if base ≤ id then xs[id - base]? else none := by
  induction xs generalizing base with
  | nil => simp
  | cons x xs ih =>
    have hx : number x = base := h 0 x rfl
    have hrest := ih (base + 1) fun i a ha => by
      rw [h (i + 1) a (by simpa using ha)]
      omega
    rw [List.find?_cons, hrest, hx]
    rcases Nat.lt_trichotomy base id with hlt | rfl | hlt
    · rw [beq_false_of_ne (Nat.ne_of_lt hlt), if_pos (Nat.le_of_lt hlt),
        show id - base = id - (base + 1) + 1 by omega, List.getElem?_cons_succ]
      exact if_pos hlt
    · rw [if_pos (Nat.le_refl _), Nat.sub_self, beq_self_eq_true, List.getElem?_cons_zero]
    · rw [beq_false_of_ne (Nat.ne_of_gt hlt), if_neg (Nat.not_le_of_lt hlt)]
      exact if_neg (by omega)

/-- The numbers of members that are numbered from `base`. -/
theorem map_numbered {α : Type} {number : α → Nat} (xs : List α) (base : Nat)
    (h : ∀ i a, xs[i]? = some a → number a = base + i) :
    xs.map number = List.range' base xs.length := by
  ext1 i
  rw [List.getElem?_map]
  cases hi : xs[i]? with
  | none =>
    rw [List.getElem?_eq_none_iff] at hi
    rw [List.getElem?_eq_none (by rwa [List.length_range'])]
    rfl
  | some a =>
    have hlt : i < xs.length := (List.getElem?_eq_some_iff.1 hi).1
    rw [Option.map_some, h i a hi, List.getElem?_range' hlt, Nat.one_mul]

section Numbers
variable {r : Rendition}

theorem Coherent.segment?_eq (hr : r.Coherent) (id : Nat) :
    r.segment? id = if r.mediaSequence ≤ id then r.live[id - r.mediaSequence]? else none :=
  find?_numbered r.live r.mediaSequence fun i s h => (hr.segment_slot i s h).id_eq

theorem Coherent.segment?_of_dropped (hr : r.Coherent) {id : Nat} (hid : id < r.mediaSequence) :
    r.segment? id = none := by
  rw [hr.segment?_eq, if_neg (Nat.not_le_of_lt hid)]

theorem Coherent.segment?_eq_some_iff (hr : r.Coherent) {id : Nat} {s : Segment} :
    r.segment? id = some s ↔ s ∈ r.live ∧ s.id = id := by
  rw [hr.segment?_eq]
  constructor
  · intro h
    split at h
    · refine ⟨List.mem_of_getElem? h, ?_⟩
      rw [(hr.segment_slot _ s h).id_eq]
      omega
    · cases h
  · rintro ⟨hs, rfl⟩
    obtain ⟨i, hi⟩ := List.getElem?_of_mem hs
    rw [(hr.segment_slot i s hi).id_eq, if_pos (Nat.le_add_right ..), Nat.add_sub_cancel_left, hi]

theorem Coherent.segment?_current (hr : r.Coherent) : r.segment? r.current.id = some r.current :=
  hr.segment?_eq_some_iff.2 ⟨r.current_mem_live, rfl⟩

theorem Coherent.isSome_segment?_iff (hr : r.Coherent) {id : Nat} :
    (r.segment? id).isSome = true ↔ id ∈ r.liveIds := by
  rw [Option.isSome_iff_exists, liveIds, List.mem_map]
  exact exists_congr fun s => hr.segment?_eq_some_iff

theorem Coherent.current_id (hr : r.Coherent) :
    r.current.id + 1 = r.mediaSequence + r.live.length := by
  rw [hr.current_slot.id_eq, live, List.length_append, List.length_singleton]
  omega

theorem Coherent.liveIds_eq (hr : r.Coherent) :
    r.liveIds = List.range' r.mediaSequence (r.current.id + 1 - r.mediaSequence) := by
  rw [hr.current_id, Nat.add_sub_cancel_left]
  exact map_numbered r.live r.mediaSequence fun i s hs => (hr.segment_slot i s hs).id_eq

theorem Coherent.mediaSequence_eq (hr : r.Coherent) :
    r.mediaSequence = r.current.id + 1 - r.options.segmentCount := by
  have := hr.current_id
  have := hr.length_eq
  omega

theorem Coherent.closed_iff (hr : r.Coherent) {s : Segment} (hs : s ∈ r.live) :
    s.isClosed = true ↔ s.id ≠ r.current.id := by
  rcases List.mem_append.1 hs with he | he
  · apply iff_of_true (hr.earlier_closed s he)
    obtain ⟨i, hi⟩ := List.getElem?_of_mem he
    have hlt : i < r.earlier.length := (List.getElem?_eq_some_iff.1 hi).1
    rw [(hr.earlier_slot i s hi).id_eq, hr.current_slot.id_eq]
    omega
  · rw [List.mem_singleton.1 he]
    exact iff_of_false (by rw [hr.current_open]; nofun) fun h => h rfl

end Numbers

/-! ## A short run -/

def cameraVideo : VideoFormat := ⟨.h264, 640, 360, 25, 0, []⟩

def camera : SourceFormat := ⟨"camera", some cameraVideo, none⟩

/-- One frame of 40 ms. -/
def cameraFrame (keyframe : Bool) : Packet :=
  ⟨.zero, .ofMillis 40, [0], "camera", 0, .video cameraVideo keyframe⟩

/-- Parts of one frame, segments of two parts, and no more segments retained than must be. -/
def shortest : Options := ⟨.ofMillis 80, .ofMillis 40, .ofMillis 40, 0⟩

/-- Five frames with an empty packet between the first two. -/
def fiveFrames : List Arrival :=
  [cameraFrame true, { cameraFrame false with payload := [] }, cameraFrame false, cameraFrame true,
    cameraFrame false, cameraFrame true].map fun x => ⟨x, ⟨0, 0⟩⟩

end Rendition

end LiveHls
