import LiveHls.Proofs.Rendition.Greedy
import LiveHls.Proofs.Rendition.Immutable
import Mathlib.Data.List.Induction

/-!
# Parts in their places

* `Timeline.placed` : the parts of a timeline in order, each with its segment and its number in it;
* `Timeline.completePart?`, `completePart?_timeline_append` : a complete part stays in its place as
  packets are added;
* `Shows.completePart?` : a closed live part is the complete part of its place;
* `placed_of_readDuring` : so what is read of a part, at any time of a run, is the media of the part
  that has its place on the timeline of the whole run.
-/

namespace LiveHls

/-- A part of a timeline with its place: its segment and its number in that. -/
structure PlacedPart where
  segment : Nat
  id : Nat
  packets : List Packet

theorem getElem?_append_of_eq_some {α : Type} {xs : List α} {i : Nat} {x : α}
    (h : xs[i]? = some x) {ys : List α} : (xs ++ ys)[i]? = some x :=
  (List.getElem?_append_left (List.getElem?_eq_some_iff.1 h).1).trans h

namespace Timeline
variable {t : Timeline} {segment id : Nat} {xs : List Packet}

/-- All parts in order, the open one last. -/
def placed (t : Timeline) : List PlacedPart :=
  t.blocks.zipIdx.flatMap fun (block, segment) =>
    block.zipIdx.map fun (packets, id) => ⟨segment, id, packets⟩

theorem mem_placed_iff {p : PlacedPart} : p ∈ t.placed ↔
    ∃ block, t.blocks[p.segment]? = some block ∧ block[p.id]? = some p.packets := by
  obtain ⟨segment, id, xs⟩ := p
  simp only [placed, List.mem_flatMap, List.mem_map, Prod.exists, List.mem_zipIdx_iff_getElem?,
    PlacedPart.mk.injEq]
  constructor
  · rintro ⟨block, i, hblock, ys, j, hys, rfl, rfl, rfl⟩
    exact ⟨block, hblock, hys⟩
  · rintro ⟨block, hblock, hxs⟩
    exact ⟨block, segment, hblock, xs, id, hxs, rfl, rfl, rfl⟩

theorem map_packets_placed (t : Timeline) : t.placed.map (·.packets) = t.blocks.flatten := by
  have hblock : ∀ (block : List (List Packet)) segment,
      (block.zipIdx.map fun (packets, id) => PlacedPart.mk segment id packets).map (·.packets) =
        block := by
    intro block segment
    rw [List.map_map]
    exact List.zipIdx_map_fst 0 block
  simp only [placed, List.map_flatMap, hblock]
  rw [List.flatMap_def]
  exact congrArg List.flatten (List.zipIdx_map_fst 0 t.blocks)

/-! ## Complete parts -/

/-- The packets are a complete part of a timeline, in a complete segment or in the open one. -/
def HasPart (t : Timeline) (segment id : Nat) (xs : List Packet) : Prop :=
  (∃ block, t.segments[segment]? = some block ∧ block[id]? = some xs) ∨
    segment = t.segments.length ∧ t.parts[id]? = some xs

theorem HasPart.mem_placed (h : t.HasPart segment id xs) : ⟨segment, id, xs⟩ ∈ t.placed := by
  rw [mem_placed_iff, blocks]
  rcases h with ⟨block, hblock, hxs⟩ | ⟨rfl, hxs⟩
  · exact ⟨block, getElem?_append_of_eq_some hblock, hxs⟩
  · exact ⟨_, List.getElem?_concat_length, getElem?_append_of_eq_some hxs⟩

/-- A complete part stays in its place. -/
theorem HasPart.push (h : t.HasPart segment id xs) (v : Bool) (options : Options) (x : Packet) :
    (t.push v options x).HasPart segment id xs := by
  unfold Timeline.push
  split
  · rcases h with ⟨block, hblock, hxs⟩ | ⟨rfl, hxs⟩
    · split
      · exact .inl ⟨block, getElem?_append_of_eq_some hblock, hxs⟩
      · exact .inl ⟨block, hblock, hxs⟩
    · split
      · -- the open segment is complete now
        exact .inl ⟨_, List.getElem?_concat_length, getElem?_append_of_eq_some hxs⟩
      · exact .inr ⟨rfl, getElem?_append_of_eq_some hxs⟩
  · exact h

theorem HasPart.append {v : Bool} {options : Options} {ys : List Packet}
    (h : (timeline v options ys).HasPart segment id xs) (more : List Packet) :
    (timeline v options (ys ++ more)).HasPart segment id xs := by
  induction more using List.reverseRecOn with
  | nil => rwa [List.append_nil]
  | append_singleton more x ih =>
    rw [← List.append_assoc, timeline_concat]
    exact ih.push v options x

end Timeline

namespace Rendition

theorem exists_of_packets {parts : List Part} {block : List (List Packet)}
    (h : parts.map (·.packets) = block.map (·.map fold)) {id : Nat} {p : Part}
    (hp : parts[id]? = some p) : ∃ xs, block[id]? = some xs ∧ p.packets = xs.map fold := by
  have hid := congrArg (·[id]?) h
  simp only [List.getElem?_map, hp, Option.map_some] at hid
  obtain ⟨xs, hxs, heq⟩ := Option.map_eq_some_iff.1 hid.symm
  exact ⟨xs, hxs, heq.symm⟩

/-- A closed live part is a complete part of the timeline, in its place. -/
theorem Shows.hasPart {r : Rendition} {t : Timeline} (hr : r.Coherent) (h : r.Shows t)
    {segment id : Nat} {s : Segment} {p : Part} (hs : r.segment? segment = some s)
    (hp : s.part? id = some p) (hc : p.isClosed = true) :
    ∃ xs, t.HasPart segment id xs ∧ p.packets = xs.map fold := by
  obtain ⟨hlive, rfl⟩ := hr.segment?_eq_some_iff.1 hs
  have hp : s.parts[id]? = some p := hp
  rcases List.mem_append.1 hlive with hearlier | hcurrent
  · obtain ⟨i, hi⟩ := List.getElem?_of_mem hearlier
    obtain ⟨block, hblock, hholds⟩ := h.earlier_holds i s hi
    have hid := (hr.segment_slot i s (getElem?_append_of_eq_some hi)).id_eq
    obtain ⟨xs, hxs, hpackets⟩ := exists_of_packets hholds hp
    exact ⟨xs, .inl ⟨block, hid ▸ hblock, hxs⟩, hpackets⟩
  · obtain rfl := List.mem_singleton.1 hcurrent
    have hearlier := hr.current_coherent.getElem?_closedParts hp hc
    rw [hr.current_coherent.filter_parts hr.current_open] at hearlier
    obtain ⟨xs, hxs, hpackets⟩ := exists_of_packets h.current_holds.current_packets.1 hearlier
    exact ⟨xs, .inr ⟨h.id_eq, hxs⟩, hpackets⟩

theorem accepted_append {r r₁ : Rendition} {front : List Arrival} (h : r.writeAll? front = some r₁)
    (back : List Arrival) : r.accepted (front ++ back) = r.accepted front ++ r₁.accepted back := by
  induction front generalizing r with
  | nil =>
    cases h
    rfl
  | cons a front ih =>
    obtain ⟨-, hrest⟩ := writeAll?_cons_eq_some_iff.1 h
    rw [List.cons_append, accepted, accepted, ih hrest]
    split <;> rfl

/-- At some time of a run a part is read as `bytes`. -/
def ReadDuring (r : Rendition) (arrivals : List Arrival) (segment id : Nat) (bytes : Bytes) :
    Prop :=
  ∃ front back r₁, arrivals = front ++ back ∧ r.writeAll? front = some r₁ ∧
    r₁.lookup (.part segment id) = .found (.ok (.media bytes))

/-- The media of a part. -/
def mediaOf (r : Rendition) (p : PlacedPart) : Except Fault Body :=
  r.media (p.packets.map fold) (sequenceNumber p.segment p.id)

/-- **What is read of a part is the media of the part in its place.** -/
theorem placed_of_readDuring {format : SourceFormat} {options : Options} {now : Instant}
    {r₀ : Rendition} {arrivals : List Arrival} (h₀ : new? format options now = .ok r₀)
    {segment id : Nat} {bytes : Bytes} (h : r₀.ReadDuring arrivals segment id bytes) :
    ∃ p ∈ (timeline format.video.isSome options (r₀.accepted arrivals)).placed,
      p.segment = segment ∧ p.id = id ∧ r₀.mediaOf p = .ok (.media bytes) := by
  obtain ⟨front, back, r, rfl, hrun, hread⟩ := h
  have hr₀ := coherent_of_new? h₀
  have hlater := later_of_writeAll? hrun
  have hr := hr₀.later hlater
  have hlookup := r.lookup_part segment id
  rw [hread] at hlookup
  generalize hbytes : Lookup.found (.ok (.media bytes)) = l at hlookup
  cases hlookup with
  | dropped => cases hbytes
  | absent => cases hbytes
  | awaited => cases hbytes
  | @served s p hs hp hc =>
    obtain ⟨xs, hpart, hpackets⟩ := (shows_of_run h₀ hrun).1.hasPart hr hs hp hc
    refine ⟨⟨segment, id, xs⟩, ?_, rfl, rfl, ?_⟩
    · rw [accepted_append hrun]
      exact (hpart.append _).mem_placed
    · rw [mediaOf, ← hpackets, ← hr₀.media_later hlater]
      exact (Lookup.found.inj hbytes).symm

end Rendition

end LiveHls
