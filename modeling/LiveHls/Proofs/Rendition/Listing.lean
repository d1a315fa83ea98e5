import LiveHls.Proofs.Playlist.Uris
import LiveHls.Proofs.Rendition.Waiting

/-!
# The playlist lists what can be read

* `Segment.listing` : the lines of a segment, a part line for each closed part and, once the segment
  is closed, its tail; `Rendition.Coherent.manifest_eq_listings` : the playlist is its header, the
  listings of the live segments and one preload hint;
* `Coherent.partUri_mem_iff`, `Coherent.segmentUri_mem_iff` : the URIs in its text;
* `PartLookup`, `SegmentLookup` : how a read of a part or a segment is answered;
* `advertises_of_reachable` : a part or segment is read at once exactly if its URI is listed.
-/

namespace LiveHls

open Playlist (partUri segmentUri partUris segmentUris hintUris)

namespace Segment

/-- The lines that list a segment: one for each closed part, in order, and its tail once it is
closed. -/
def listing (s : Segment) : List Playlist.Line :=
  (s.parts.filter (·.isClosed)).map (fun p => .part s.id p.id p.duration p.independent) ++
    if s.isClosed then Playlist.segmentTail s.id s.startedAt s.duration else []

section Listing
variable {s : Segment}

theorem Coherent.part?_eq_some_iff (hs : s.Coherent) {f : Nat} {p : Part} :
    s.part? f = some p ↔ p ∈ s.parts ∧ p.id = f := by
  constructor
  · intro h
    exact ⟨List.mem_of_getElem? h, (hs.part_slot f p h).id_eq⟩
  · rintro ⟨hp, rfl⟩
    obtain ⟨i, hi⟩ := List.getElem?_of_mem hp
    rw [(hs.part_slot i p hi).id_eq]
    exact hi

theorem Coherent.part?_eq_none_iff (hs : s.Coherent) {f : Nat} :
    s.part? f = none ↔ ∀ p ∈ s.parts, p.id ≠ f := by
  rw [Option.eq_none_iff_forall_ne_some]
  exact forall_congr' fun p => by rw [Ne, hs.part?_eq_some_iff, not_and]

theorem Coherent.part_ids (hs : s.Coherent) : s.parts.map (·.id) = List.range s.parts.length := by
  rw [List.range_eq_range']
  exact Rendition.map_numbered s.parts 0 fun i p hp =>
    (hs.part_slot i p hp).id_eq.trans (Nat.zero_add i).symm

/-- The lines kept with a segment are its listing, and a hint for its current part while it is
open. -/
theorem Coherent.entry_eq_listing (hs : s.Coherent) :
    s.entry = s.listing ++ if s.isClosed then [] else [.preloadHint s.id s.current.id] := by
  have hlines : s.closedLines = (s.parts.filter (·.isClosed)).map
      (fun p => .part s.id p.id p.duration p.independent) := by
    rw [hs.closedLines_eq]
    refine List.map_congr_left fun p hp => ?_
    obtain ⟨hmem, hclosed⟩ := List.mem_filter.1 hp
    obtain ⟨i, hi⟩ := List.getElem?_of_mem hmem
    have hsegment : p.segment = s.id := (hs.part_slot i p hi).segment_eq
    rw [(hs.part_coherent p hmem).entry_eq, if_pos hclosed, hsegment]
  rw [hs.entry_eq, hlines, listing]
  cases s.isClosed <;> simp

theorem part_mem_listing {id f : Nat} {duration : Duration} {independent : Bool} :
    .part id f duration independent ∈ s.listing ↔ s.id = id ∧
      ∃ p ∈ s.parts, p.isClosed = true ∧ p.id = f ∧ p.duration = duration ∧
        p.independent = independent := by
  have htail : .part id f duration independent ∉
      if s.isClosed then Playlist.segmentTail s.id s.startedAt s.duration else [] := by
    split <;> simp [Playlist.segmentTail]
  simp only [listing, List.mem_append, htail, or_false, List.mem_map, List.mem_filter,
    Playlist.Line.part.injEq]
  constructor
  · rintro ⟨p, ⟨hp, hc⟩, hid, hrest⟩
    exact ⟨hid, p, hp, hc, hrest⟩
  · rintro ⟨hid, p, hp, hc, hrest⟩
    exact ⟨p, ⟨hp, hc⟩, hid, hrest⟩

theorem segment_mem_listing {id : Nat} :
    .segment id ∈ s.listing ↔ s.isClosed = true ∧ s.id = id := by
  rw [listing, List.mem_append, List.mem_map]
  cases s.isClosed with
  | false => simp
  | true =>
    simp only [if_true, Playlist.segmentTail, List.mem_cons, reduceCtorEq, and_false, exists_false,
      false_or, List.not_mem_nil, or_false, Playlist.Line.segment.injEq, true_and]
    exact eq_comm

theorem preloadHint_notMem_listing (id f : Nat) : .preloadHint id f ∉ s.listing := by
  rw [listing, List.mem_append, List.mem_map]
  cases s.isClosed <;> simp [Playlist.segmentTail]

end Listing

end Segment

namespace Rendition

section Listings
variable {r : Rendition}

/-- **The playlist** is its header, the listings of the live segments and a hint for the current
part. -/
theorem Coherent.manifest_eq_listings (hr : r.Coherent) :
    r.manifest =
      Playlist.header r.options.segmentDuration r.options.partTarget r.mediaSequence ++
        r.live.flatMap Segment.listing ++
          [.preloadHint r.current.id r.current.current.id] := by
  have hearlier : r.earlier.flatMap (·.entry) = r.earlier.flatMap Segment.listing := by
    refine List.flatMap_congr fun s hs => ?_
    rw [(hr.segment_coherent s (List.mem_append_left _ hs)).entry_eq_listing,
      if_pos (hr.earlier_closed s hs), List.append_nil]
  have hcurrent : r.current.entry =
      r.current.listing ++ [.preloadHint r.current.id r.current.current.id] := by
    rw [hr.current_coherent.entry_eq_listing, hr.current_open]
    rfl
  rw [hr.manifest_eq, render, live]
  simp only [List.flatMap_append, List.flatMap_singleton, hearlier, hcurrent, List.append_assoc]

/-- The tail of a closed segment stands in the playlist. -/
theorem Coherent.tail_infix (hr : r.Coherent) {s : Segment} (hs : s ∈ r.live)
    (hc : s.isClosed = true) :
    Playlist.segmentTail s.id s.startedAt s.duration <:+: r.manifest := by
  have hlisting : Playlist.segmentTail s.id s.startedAt s.duration <:+ s.listing := by
    rw [Segment.listing, hc, if_pos rfl]
    exact List.suffix_append ..
  have hlive : s.listing <:+: r.live.flatMap Segment.listing := by
    rw [List.flatMap_def]
    exact List.infix_of_mem_flatten (List.mem_map_of_mem hs)
  rw [hr.manifest_eq_listings, List.append_assoc]
  exact (hlisting.isInfix.trans hlive).trans
    ((List.prefix_append ..).isInfix.trans (List.suffix_append ..).isInfix)

/-! ## URIs in the text -/

/-- A line of the playlist that is neither in the header nor a hint lists a live segment. -/
theorem Coherent.mem_manifest_iff (hr : r.Coherent) {l : Playlist.Line}
    (hheader : l ∉ Playlist.header r.options.segmentDuration r.options.partTarget r.mediaSequence)
    (hhint : l ≠ .preloadHint r.current.id r.current.current.id) :
    l ∈ r.manifest ↔ ∃ s ∈ r.live, l ∈ s.listing := by
  rw [hr.manifest_eq_listings]
  simp [hheader, hhint]

theorem Coherent.part_mem_manifest_iff (hr : r.Coherent) {s f : Nat} {duration : Duration}
    {independent : Bool} : .part s f duration independent ∈ r.manifest ↔
      ∃ t ∈ r.live, .part s f duration independent ∈ t.listing :=
  hr.mem_manifest_iff (by simp [Playlist.header]) (by simp)

theorem Coherent.segment_mem_manifest_iff (hr : r.Coherent) {s : Nat} :
    .segment s ∈ r.manifest ↔ ∃ t ∈ r.live, .segment s ∈ t.listing :=
  hr.mem_manifest_iff (by simp [Playlist.header]) (by simp)

theorem Coherent.partUri_mem_iff (hr : r.Coherent) {s f : Nat} :
    partUri s f ∈ partUris (Playlist.text r.manifest) ↔
      ∃ t p, r.segment? s = some t ∧ t.part? f = some p ∧ p.isClosed = true := by
  simp only [Playlist.partUri_mem_partUris, hr.part_mem_manifest_iff, Segment.part_mem_listing]
  constructor
  · rintro ⟨_, _, t, ht, hid, p, hp, hc, hpid, -⟩
    exact ⟨t, p, hr.segment?_eq_some_iff.2 ⟨ht, hid⟩,
      (hr.segment_coherent t ht).part?_eq_some_iff.2 ⟨hp, hpid⟩, hc⟩
  · rintro ⟨t, p, hs, hp, hc⟩
    obtain ⟨ht, hid⟩ := hr.segment?_eq_some_iff.1 hs
    obtain ⟨hmem, hpid⟩ := (hr.segment_coherent t ht).part?_eq_some_iff.1 hp
    exact ⟨_, _, t, ht, hid, p, hmem, hc, hpid, rfl, rfl⟩

theorem Coherent.segmentUri_mem_iff (hr : r.Coherent) {s : Nat} :
    segmentUri s ∈ segmentUris (Playlist.text r.manifest) ↔
      ∃ t, r.segment? s = some t ∧ t.isClosed = true := by
  simp only [Playlist.segmentUri_mem_segmentUris, hr.segment_mem_manifest_iff,
    Segment.segment_mem_listing, hr.segment?_eq_some_iff]
  exact exists_congr fun t => ⟨fun ⟨ht, hc, hid⟩ => ⟨⟨ht, hid⟩, hc⟩,
    fun ⟨⟨ht, hid⟩, hc⟩ => ⟨ht, hc, hid⟩⟩

theorem Coherent.hintUris_manifest (hr : r.Coherent) :
    hintUris (Playlist.text r.manifest) = [partUri r.current.id r.current.current.id] := by
  have hlistings : (r.live.flatMap Segment.listing).filterMap Playlist.Line.hintUri? = [] := by
    rw [List.filterMap_eq_nil_iff]
    intro l hl
    obtain ⟨t, -, hl⟩ := List.mem_flatMap.1 hl
    cases l with
    | preloadHint id f => exact absurd hl (t.preloadHint_notMem_listing id f)
    | _ => rfl
  rw [Playlist.hintUris_text, hr.manifest_eq_listings, List.filterMap_append, List.filterMap_append,
    hlistings]
  rfl

/-! ## Answers -/

/-- Collecting packets fails only because a sum of durations leaves its range. -/
theorem collect_cases (layout : Mp4.Muxer) (packets : List Packet) :
    collect layout packets = .error .durationOverflow ∨ ∃ m, collect layout packets = .ok m := by
  induction packets generalizing layout with
  | nil => exact Or.inr ⟨layout, rfl⟩
  | cons x xs ih =>
    rw [collect]
    split
    · exact ih _
    · exact ih _
    · exact Or.inl rfl

theorem media_cases (r : Rendition) (packets : List Packet) (sequence : UInt32) :
    r.media packets sequence = .error .durationOverflow ∨
      ∃ bytes, r.media packets sequence = .ok (.media bytes) := by
  unfold media
  rcases collect_cases r.layout packets with h | ⟨m, h⟩
  · exact Or.inl (by rw [h]; rfl)
  · exact Or.inr ⟨_, by rw [h]; rfl⟩

/-- Packets whose sums stay in their range are answered with bytes. -/
theorem media_served (r : Rendition) {packets : List Packet} {sequence : UInt32}
    (hin : Lookup.found (r.media packets sequence) ≠ .found (.error .durationOverflow)) :
    ∃ bytes, Lookup.found (r.media packets sequence) = .found (.ok (.media bytes)) := by
  rcases r.media_cases packets sequence with ho | ⟨bytes, hb⟩
  · rw [ho] at hin
    exact absurd rfl hin
  · exact ⟨bytes, by rw [hb]⟩

theorem media_ne_notFound (r : Rendition) (packets : List Packet) (sequence : UInt32)
    (kind name : String) : r.media packets sequence ≠ .error (.error (.notFound kind name)) := by
  rcases r.media_cases packets sequence with h | ⟨bytes, h⟩ <;> rw [h] <;> nofun

/-- How a read of a part is answered. -/
inductive PartLookup (r : Rendition) (s f : Nat) : Lookup → Prop
  | dropped (missing : r.segment? s = none) : PartLookup r s f (segmentMissing s)
  | served {t : Segment} {p : Part} (live : r.segment? s = some t) (part : t.part? f = some p)
      (closed : p.isClosed = true) :
      PartLookup r s f (.found (r.media p.packets (sequenceNumber s f)))
  | absent {t : Segment} (live : r.segment? s = some t) (missing : t.part? f = none)
      (closed : t.isClosed = true) :
      PartLookup r s f
        (.found (.error (.error (.notFound "fragment" (toString s ++ "/" ++ toString f)))))
  | awaited {t : Segment} {what : Awaited} (live : r.segment? s = some t)
      (part_open : ∀ p, t.part? f = some p → p.isClosed = false)
      (segment_open : t.part? f = none → t.isClosed = false) : PartLookup r s f (.awaits what)

theorem lookup_part (r : Rendition) (s f : Nat) : r.PartLookup s f (r.lookup (.part s f)) := by
  show r.PartLookup s f (r.lookupPart s f)
  unfold lookupPart partAnswer
  cases hs : r.segment? s with
  | none => exact .dropped hs
  | some t =>
    cases hp : t.part? f with
    | some p =>
      cases hc : p.isClosed with
      | true => simpa only [hp, hc, if_true] using .served hs hp hc
      | false =>
        simp only [hp, hc, Bool.false_eq_true, if_false]
        refine .awaited hs (fun q hq => ?_) fun hnone => ?_
        · rw [hp] at hq
          cases hq
          exact hc
        · rw [hp] at hnone
          cases hnone
    | none =>
      cases hc : t.isClosed with
      | true => simpa only [hp, hc, if_true] using .absent hs hp hc
      | false =>
        simp only [hp, hc, Bool.false_eq_true, if_false]
        refine .awaited hs (fun q hq => ?_) fun _ => hc
        rw [hp] at hq
        cases hq

/-- How a read of a segment is answered. -/
inductive SegmentLookup (r : Rendition) (s : Nat) : Lookup → Prop
  | dropped (missing : r.segment? s = none) : SegmentLookup r s (segmentMissing s)
  | served {t : Segment} (live : r.segment? s = some t) (closed : t.isClosed = true) :
      SegmentLookup r s (.found (r.media t.packets (sequenceNumber s 0)))
  | awaited {t : Segment} {what : Awaited} (live : r.segment? s = some t)
      (segment_open : t.isClosed = false) : SegmentLookup r s (.awaits what)

theorem lookup_segment (r : Rendition) (s : Nat) : r.SegmentLookup s (r.lookup (.segment s)) := by
  show r.SegmentLookup s (r.lookupSegment s)
  unfold lookupSegment segmentAnswer
  cases hs : r.segment? s with
  | none => exact .dropped hs
  | some t =>
    cases hc : t.isClosed with
    | true => simpa only [hc, if_true] using .served hs hc
    | false => simpa only [hc, Bool.false_eq_true, if_false] using .awaited hs hc

/-- A playlist is answered with or waited for. -/
theorem lookup_playlist_cases (r : Rendition) (segment part : Option Nat) :
    r.lookup (.playlist segment part) = r.manifestBody ∨
      ∃ what, r.lookup (.playlist segment part) = .awaits what := by
  cases segment with
  | none => exact Or.inl rfl
  | some id =>
    show r.lookupPlaylist id part = _ ∨ ∃ what, r.lookupPlaylist id part = _
    unfold lookupPlaylist lookupCurrentPart
    repeat' split
    all_goals first
      | exact Or.inl rfl
      | exact Or.inr ⟨_, rfl⟩

/-- A part is read at once exactly if it is there and closed. -/
theorem lookup_part_served_iff {s f : Nat}
    (hin : r.lookup (.part s f) ≠ .found (.error .durationOverflow)) :
    (∃ bytes, r.lookup (.part s f) = .found (.ok (.media bytes))) ↔
      ∃ t p, r.segment? s = some t ∧ t.part? f = some p ∧ p.isClosed = true := by
  have h := r.lookup_part s f
  generalize r.lookup (.part s f) = l at h hin
  cases h with
  | dropped hs => simp [segmentMissing, hs]
  | absent hs hp _ => simp [hs, hp]
  | awaited hs hopen _ =>
    refine iff_of_false nofun ?_
    rintro ⟨t, p, ht, hp, hc⟩
    obtain rfl := Option.some.inj (hs.symm.trans ht)
    rw [hopen p hp] at hc
    cases hc
  | @served t p hs hp hc =>
    exact iff_of_true (r.media_served hin) ⟨t, p, hs, hp, hc⟩

theorem lookup_segment_served_iff {s : Nat}
    (hin : r.lookup (.segment s) ≠ .found (.error .durationOverflow)) :
    (∃ bytes, r.lookup (.segment s) = .found (.ok (.media bytes))) ↔
      ∃ t, r.segment? s = some t ∧ t.isClosed = true := by
  have h := r.lookup_segment s
  generalize r.lookup (.segment s) = l at h hin
  cases h with
  | dropped hs => simp [segmentMissing, hs]
  | awaited hs hopen => simp [hs, hopen]
  | @served t hs hc =>
    exact iff_of_true (r.media_served hin) ⟨t, hs, hc⟩

theorem lookup_part_notFound_iff {s f : Nat} :
    (∃ kind name, r.lookup (.part s f) = .found (.error (.error (.notFound kind name)))) ↔
      r.segment? s = none ∨
        ∃ t, r.segment? s = some t ∧ t.part? f = none ∧ t.isClosed = true := by
  have h := r.lookup_part s f
  generalize r.lookup (.part s f) = l at h
  cases h with
  | dropped hs => simp [segmentMissing, hs]
  | absent hs hp hc => simp [hs, hp, hc]
  | served hs hp _ => simp [hs, hp, media_ne_notFound]
  | awaited hs _ hopen => simpa [hs] using hopen

theorem lookup_segment_notFound_iff {s : Nat} :
    (∃ kind name, r.lookup (.segment s) = .found (.error (.error (.notFound kind name)))) ↔
      r.segment? s = none := by
  have h := r.lookup_segment s
  generalize r.lookup (.segment s) = l at h
  cases h with
  | dropped hs => simp [segmentMissing, hs]
  | served hs _ => simp [hs, media_ne_notFound]
  | awaited hs _ => simp [hs]

theorem Coherent.segment?_eq_none_iff (hr : r.Coherent) {s : Nat} :
    r.segment? s = none ↔ s ∉ r.liveIds := by
  rw [← hr.isSome_segment?_iff, Option.not_isSome_iff_eq_none]

/-- What the hint names is waited for, unless the rendition has been taken down or there is no time
to wait. -/
theorem Coherent.start_hinted (hr : r.Coherent) (hopen : r.closed = false) {now : Clock}
    {deadline : Deadline} (htime : deadline.hasPassed now = false) (name : String) :
    let hinted : Read := .part r.current.id r.current.current.id
    Reader.start r now name hinted deadline false =
      .waiting ⟨name, hinted, .part r.current.id r.current.current.id, deadline, false⟩ := by
  intro hinted
  have hat : awaitedAt r.current.id r.current.current.id hinted =
      some (.part r.current.id r.current.current.id) := if_pos ⟨rfl, Nat.le_refl _⟩
  simp only [Reader.start, hr.lookup_of_awaitedAt hat, Reader.wait, hopen, htime,
    Bool.false_eq_true, if_false]

end Listings

/-! ## What is listed -/

/-- A rendition whose playlist lists what can be read from it, and nothing else. -/
structure Advertises (r : Rendition) : Prop where
  manifest_eq : r.manifest =
    Playlist.header r.options.segmentDuration r.options.partTarget r.mediaSequence ++
      r.live.flatMap Segment.listing ++ [.preloadHint r.current.id r.current.current.id]
  segments_ascend : r.liveIds.Pairwise (· < ·)
  parts_in_order : ∀ s ∈ r.live, s.parts.map (·.id) = List.range s.parts.length
  hinted_open : r.current.current.isClosed = false
  /-- There is one hint in the text. -/
  hintUris_eq : hintUris (Playlist.text r.manifest) = [partUri r.current.id r.current.current.id]
  /-- A part is read at once exactly if its URI is listed. -/
  part_served_iff : ∀ s f, r.lookup (.part s f) ≠ .found (.error .durationOverflow) →
    ((∃ bytes, r.lookup (.part s f) = .found (.ok (.media bytes))) ↔
      partUri s f ∈ partUris (Playlist.text r.manifest))
  /-- A segment is read at once exactly if its URI is listed. -/
  segment_served_iff : ∀ s, r.lookup (.segment s) ≠ .found (.error .durationOverflow) →
    ((∃ bytes, r.lookup (.segment s) = .found (.ok (.media bytes))) ↔
      segmentUri s ∈ segmentUris (Playlist.text r.manifest))
  /-- A reader of the hinted part waits for it, given time. -/
  hinted_waits : ∀ now name (deadline : Deadline), deadline.hasPassed now = false →
    let hinted : Read := .part r.current.id r.current.current.id
    Reader.start r now name hinted deadline false =
      .waiting ⟨name, hinted, .part r.current.id r.current.current.id, deadline, false⟩
  part_notFound_iff : ∀ s f,
    (∃ kind name, r.lookup (.part s f) = .found (.error (.error (.notFound kind name)))) ↔
      s ∉ r.liveIds ∨
        ∃ t ∈ r.live, t.id = s ∧ t.isClosed = true ∧ ∀ p ∈ t.parts, p.id ≠ f
  segment_notFound_iff : ∀ s,
    (∃ kind name, r.lookup (.segment s) = .found (.error (.error (.notFound kind name)))) ↔
      s ∉ r.liveIds

/-- **The playlist of an open rendition lists exactly what can be read** from it at once, and its
hint is waited for. -/
theorem advertises_of_reachable {format : SourceFormat} {options : Options} {r : Rendition}
    (h : Reachable format options r) (hopen : r.closed = false) : r.Advertises := by
  have hr := h.coherent
  exact {
    manifest_eq := hr.manifest_eq_listings
    segments_ascend := by
      rw [hr.liveIds_eq]
      exact List.pairwise_lt_range'
    parts_in_order := fun s hs => (hr.segment_coherent s hs).part_ids
    hinted_open := hr.current_coherent.current_closed.trans hr.current_open
    hintUris_eq := hr.hintUris_manifest
    part_served_iff := fun s f hin => (lookup_part_served_iff hin).trans hr.partUri_mem_iff.symm
    segment_served_iff := fun s hin =>
      (lookup_segment_served_iff hin).trans hr.segmentUri_mem_iff.symm
    hinted_waits := fun _ name _ htime => hr.start_hinted hopen htime name
    part_notFound_iff := fun s f => by
      rw [lookup_part_notFound_iff, hr.segment?_eq_none_iff]
      refine or_congr Iff.rfl (exists_congr fun t => ?_)
      rw [hr.segment?_eq_some_iff, and_assoc]
      refine and_congr_right fun ht => and_congr_right fun _ => ?_
      rw [(hr.segment_coherent t ht).part?_eq_none_iff, and_comm]
    segment_notFound_iff := fun s => lookup_segment_notFound_iff.trans hr.segment?_eq_none_iff }

/-- After five frames the first part of the third segment is listed and read at once. -/
theorem advertises_after_fiveFrames : ∃ r, Reachable camera shortest r ∧ r.closed = false ∧
    r.Advertises ∧ partUri 2 0 ∈ partUris (Playlist.text r.manifest) := by
  obtain ⟨r₀, r, h₀, h, hopen, bytes, hserved⟩ : ∃ r₀ r, new? camera shortest ⟨0, 0⟩ = .ok r₀ ∧
      r₀.writeAll? fiveFrames = some r ∧ r.closed = false ∧
        ∃ bytes, r.lookup (.part 2 0) = .found (.ok (.media bytes)) :=
    ⟨_, _, rfl, rfl, rfl, _, rfl⟩
  have hr : Reachable camera shortest r := ⟨_, _, h₀, later_of_writeAll? h⟩
  have hadvertises := advertises_of_reachable hr hopen
  exact ⟨r, hr, hopen, hadvertises,
    (hadvertises.part_served_iff 2 0 (by rw [hserved]; nofun)).1 ⟨bytes, hserved⟩⟩

end Rendition

end LiveHls
