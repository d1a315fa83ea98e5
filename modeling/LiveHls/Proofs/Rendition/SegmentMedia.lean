import LiveHls.Proofs.Mp4.Media
import LiveHls.Proofs.Rendition.Greedy
import LiveHls.Proofs.Rendition.Listing

/-!
# A segment has the media of its parts

* `Carries`, `Reachable.carries` : every packet that a rendition holds has a track and bytes;
* `collect_isOk_iff`, `media_eq_bytesOf` : packets are rendered exactly if the durations of each
  track have a sum in range; so where a segment is, its parts are;
* `readMedia?_bytesOf` : the media of the packets are read back, and no packet is left out;
* `segment_is_its_parts` : the media of a closed segment are those of its parts, one after the
  other.
-/

namespace LiveHls

open Mp4 (Joined readMedia?)

namespace Segment

theorem Written.packets_eq {s t : Segment} {x : Packet} {progress : Progress}
    (hw : s.Written x t progress) : t.packets = s.packets ++ [x] := by
  cases hw with
  | extended hq => simp [packets, parts, Segment.extend, hq.packets_eq]
  | finished hq => simp [packets, parts, finish, hq.packets_eq]
  | continued hq => simp [packets, parts, openNext, Part.new, hq.packets_eq]

theorem packets_sublist {s : Segment} {p : Part} (hp : p ∈ s.parts) :
    p.packets.Sublist s.packets := by
  rw [packets, List.flatMap_def]
  exact List.sublist_flatten_of_mem (List.mem_map_of_mem hp)

end Segment

namespace Rendition

/-! ## What a rendition holds -/

section Held
variable {r r' : Rendition} {x : Packet} {now : Instant} {result : Except Fault Unit}

/-- Every packet that is held has a track and bytes. -/
def Carries (r : Rendition) : Prop :=
  ∀ s ∈ r.live, ∀ x ∈ s.packets, r.layout.accepts x = true ∧ x.payload ≠ []

theorem accepts_of_refusal? (h : r.refusal? x = none) :
    r.layout.accepts x = true ∧ x.payload ≠ [] := by
  unfold refusal? refusalOf? at h
  split at h
  · cases h
  split at h
  · cases h
  rename_i hempty
  split at h
  · cases h
  rename_i haccepts
  refine ⟨by simpa using haccepts, fun hnil => hempty ?_⟩
  rw [Packet.isEmpty, hnil]
  rfl

theorem Written.carries (hw : r.Written x now r' result) (hr : r.Coherent) (h : r.Carries) :
    r'.Carries := by
  have haccepted : r' = r ∨ r.refusal? x = none := by
    cases hw with
    | refused => exact Or.inl rfl
    | extended ha => exact Or.inr ha
    | replaced ha => exact Or.inr ha
  rcases haccepted with rfl | ha
  · exact h
  intro s hs y hy
  rw [hw.frame.2.2.1]
  rcases hw.live_cases hr hs with hs | ⟨progress, hwritten⟩ | rfl
  · exact h s hs y hy
  · rw [hwritten.packets_eq] at hy
    rcases List.mem_append.1 hy with hy | hy
    · exact h r.current r.current_mem_live y hy
    · rw [List.mem_singleton.1 hy]
      exact accepts_of_refusal? ha
  · cases hy

/-- **Every packet that a rendition holds has a track and bytes.** -/
theorem Reachable.carries {format : SourceFormat} {options : Options}
    (h : Reachable format options r) : r.Carries := by
  obtain ⟨now, r₀, h₀, hlater⟩ := h
  induction hlater with
  | refl =>
    obtain ⟨-, -, -, hearlier, hcurrent, -⟩ := new?_eq_ok h₀
    intro s hs y hy
    rw [live, hearlier, hcurrent] at hs
    rw [List.mem_singleton.1 hs] at hy
    cases hy
  | tail hprev hstep ih =>
    cases hstep with
    | write x now hin =>
      have hr := (coherent_of_new? h₀).later hprev
      exact (hr.write x now hin).carries hr ih
    | close => exact ih

theorem Reachable.ofFormat?_eq {format : SourceFormat} {options : Options}
    (h : Reachable format options r) : Mp4.Muxer.ofFormat? format = .ok r.layout := by
  obtain ⟨now, r₀, h₀, hlater⟩ := h
  rw [((coherent_of_new? h₀).frame_later hlater).2.2]
  exact (new?_eq_ok h₀).1

end Held

/-! ## Rendering -/

section Rendering
variable {r : Rendition} {format : SourceFormat} {packets : List Packet} {sequence : UInt32}

theorem collect_eq_ok_iff {m m' : Mp4.Muxer} :
    collect m packets = .ok m' ↔ m.afterAll? (packets.map .write) = some m' := by
  induction packets generalizing m with
  | nil =>
    show Except.ok m = .ok m' ↔ some m = some m'
    rw [Except.ok.injEq, Option.some_inj]
  | cons x xs ih =>
    rw [collect, List.map_cons, Mp4.Muxer.afterAll?, Mp4.Muxer.after?]
    cases m.write x with
    | ok m₁ => exact ih
    | error fault =>
      cases fault with
      | error e => exact ih
      | durationOverflow => exact iff_of_false (fun h => by cases h) fun h => by cases h

/-- The bytes of rendered packets. -/
def bytesOf (r : Rendition) (packets : List Packet) (sequence : UInt32) : Bytes :=
  match collect r.layout packets with
  | .ok m => m.fragment sequence
  | .error _ => []

theorem collect_isOk_iff (h₀ : Mp4.Muxer.ofFormat? format = .ok r.layout)
    (hp : ∀ x ∈ packets, r.layout.accepts x = true) :
    (∃ m, collect r.layout packets = .ok m) ↔ r.layout.Fits packets := by
  have hfits := (Mp4.Muxer.collected_of_ofFormat? h₀).afterAll?_writes_isSome_iff hp
  rw [List.nil_append, Option.isSome_iff_exists] at hfits
  rw [← hfits]
  exact exists_congr fun m => collect_eq_ok_iff

/-- **Packets are rendered** if the durations of each track have a sum in range. -/
theorem media_eq_bytesOf (h₀ : Mp4.Muxer.ofFormat? format = .ok r.layout)
    (hp : ∀ x ∈ packets, r.layout.accepts x = true) (hfits : r.layout.Fits packets)
    (sequence : UInt32) : r.media packets sequence = .ok (.media (r.bytesOf packets sequence)) := by
  obtain ⟨m, hm⟩ := (collect_isOk_iff h₀ hp).2 hfits
  rw [media, bytesOf, hm]
  rfl

theorem fits_of_media_ne (h₀ : Mp4.Muxer.ofFormat? format = .ok r.layout)
    (hp : ∀ x ∈ packets, r.layout.accepts x = true)
    (hin : r.media packets sequence ≠ .error .durationOverflow) : r.layout.Fits packets := by
  refine (collect_isOk_iff h₀ hp).1 ((collect_cases r.layout packets).resolve_left fun ho => ?_)
  rw [media, ho] at hin
  exact hin rfl

/-- **The media of rendered packets** are read back. -/
theorem readMedia?_bytesOf (h₀ : Mp4.Muxer.ofFormat? format = .ok r.layout)
    (hp : ∀ x ∈ packets, r.layout.accepts x = true ∧ x.payload ≠ [])
    (hfits : r.layout.Fits packets) (firstWins : Bool)
    (hsmall : (r.bytesOf packets sequence).length < 2 ^ 31) :
    readMedia? firstWins (r.bytesOf packets sequence) = some (r.layout.media packets) := by
  have hcollected := Mp4.Muxer.collected_of_ofFormat? h₀
  have haccepts := fun x hx => (hp x hx).1
  obtain ⟨m, hm⟩ := Option.isSome_iff_exists.1
    ((hcollected.afterAll?_writes_isSome_iff haccepts).2 hfits)
  have hwaiting := hcollected.afterAll hm
  rw [Mp4.Muxer.pending_writes haccepts, List.nil_append] at hwaiting
  have hbytes : r.bytesOf packets sequence = m.fragment sequence := by
    rw [bytesOf, collect_eq_ok_iff.2 hm]
  rw [hbytes] at hsmall ⊢
  exact Mp4.Muxer.readMedia?_fragment hwaiting (fun x hx => (hp x hx).2) sequence firstWins hsmall

end Rendering

/-! ## A segment and its parts -/

/-- **A segment has the media of its parts.** A closed segment that can be read, and each of its
parts, is answered with a file. If these files are below two gigabytes, a player has of the segment,
in each track, the samples that it has of the parts, one after the other; the track starts where it
starts in the first part that has it; and no packet is missing. -/
theorem segment_is_its_parts {format : SourceFormat} {options : Options} {r : Rendition}
    (h : Reachable format options r) {s : Segment} (hs : s ∈ r.live) (hc : s.isClosed = true)
    (hin : r.lookup (.segment s.id) ≠ .found (.error .durationOverflow)) :
    ∃ whole pieces, r.lookup (.segment s.id) = .found (.ok (.media whole)) ∧
      pieces.length = s.parts.length ∧
      (∀ i bytes, pieces[i]? = some bytes →
        r.lookup (.part s.id i) = .found (.ok (.media bytes))) ∧
      ((∀ bytes ∈ whole :: pieces, bytes.length < 2 ^ 31) → ∀ firstWins, ∃ all each,
        readMedia? firstWins whole = some all ∧ pieces.mapM (readMedia? firstWins) = some each ∧
        Joined all each ∧
        ((all.flatMap (·.samples)).map fun a => (a.isSync, a.payload)).Perm
          (s.packets.map fun x => (x.isKeyframe, x.payload))) := by
  have hr := h.coherent
  have h₀ := h.ofFormat?_eq
  have hcarries := h.carries s hs
  have hsegment := hr.segment?_eq_some_iff.2 ⟨hs, rfl⟩
  have hlookup : r.lookup (.segment s.id) =
      .found (r.media s.packets (sequenceNumber s.id 0)) := by
    simp only [lookup, lookupSegment, segmentAnswer, hsegment, hc, if_true]
  have hfits : r.layout.Fits s.packets := by
    rw [hlookup] at hin
    exact fits_of_media_ne h₀ (fun x hx => (hcarries x hx).1) fun ho => hin (congrArg _ ho)
  -- what can be rendered together can be rendered in parts
  have hpartFits : ∀ p ∈ s.parts, r.layout.Fits p.packets :=
    fun p hp => hfits.sublist (Segment.packets_sublist hp)
  have hpartCarries : ∀ p ∈ s.parts, ∀ x ∈ p.packets,
      r.layout.accepts x = true ∧ x.payload ≠ [] :=
    fun p hp x hx => hcarries x ((Segment.packets_sublist hp).subset hx)
  refine ⟨r.bytesOf s.packets (sequenceNumber s.id 0),
    s.parts.zipIdx.map fun (p, i) => r.bytesOf p.packets (sequenceNumber s.id i), ?_, ?_, ?_, ?_⟩
  · rw [hlookup, media_eq_bytesOf h₀ (fun x hx => (hcarries x hx).1) hfits]
  · rw [List.length_map, List.length_zipIdx]
  · intro i bytes hi
    rw [List.getElem?_map, List.getElem?_zipIdx, Option.map_map, Option.map_eq_some_iff] at hi
    obtain ⟨p, hp, rfl⟩ := hi
    have hmem := List.mem_of_getElem? hp
    have hclosed := ((hr.segment_coherent s hs).part_closed_iff hp).2 (Or.inr hc)
    have hmedia := media_eq_bytesOf h₀ (fun x hx => (hpartCarries p hmem x hx).1)
      (hpartFits p hmem) (sequenceNumber s.id i)
    have hp : s.part? i = some p := hp
    simp only [lookup, lookupPart, partAnswer, hsegment, hp, hclosed, if_true, hmedia,
      Function.comp_apply, Nat.zero_add]
  · intro hsmall firstWins
    have hjoined := Mp4.Muxer.joined_media h₀ (s.parts.map (·.packets))
    refine ⟨r.layout.media s.packets, (s.parts.map (·.packets)).map r.layout.media, ?_, ?_, ?_, ?_⟩
    · exact readMedia?_bytesOf h₀ hcarries hfits firstWins (hsmall _ List.mem_cons_self)
    · have heach : (s.parts.map (·.packets)).map r.layout.media =
          s.parts.zipIdx.map fun a => r.layout.media a.1.packets := by
        conv_lhs => rw [← List.zipIdx_map_fst 0 s.parts]
        rw [List.map_map, List.map_map]
        rfl
      rw [heach]
      refine Mp4.mapM_map_eq_some fun a ha => ?_
      have hmem := List.fst_mem_of_mem_zipIdx ha
      exact readMedia?_bytesOf h₀ (hpartCarries a.1 hmem) (hpartFits a.1 hmem) firstWins
        (hsmall _ (List.mem_cons_of_mem _ (List.mem_map_of_mem ha)))
    · rw [Segment.packets, List.flatMap_def]
      exact hjoined
    · exact Mp4.Muxer.perm_media fun x hx => (hcarries x hx).1

/-- The first segment has a frame of video in one part, and sound and another frame in the next. -/
theorem segment_is_its_parts_of_soundAndPictures :
    ∃ r s, Reachable studio { shortest with segmentCount := 2 } r ∧ s ∈ r.live ∧
      s.isClosed = true ∧ s.parts.map (·.packets.length) = [1, 2] ∧
      ∃ whole first second all each, r.lookup (.segment 0) = .found (.ok (.media whole)) ∧
        r.lookup (.part 0 0) = .found (.ok (.media first)) ∧
        r.lookup (.part 0 1) = .found (.ok (.media second)) ∧
        readMedia? true whole = some all ∧
        [first, second].mapM (readMedia? true) = some each ∧ Joined all each := by
  obtain ⟨r₀, r, s, whole, first, second, h₀, h, hs, hid, hc, hlengths, hw, hf, hg, hsizes⟩ :
      ∃ r₀ r s whole first second,
        new? studio { shortest with segmentCount := 2 } ⟨0, 0⟩ = .ok r₀ ∧
        r₀.writeAll? soundAndPictures = some r ∧ r.live.head? = some s ∧ s.id = 0 ∧
        s.isClosed = true ∧ s.parts.map (·.packets.length) = [1, 2] ∧
        r.lookup (.segment 0) = .found (.ok (.media whole)) ∧
        r.lookup (.part 0 0) = .found (.ok (.media first)) ∧
        r.lookup (.part 0 1) = .found (.ok (.media second)) ∧
        ∀ bytes ∈ [whole, first, second], bytes.length < 2 ^ 31 :=
    ⟨_, _, _, _, _, _, rfl, rfl, rfl, rfl, rfl, rfl, rfl, rfl, rfl, by decide +kernel⟩
  have hr : Reachable studio { shortest with segmentCount := 2 } r :=
    ⟨_, _, h₀, later_of_writeAll? h⟩
  have hs := List.mem_of_mem_head? hs
  have hin : r.lookup (.segment s.id) ≠ .found (.error .durationOverflow) := by
    rw [hid, hw]
    nofun
  obtain ⟨whole', pieces, hwhole, hlength, hpieces, hread⟩ := segment_is_its_parts hr hs hc hin
  rw [← List.length_map (f := fun p : Part => p.packets.length), hlengths] at hlength
  obtain ⟨a, b, rfl⟩ := List.length_eq_two.1 hlength
  have ha := hpieces 0 a rfl
  have hb := hpieces 1 b rfl
  rw [hid] at hwhole ha hb
  rw [hw] at hwhole
  rw [hf] at ha
  rw [hg] at hb
  cases hwhole
  cases ha
  cases hb
  obtain ⟨all, each, hall, heach, hjoined, -⟩ := hread hsizes true
  exact ⟨r, s, hr, hs, hc, hlengths, whole, first, second, all, each, hw, hf, hg, hall, heach,
    hjoined⟩

end Rendition

end LiveHls
