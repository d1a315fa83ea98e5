import LiveHls.Proofs.Mp4.Timing
import LiveHls.Proofs.Rendition.Placed
import LiveHls.Proofs.Rendition.SegmentMedia
import Mathlib.Data.List.Chain

/-!
# Times go on from part to part

Three conversions to ticks meet where parts meet: of each sample, of their sum in the index, and of
the time at which a part starts, which is also taken modulo an hour. Each rounds down by itself.

* `Contiguous`, `Contiguous.start_eq` : packets without gaps, and when a later one starts;
* `PlacedPart.packetsOf`, `Timeline.partsOf`, `flatMap_packetsOf` : the parts that have packets of
  one medium, with all packets of it;
* `Rendition.timing?`, `Rendition.exists_timing` : what the media of a part say about a track;
* `TimesContinue`, `times_continue` : how far the times of one part and those of the next ones can
  be apart.
-/

namespace LiveHls

open Mp4 (Timing readTiming?)

/-! ## Packets without gaps -/

/-- Each packet starts where the one before it ends. -/
def Contiguous (xs : List Packet) : Prop :=
  xs.IsChain fun x y => y.timestamp.nanos = x.timestamp.nanos + x.duration.nanos

theorem Contiguous.of_isInfix {xs ys : List Packet} (h : Contiguous ys) (hs : xs <:+: ys) :
    Contiguous xs :=
  List.IsChain.infix h hs

/-- A packet starts after the durations of all packets before it. -/
theorem Contiguous.start_eq {x y : Packet} {xs ys : List Packet}
    (h : Contiguous (x :: xs ++ y :: ys)) :
    y.timestamp.nanos = x.timestamp.nanos + ((x :: xs).map (·.duration.nanos)).sum := by
  induction xs generalizing x with
  | nil => exact (List.isChain_cons_cons.1 h).1
  | cons z xs ih =>
    obtain ⟨hz, hrest⟩ := List.isChain_cons_cons.1 h
    rw [ih hrest, hz, List.map_cons (l := z :: xs), List.sum_cons, Nat.add_assoc]

/-! ## Parts with packets of one medium -/

def PlacedPart.packetsOf (p : PlacedPart) (isVideo : Bool) : List Packet :=
  p.packets.filter (·.isVideo == isVideo)

/-- The nanoseconds of the packets that parts have of one medium. -/
def elapsedNanos (isVideo : Bool) (parts : List PlacedPart) : Nat :=
  ((parts.flatMap (·.packetsOf isVideo)).map (·.duration.nanos)).sum

/-- The parts that have packets of one medium. -/
def Timeline.partsOf (t : Timeline) (isVideo : Bool) : List PlacedPart :=
  t.placed.filter fun p => !(p.packetsOf isVideo).isEmpty

theorem flatMap_packetsOf (t : Timeline) (v : Bool) :
    (t.partsOf v).flatMap (·.packetsOf v) =
      t.blocks.flatten.flatten.filter (·.isVideo == v) := by
  have hmap : (t.partsOf v).map (·.packetsOf v) =
      (t.placed.map (·.packetsOf v)).filter (!·.isEmpty) := by
    rw [List.filter_map]
    rfl
  have hpackets : t.placed.map (·.packetsOf v) =
      t.blocks.flatten.map (·.filter (·.isVideo == v)) := by
    rw [← t.map_packets_placed, List.map_map]
    rfl
  rw [List.flatMap_def, hmap, List.flatten_filter_not_isEmpty, hpackets, List.filter_flatten]

/-! ## The times of a part -/

namespace Rendition

/-- What the media of a part say about the times of a track. -/
def timing? (r : Rendition) (p : PlacedPart) (track : UInt32) : Option Timing :=
  match collect r.layout (p.packets.map fold) with
  | .ok m => m.timing? (sequenceNumber p.segment p.id) track
  | .error _ => none

section Times
variable {format : SourceFormat} {r : Rendition} {p : PlacedPart} {v : Bool} {t : Mp4.Track}

theorem nanosOf_map_fold (v : Bool) (xs : List Packet) :
    Mp4.Muxer.nanosOf v (xs.map fold) = Mp4.Muxer.nanosOf v xs := by
  unfold Mp4.Muxer.nanosOf
  rw [List.filter_map, List.map_map]
  rfl

theorem fits_map_fold {layout : Mp4.Muxer} {xs : List Packet} :
    layout.Fits (xs.map fold) ↔ layout.Fits xs := by
  unfold Mp4.Muxer.Fits
  simp only [nanosOf_map_fold]

theorem accepts_map_fold {xs : List Packet} (h : ∀ x ∈ xs, r.layout.accepts x = true) :
    ∀ x ∈ xs.map fold, r.layout.accepts x = true := by
  intro x hx
  obtain ⟨y, hy, rfl⟩ := List.mem_map.1 hx
  exact h y hy

/-- A muxer that has collected the packets of a part has those of one medium in their track. -/
theorem exists_track_of_collect (h₀ : Mp4.Muxer.ofFormat? format = .ok r.layout)
    (haccepts : ∀ x ∈ p.packets, r.layout.accepts x = true)
    (ht : r.layout.trackOf v = some t) {m : Mp4.Muxer}
    (hm : collect r.layout (p.packets.map fold) = .ok m) :
    r.layout.Collected m (p.packets.map fold) ∧ ∃ u, m.trackOf v = some u ∧
      u.layout = t.layout ∧ u.packets = (p.packetsOf v).map fold := by
  have hcollected := (Mp4.Muxer.collected_of_ofFormat? h₀).afterAll (collect_eq_ok_iff.1 hm)
  rw [Mp4.Muxer.pending_writes (accepts_map_fold haccepts), List.nil_append] at hcollected
  obtain ⟨u, hu⟩ := Option.isSome_iff_exists.1
    ((hcollected.isSome_eq v).trans (Option.isSome_of_eq_some ht))
  have htrack := hcollected.collected v t u ht hu
  refine ⟨hcollected, u, hu, htrack.layout_eq, ?_⟩
  rw [htrack.packets_eq, List.filter_map]
  rfl

/-- What is left of a time after whole hours, in ticks. -/
def startTicks (x : Packet) (timescale : UInt32) : Nat :=
  ticksIn x.timestamp.nanos timescale.toNat % (3600 * timescale.toNat)

/-- The media of a part start with the time of its first packet, after whole hours, and have the
durations of its packets; the index has at most a tick more for each of them but the first. -/
theorem exists_timing (h₀ : Mp4.Muxer.ofFormat? format = .ok r.layout)
    (haccepts : ∀ x ∈ p.packets, r.layout.accepts x = true) (hfits : r.layout.Fits p.packets)
    (ht : r.layout.trackOf v = some t) {x : Packet} {xs : List Packet}
    (hx : p.packetsOf v = x :: xs)
    (hticks : ((p.packetsOf v).map fun x => (x.duration.ticks t.layout.timescale).toNat).sum <
      UInt32.size) :
    ∃ a, r.timing? p t.layout.id = some a ∧
      a.decodeTime = startTicks x t.layout.timescale ∧
      a.durations = ((p.packetsOf v).map (·.duration.nanos)).map
        (ticksIn · t.layout.timescale.toNat) ∧
      ∃ e ≤ (p.packetsOf v).length - 1, a.indexDuration = a.durations.sum + e := by
  obtain ⟨m, hm⟩ :=
    (collect_isOk_iff h₀ (accepts_map_fold haccepts)).2 (fits_map_fold.2 hfits)
  obtain ⟨hcollected, u, hu, hlayout, hpackets⟩ := exists_track_of_collect h₀ haccepts ht hm
  have hne : u.packets ≠ [] := by
    rw [hpackets, hx]
    nofun
  have hticks' : (u.packets.map fun x => (x.duration.ticks u.layout.timescale).toNat).sum <
      UInt32.size := by
    rw [hpackets, hlayout, List.map_map]
    exact hticks
  have hcoherent := hcollected.coherent u (Mp4.Muxer.mem_activeTracks.2 ⟨⟨v, hu⟩, hne⟩)
  refine ⟨u.timing, ?_, ?_, ?_, ?_⟩
  · rw [timing?, hm, ← hlayout]
    exact hcollected.timing?_eq h₀ hu hne _
  · show u.decodeTime.toNat = _
    rw [Mp4.Track.decodeTime, hpackets, hx, hlayout]
    exact x.timestamp.toNat_ticks_modulo rfl (by decide) (by decide) _
  · rw [u.durations_eq hticks', hpackets, hlayout]
    simp only [List.map_map]
    rfl
  · have hindex := hcoherent.exists_index_eq hne hticks'
    rwa [hpackets, List.length_map] at hindex

/-- A reader finds these times in the media of a part. -/
theorem readTiming?_of_mediaOf (h₀ : Mp4.Muxer.ofFormat? format = .ok r.layout)
    (hp : ∀ x ∈ p.packets, r.layout.accepts x = true ∧ x.payload ≠ [])
    (ht : r.layout.trackOf v = some t) (hne : p.packetsOf v ≠ []) {bytes : Bytes}
    (hbytes : r.mediaOf p = .ok (.media bytes)) (hsmall : bytes.length < 2 ^ 31)
    (firstWins : Bool) :
    readTiming? firstWins bytes t.layout.id = r.timing? p t.layout.id := by
  rw [mediaOf, media] at hbytes
  cases hm : collect r.layout (p.packets.map fold) with
  | error fault =>
    rw [hm] at hbytes
    cases hbytes
  | ok m =>
    rw [hm] at hbytes
    cases hbytes
    obtain ⟨hcollected, u, hu, hlayout, hpackets⟩ :=
      exists_track_of_collect h₀ (fun x hx => (hp x hx).1) ht hm
    rw [timing?, hm, ← hlayout]
    refine hcollected.readTiming?_fragment h₀ hu ?_ ?_ _ firstWins hsmall
    · rw [hpackets]
      exact fun h => hne (List.map_eq_nil_iff.1 h)
    · rw [hpackets]
      intro x hx
      obtain ⟨y, hy, rfl⟩ := List.mem_map.1 hx
      exact (hp y (List.mem_of_mem_filter hy)).2

end Times

/-! ## From part to part -/

/-- How the media of the parts of a track, with `timescale` ticks a second, say that their times go
on. Times are taken modulo an hour. -/
structure TimesContinue (r : Rendition) (t : Mp4.Track) (isVideo : Bool)
    (parts : List PlacedPart) : Prop where
  /-- The index has at most a tick more than the samples for each of them but the first. -/
  index_eq : ∀ p ∈ parts, ∃ a, r.timing? p t.layout.id = some a ∧
    a.durations.length = (p.packetsOf isVideo).length ∧
    ∃ e ≤ (p.packetsOf isVideo).length - 1, a.indexDuration = a.durations.sum + e
  /-- The next part starts where the samples end, or up to a tick later for each of them. -/
  next_eq : ∀ p q, [p, q] <:+: parts → ∃ a b, r.timing? p t.layout.id = some a ∧
    r.timing? q t.layout.id = some b ∧ ∃ e ≤ (p.packetsOf isVideo).length,
      b.decodeTime = (a.decodeTime + a.durations.sum + e) % (3600 * t.layout.timescale.toNat)
  /-- Errors do not add up: any later part starts with the time that has passed, or a tick later. -/
  later_eq : ∀ p between q, p :: between ++ [q] <:+: parts → ∃ a b,
    r.timing? p t.layout.id = some a ∧ r.timing? q t.layout.id = some b ∧ ∃ e ≤ 1,
      b.decodeTime = (a.decodeTime +
        ticksIn (elapsedNanos isVideo (p :: between)) t.layout.timescale.toNat + e) %
          (3600 * t.layout.timescale.toNat)

theorem startTicks_later {x y : Packet} {timescale : UInt32} {nanos : Nat}
    (h : y.timestamp.nanos = x.timestamp.nanos + nanos) {ticks e : Nat}
    (hticks : ticksIn (x.timestamp.nanos + nanos) timescale.toNat =
      ticksIn x.timestamp.nanos timescale.toNat + ticks + e) :
    startTicks y timescale =
      (startTicks x timescale + ticks + e) % (3600 * timescale.toNat) := by
  rw [startTicks, startTicks, h, hticks, Nat.add_assoc, Nat.add_assoc, Nat.mod_add_mod]

section Parts
variable {format : SourceFormat} {r : Rendition} {timeline : Timeline} {v : Bool} {t : Mp4.Track}

/-- A later part starts after the packets of all parts before it. -/
theorem start_eq_of_parts {p q : PlacedPart} {between : List PlacedPart} {x y : Packet}
    {xs ys : List Packet}
    (hcontiguous : Contiguous (timeline.blocks.flatten.flatten.filter (·.isVideo == v)))
    (h : p :: between ++ [q] <:+: timeline.partsOf v) (hp : p.packetsOf v = x :: xs)
    (hq : q.packetsOf v = y :: ys) :
    y.timestamp.nanos = x.timestamp.nanos + elapsedNanos v (p :: between) := by
  obtain ⟨front, back, hparts⟩ := h
  have hinfix : x :: (xs ++ between.flatMap (·.packetsOf v)) ++ y :: ys <:+:
      timeline.blocks.flatten.flatten.filter (·.isVideo == v) := by
    refine ⟨front.flatMap (·.packetsOf v), back.flatMap (·.packetsOf v), ?_⟩
    rw [← flatMap_packetsOf, ← hparts]
    simp [hp, hq]
  rw [(hcontiguous.of_isInfix hinfix).start_eq, elapsedNanos, List.flatMap_cons, hp]
  rfl

/-- The times of packets without gaps go on from part to part. -/
theorem timesContinue_of_contiguous (h₀ : Mp4.Muxer.ofFormat? format = .ok r.layout)
    (ht : r.layout.trackOf v = some t)
    (haccepts : ∀ p ∈ timeline.placed, ∀ x ∈ p.packets, r.layout.accepts x = true)
    (hcontiguous : Contiguous (timeline.blocks.flatten.flatten.filter (·.isVideo == v)))
    (hfits : ∀ p ∈ timeline.partsOf v, r.layout.Fits p.packets)
    (hticks : ∀ p ∈ timeline.partsOf v,
      ((p.packetsOf v).map fun x => (x.duration.ticks t.layout.timescale).toNat).sum <
        UInt32.size) : r.TimesContinue t v (timeline.partsOf v) := by
  have hof : ∀ p ∈ timeline.partsOf v, ∃ x xs a, p.packetsOf v = x :: xs ∧
      r.timing? p t.layout.id = some a ∧ a.decodeTime = startTicks x t.layout.timescale ∧
      a.durations = ((p.packetsOf v).map (·.duration.nanos)).map
        (ticksIn · t.layout.timescale.toNat) ∧
      ∃ e ≤ (p.packetsOf v).length - 1, a.indexDuration = a.durations.sum + e := by
    intro p hp
    obtain ⟨hplaced, hne⟩ := List.mem_filter.1 hp
    obtain ⟨x, xs, hx⟩ := List.exists_cons_of_ne_nil (l := p.packetsOf v) (by simpa using hne)
    obtain ⟨a, ha⟩ := exists_timing h₀ (haccepts p hplaced) (hfits p hp) ht hx (hticks p hp)
    exact ⟨x, xs, a, hx, ha⟩
  refine ⟨fun p hp => ?_, fun p q hpq => ?_, fun p between q hpq => ?_⟩
  · obtain ⟨-, -, a, -, ha, -, hdurations, hindex⟩ := hof p hp
    exact ⟨a, ha, by rw [hdurations, List.length_map, List.length_map], hindex⟩
  · obtain ⟨x, xs, a, hx, ha, htime, hdurations, -⟩ := hof p (hpq.subset (by simp))
    obtain ⟨y, ys, b, hy, hb, htime', -⟩ := hof q (hpq.subset (by simp))
    have hstart := @start_eq_of_parts timeline v p q [] x y xs ys hcontiguous hpq hx hy
    rw [elapsedNanos, List.flatMap_singleton] at hstart
    obtain ⟨e, he, hsum⟩ := ticksIn_add_sum t.layout.timescale.toNat x.timestamp.nanos
      ((p.packetsOf v).map (·.duration.nanos))
    rw [List.length_map] at he
    refine ⟨a, b, ha, hb, e, he, ?_⟩
    rw [htime, htime', hdurations]
    exact startTicks_later hstart hsum
  · obtain ⟨x, xs, a, hx, ha, htime, -⟩ := hof p (hpq.subset (by simp))
    obtain ⟨y, ys, b, hy, hb, htime', -⟩ := hof q (hpq.subset (by simp))
    have hstart := start_eq_of_parts hcontiguous hpq hx hy
    obtain ⟨e, he, hsum⟩ := ticksIn_add t.layout.timescale.toNat x.timestamp.nanos
      (elapsedNanos v (p :: between))
    refine ⟨a, b, ha, hb, e, he, ?_⟩
    rw [htime, htime']
    exact startTicks_later hstart hsum

end Parts

/-- **Times go on from part to part**, in every run, for a track whose accepted packets have no gaps
and whose parts are below `2 ^ 32` ticks; and what is read of a part during the run is where a
reader finds these times. -/
theorem times_continue {format : SourceFormat} {options : Options} {now : Instant}
    {r₀ r : Rendition} {arrivals : List Arrival} (h₀ : new? format options now = .ok r₀)
    (h : r₀.writeAll? arrivals = some r) {v : Bool} {t : Mp4.Track}
    (ht : r₀.layout.trackOf v = some t)
    (hcontiguous : Contiguous ((r₀.accepted arrivals).filter (·.isVideo == v)))
    (hfits : ∀ p ∈ (timeline format.video.isSome options (r₀.accepted arrivals)).partsOf v,
      r₀.layout.Fits p.packets)
    (hticks : ∀ p ∈ (timeline format.video.isSome options (r₀.accepted arrivals)).partsOf v,
      ((p.packetsOf v).map fun x => (x.duration.ticks t.layout.timescale).toNat).sum <
        UInt32.size) :
    r₀.TimesContinue t v
        ((timeline format.video.isSome options (r₀.accepted arrivals)).partsOf v) ∧
      ∀ segment id bytes, r₀.ReadDuring arrivals segment id bytes →
        ∃ p ∈ (timeline format.video.isSome options (r₀.accepted arrivals)).placed,
          p.segment = segment ∧ p.id = id ∧ r₀.mediaOf p = .ok (.media bytes) ∧
          (p.packetsOf v ≠ [] → bytes.length < 2 ^ 31 → ∀ firstWins,
            readTiming? firstWins bytes t.layout.id = r₀.timing? p t.layout.id) := by
  obtain ⟨hl, -, -, -, -, -, -, hopen⟩ := new?_eq_ok h₀
  have hpackets : ∀ p ∈ (timeline format.video.isSome options (r₀.accepted arrivals)).placed,
      ∀ x ∈ p.packets, r₀.layout.accepts x = true ∧ x.payload ≠ [] := by
    intro p hp x hx
    have hmem : x ∈ r₀.accepted arrivals := by
      rw [← flatten_blocks_timeline format.video.isSome options (r₀.accepted arrivals),
        ← Timeline.map_packets_placed]
      exact List.mem_flatten_of_mem (List.mem_map_of_mem hp) hx
    obtain ⟨-, haccepted, -⟩ := shows_of_run h₀ h
    rw [haccepted] at hmem
    exact accepts_of_refusal?
      ((refusal?_eq_none_iff hl hopen).2 (List.mem_filter.1 hmem).2)
  refine ⟨timesContinue_of_contiguous hl ht (fun p hp x hx => (hpackets p hp x hx).1) ?_ hfits
    hticks, fun segment id bytes hread => ?_⟩
  · rwa [flatten_blocks_timeline]
  · obtain ⟨p, hp, hsegment, hid, hbytes⟩ := placed_of_readDuring h₀ hread
    exact ⟨p, hp, hsegment, hid, hbytes, fun hne hsmall firstWins =>
      readTiming?_of_mediaOf hl (hpackets p hp) ht hne hbytes hsmall firstWins⟩

/-! ### Sound around the hour -/

def radio : SourceFormat := ⟨"radio", none, some studioAudio⟩

/-- A frame of 1024 samples, rounded down to nanoseconds. -/
def soundAt (start : Duration) : Packet :=
  ⟨start, ⟨21333333, by decide⟩, [0], "radio", 0, .audio studioAudio⟩

/-- Sound without gaps that starts ten milliseconds before the hour is full. -/
def aroundTheHour : List Arrival :=
  [soundAt ⟨3599990000000, by decide⟩, soundAt ⟨3600011333333, by decide⟩,
    soundAt ⟨3600032666666, by decide⟩, soundAt ⟨3600053999999, by decide⟩,
    soundAt ⟨3600075333332, by decide⟩].map fun x => ⟨x, ⟨0, 0⟩⟩

/-- Each frame loses nearly a tick. Two of them make a part, and the next one, behind the hour,
starts a tick later than they end. -/
theorem times_continue_aroundTheHour :
    ∃ r₀ r t p q, new? radio shortest ⟨0, 0⟩ = .ok r₀ ∧ r₀.writeAll? aroundTheHour = some r ∧
      r₀.layout.trackOf false = some t ∧
      [p, q] <:+: (timeline false shortest (r₀.accepted aroundTheHour)).partsOf false ∧
      r₀.timing? p t.layout.id = some ⟨172799520, [1023, 1023], 2047⟩ ∧
      ∃ b, r₀.timing? q t.layout.id = some b ∧
        ∃ e ≤ 2, b.decodeTime = (172799520 + 2046 + e) % 172800000 := by
  obtain ⟨r₀, r, t, p, q, rest, h₀, h, ht, htimescale, hparts, htiming, hcount, hcontiguous, hfits,
      hticks⟩ : ∃ r₀ r t p q rest, new? radio shortest ⟨0, 0⟩ = .ok r₀ ∧
      r₀.writeAll? aroundTheHour = some r ∧ r₀.layout.trackOf false = some t ∧
      t.layout.timescale = 48000 ∧
      (timeline false shortest (r₀.accepted aroundTheHour)).partsOf false = p :: q :: rest ∧
      r₀.timing? p t.layout.id = some ⟨172799520, [1023, 1023], 2047⟩ ∧
      (p.packetsOf false).length = 2 ∧
      Contiguous ((r₀.accepted aroundTheHour).filter (·.isVideo == false)) ∧
      (∀ p ∈ (timeline false shortest (r₀.accepted aroundTheHour)).partsOf false,
        r₀.layout.Fits p.packets) ∧
      ∀ p ∈ (timeline false shortest (r₀.accepted aroundTheHour)).partsOf false,
        ((p.packetsOf false).map fun x => (x.duration.ticks t.layout.timescale).toNat).sum <
          UInt32.size :=
    ⟨_, _, _, _, _, _, rfl, rfl, rfl, rfl, rfl, by decide +kernel, rfl,
      by unfold Contiguous; decide +kernel, by unfold Mp4.Muxer.Fits; decide +kernel,
      by decide +kernel⟩
  have hnext : [p, q] <:+: (timeline false shortest (r₀.accepted aroundTheHour)).partsOf false :=
    ⟨[], rest, hparts.symm⟩
  obtain ⟨hcontinue, -⟩ := times_continue h₀ h ht hcontiguous hfits hticks
  obtain ⟨a, b, ha, hb, e, he, hstart⟩ := hcontinue.next_eq p q hnext
  rw [htiming] at ha
  cases ha
  rw [htimescale] at hstart
  exact ⟨r₀, r, t, p, q, h₀, h, ht, hnext, htiming, b, hb, e, hcount ▸ he, hstart⟩

end Rendition

end LiveHls
