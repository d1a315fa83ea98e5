import LiveHls.Proofs.Mp4.RoundTrip

/-!
# The media in a fragment

* `MediaTrack`, `readMedia?` : what a player has of a file, the samples of each track with their
  bytes;
* `Muxer.readMedia?_fragment` : a fragment has the media of the packets that it is made of;
* `Muxer.joined_media` : the media of packets are those of their pieces, one after the other;
* `Muxer.perm_media` : no packet is missing in them.
-/

namespace LiveHls.Mp4

/-! ## What a player gets -/

/-- A sample with its bytes, its duration in ticks. -/
structure MediaSample where
  duration : Nat
  size : Nat
  isSync : Bool
  payload : Bytes
deriving DecidableEq

/-- What a file has of one track. -/
structure MediaTrack where
  track : UInt32
  /-- The decode time of the first sample in ticks. -/
  decodeTime : UInt64
  samples : List MediaSample
deriving DecidableEq

def Sample.withPayload (s : Sample) (payload : Bytes) : MediaSample :=
  ⟨s.duration.toNat, s.size.toNat, s.isSync, payload⟩

def ReadRun.media (r : ReadRun) (file : Bytes) (moofStart : Nat) : MediaTrack where
  track := r.track
  decodeTime := r.decodeTime
  samples := List.zipWith Sample.withPayload r.samples (cut file (r.start moofStart) r.sizes)

/-- The media of a file, as the runs have them that a reader finds. -/
def readMedia? (firstWins : Bool) (file : Bytes) : Option (List MediaTrack) :=
  (readFragment? firstWins file).map fun f => f.runs.map (·.media file f.moofStart)

/-- The samples of a track, none if it is missing. -/
def samplesOf (track : UInt32) (media : List MediaTrack) : List MediaSample :=
  ((media.find? (·.track == track)).map (·.samples)).getD []

def decodeTimeOf? (track : UInt32) (media : List MediaTrack) : Option UInt64 :=
  (media.find? (·.track == track)).map (·.decodeTime)

/-- The media of a file are those of other files, one after the other. -/
structure Joined (whole : List MediaTrack) (pieces : List (List MediaTrack)) : Prop where
  /-- No file has a track twice. -/
  nodup : ∀ media ∈ whole :: pieces, (media.map (·.track)).Nodup
  samples_eq : ∀ track, samplesOf track whole = pieces.flatMap (samplesOf track)
  present_iff : ∀ track, track ∈ whole.map (·.track) ↔ ∃ p ∈ pieces, track ∈ p.map (·.track)
  /-- A track starts where it starts in the first piece that has it. -/
  decodeTime_eq : ∀ track, decodeTimeOf? track whole = pieces.findSome? (decodeTimeOf? track)

/-! ## Packets as media -/

/-- A packet as a sample of a track that counts in `timescale`. -/
def MediaSample.ofPacket (timescale : UInt32) (p : Packet) : MediaSample where
  duration := min (p.duration.ticks timescale).toNat 0xFFFFFFFF
  size := p.payload.length
  isSync := p.isKeyframe
  payload := p.payload

def Stream.media (s : Stream) : MediaTrack where
  track := s.track
  decodeTime := (s.packets.head?.map (·.timestamp.ticks s.timescale)).getD 0
  samples := s.packets.map (.ofPacket s.timescale)

/-- A run can count at least as many packets as it has bytes, so it counts all that are not empty. -/
theorem Stream.IsRead.length_le {s : Stream} {file : Bytes} {moofStart : Nat} {x : SegmentIndex}
    {r : ReadRun} (h : s.IsRead file moofStart x r) (hne : ∀ p ∈ s.packets, p.payload ≠ []) :
    s.packets.length ≤ TrackRun.maxCount := by
  have hsum : s.packets.length ≤ (s.packets.map (·.payload.length)).sum := by
    rw [← List.length_map (f := fun p : Packet => p.payload.length)]
    refine List.length_le_sum_of_one_le _ fun n hn => ?_
    obtain ⟨p, hp, rfl⟩ := List.mem_map.1 hn
    exact List.length_pos_iff.2 (hne p hp)
  rw [← h.size_eq] at hsum
  exact Nat.le_trans hsum (Nat.le_of_lt_succ x.size.toNat_lt)

/-- A run that is read as a stream has its media, if no packet is empty. -/
theorem Stream.IsRead.media_eq {s : Stream} {file : Bytes} {moofStart : Nat} {x : SegmentIndex}
    {r : ReadRun} (h : s.IsRead file moofStart x r) (hne : ∀ p ∈ s.packets, p.payload ≠ []) :
    r.media file moofStart = s.media := by
  have hcount := h.length_le hne
  have hsamples := h.samples_eq
  have hpayloads := h.payloads_eq
  rw [List.take_of_length_le hcount] at hsamples hpayloads
  have hzip : List.zipWith Sample.withPayload r.samples (cut file (r.start moofStart) r.sizes) =
      s.packets.map (.ofPacket s.timescale) := by
    have hpair : ∀ payloads : List Bytes, List.zipWith Sample.withPayload r.samples payloads =
        List.zipWith (fun a (payload : Bytes) => MediaSample.mk a.1 a.2.1 a.2.2 payload)
          (r.samples.map fun a => (a.duration.toNat, a.size.toNat, a.isSync)) payloads :=
      fun payloads => by
        rw [List.zipWith_map_left]
        rfl
    rw [hpair, hsamples, hpayloads, List.zipWith_map, List.zipWith_self]
    rfl
  have htime : r.decodeTime = (s.packets.head?.map (·.timestamp.ticks s.timescale)).getD 0 := by
    rw [h.decodeTime_eq, Option.getD_some]
  unfold ReadRun.media Stream.media
  rw [hzip, htime, h.track_eq]

namespace Muxer
variable {m₀ m : Muxer} {format : SourceFormat}

/-! ## Media of a fragment -/

/-- What a player is to have of the packets. -/
def media (m₀ : Muxer) (packets : List Packet) : List MediaTrack :=
  (m₀.streams packets).map Stream.media

theorem mem_streams {packets : List Packet} {s : Stream} : s ∈ m₀.streams packets ↔
    ∃ v t, m₀.trackOf v = some t ∧ packets.filter (·.isVideo == v) ≠ [] ∧
      s = ⟨t.layout.id, t.layout.timescale, packets.filter (·.isVideo == v)⟩ := by
  have hof : ∀ v, s ∈ m₀.streamOf packets v ↔ ∃ t, m₀.trackOf v = some t ∧
      s = ⟨t.layout.id, t.layout.timescale, packets.filter (·.isVideo == v)⟩ := by
    intro v
    unfold streamOf
    simp only [List.mem_map, Option.mem_toList, eq_comm]
  simp only [streams, List.mem_filter, List.mem_append, hof, Bool.not_eq_true',
    List.isEmpty_eq_false_iff]
  constructor
  · rintro ⟨⟨t, ht, rfl⟩ | ⟨t, ht, rfl⟩, hne⟩
    · exact ⟨true, t, ht, hne, rfl⟩
    · exact ⟨false, t, ht, hne, rfl⟩
  · rintro ⟨v, t, ht, hne, rfl⟩
    cases v with
    | true => exact ⟨Or.inl ⟨t, ht, rfl⟩, hne⟩
    | false => exact ⟨Or.inr ⟨t, ht, rfl⟩, hne⟩

/-- **A fragment has the media of its packets**, if no packet is empty. -/
theorem readMedia?_fragment {packets : List Packet} (h : m₀.Collected m packets)
    (hne : ∀ p ∈ packets, p.payload ≠ []) (sequence : UInt32) (firstWins : Bool)
    (hsmall : (m.fragment sequence).length < 2 ^ 31) :
    readMedia? firstWins (m.fragment sequence) = some (m₀.media packets) := by
  obtain ⟨f, hf, hof⟩ := exists_readFragment? h.coherent firstWins hsmall
  rw [h.streams_eq] at hof
  have hruns : f.runs.map (·.media (m.fragment sequence) f.moofStart) = m₀.media packets := by
    refine List.ext_getElem? fun i => ?_
    rw [media, List.getElem?_map, List.getElem?_map]
    cases hs : (m₀.streams packets)[i]? with
    | none =>
      rw [List.getElem?_eq_none_iff, ← hof.runs_length, ← List.getElem?_eq_none_iff] at hs
      rw [hs]
      rfl
    | some s =>
      obtain ⟨x, r, -, hr, hread⟩ := hof.stream_read i s hs
      have hpackets : ∀ p ∈ s.packets, p.payload ≠ [] := by
        obtain ⟨v, t, -, -, rfl⟩ := mem_streams.1 (List.mem_of_getElem? hs)
        exact fun p hp => hne p (List.mem_of_mem_filter hp)
      rw [hr, Option.map_some, Option.map_some, hread.media_eq hpackets]
  rw [readMedia?, hf, Option.map_some, hruns]

/-! ## Tracks of the media -/

/-- The track of a source that carries the packets of one medium. -/
theorem track_cases (h₀ : ofFormat? format = .ok m₀) {v : Bool} {t : Track}
    (ht : m₀.trackOf v = some t) : t.layout.id = if v then 1 else audioId format := by
  obtain ⟨hvideo, haudio⟩ := ofFormat?_eq_ok h₀
  cases v with
  | true =>
    obtain ⟨f, l, -, hl, rfl⟩ := exists_of_isTrackOf hvideo ht
    obtain ⟨box, -, rfl⟩ := TrackLayout.video?_eq_ok hl
    rfl
  | false =>
    obtain ⟨f, l, -, hl, rfl⟩ := exists_of_isTrackOf haudio ht
    obtain ⟨box, -, rfl⟩ := TrackLayout.audio?_eq_ok hl
    rfl

/-- Different media have tracks of different numbers. -/
theorem eq_of_id_eq (h₀ : ofFormat? format = .ok m₀) {v w : Bool} {t u : Track}
    (ht : m₀.trackOf v = some t) (hu : m₀.trackOf w = some u)
    (hid : t.layout.id = u.layout.id) : v = w := by
  have hboth : ∀ {a b : Track}, m₀.trackOf true = some a → m₀.trackOf false = some b →
      a.layout.id ≠ b.layout.id := by
    intro a b ha hb
    have hvideo : format.video.isSome = true := by
      rw [← hasVideo_of_ofFormat? h₀]
      exact Option.isSome_of_eq_some ha
    rw [track_cases h₀ ha, track_cases h₀ hb, audioId, hvideo]
    decide
  cases v <;> cases w
  · rfl
  · exact absurd hid.symm (hboth hu ht)
  · exact absurd hid (hboth ht hu)
  · rfl

/-- **The media of a track.** A track number belongs to one medium or to none, whatever the packets
are. -/
theorem find?_media (h₀ : ofFormat? format = .ok m₀) (track : UInt32) :
    (∀ packets, (m₀.media packets).find? (·.track == track) = none) ∨
    ∃ v timescale, ∀ packets, (m₀.media packets).find? (·.track == track) =
      if packets.filter (·.isVideo == v) = [] then none
      else some (Stream.media ⟨track, timescale, packets.filter (·.isVideo == v)⟩) := by
  by_cases h : ∃ v t, m₀.trackOf v = some t ∧ t.layout.id = track
  · obtain ⟨v, t, ht, rfl⟩ := h
    refine Or.inr ⟨v, t.layout.timescale, fun packets => ?_⟩
    have hunique : ∀ s ∈ m₀.streams packets, s.track = t.layout.id →
        packets.filter (·.isVideo == v) ≠ [] ∧
          s = ⟨t.layout.id, t.layout.timescale, packets.filter (·.isVideo == v)⟩ := by
      intro s hs hid
      obtain ⟨w, u, hu, hne, rfl⟩ := mem_streams.1 hs
      obtain rfl := eq_of_id_eq h₀ hu ht hid
      rw [hu] at ht
      cases ht
      exact ⟨hne, rfl⟩
    rw [media, List.find?_map]
    cases hs : (m₀.streams packets).find? ((·.track == t.layout.id) ∘ Stream.media) with
    | none =>
      rw [List.find?_eq_none] at hs
      split
      · rfl
      · rename_i hne
        exact absurd (beq_iff_eq.2 rfl) (hs _ (mem_streams.2 ⟨v, t, ht, hne, rfl⟩))
    | some s =>
      have hid := List.find?_some hs
      rw [Function.comp_apply, beq_iff_eq] at hid
      obtain ⟨hne, rfl⟩ := hunique s (List.mem_of_find?_eq_some hs) hid
      rw [if_neg hne, Option.map_some]
  · refine Or.inl fun packets => List.find?_eq_none.2 fun x hx hid => h ?_
    obtain ⟨s, hs, rfl⟩ := List.mem_map.1 hx
    obtain ⟨v, t, ht, -, rfl⟩ := mem_streams.1 hs
    exact ⟨v, t, ht, beq_iff_eq.1 hid⟩

/-- A track has the samples of the packets of its medium. -/
theorem samplesOf_media (h₀ : ofFormat? format = .ok m₀) (track : UInt32) :
    (∀ packets, samplesOf track (m₀.media packets) = []) ∨
    ∃ v timescale, ∀ packets, samplesOf track (m₀.media packets) =
      (packets.filter (·.isVideo == v)).map (.ofPacket timescale) := by
  unfold samplesOf
  refine (find?_media h₀ track).imp (fun hnone packets => ?_) ?_
  · rw [hnone]
    rfl
  · rintro ⟨v, timescale, hsome⟩
    refine ⟨v, timescale, fun packets => ?_⟩
    rw [hsome]
    split
    · rename_i hnil
      rw [hnil]
      rfl
    · rfl

/-- A track starts with the first packet of its medium. -/
theorem decodeTimeOf?_media (h₀ : ofFormat? format = .ok m₀) (track : UInt32) :
    (∀ packets, decodeTimeOf? track (m₀.media packets) = none) ∨
    ∃ v timescale, ∀ packets, decodeTimeOf? track (m₀.media packets) =
      (packets.find? (·.isVideo == v)).map (·.timestamp.ticks timescale) := by
  unfold decodeTimeOf?
  refine (find?_media h₀ track).imp (fun hnone packets => ?_) ?_
  · rw [hnone]
    rfl
  · rintro ⟨v, timescale, hsome⟩
    refine ⟨v, timescale, fun packets => ?_⟩
    rw [hsome, ← List.head?_filter]
    cases packets.filter (·.isVideo == v) with
    | nil => rfl
    | cons p rest => rfl

theorem mem_track_media {packets : List Packet} {track : UInt32} :
    track ∈ (m₀.media packets).map (·.track) ↔
      ∃ v t, m₀.trackOf v = some t ∧ t.layout.id = track ∧ ∃ p ∈ packets, p.isVideo = v := by
  simp only [media, List.map_map, List.mem_map, mem_streams, Function.comp_apply, ne_eq,
    List.filter_eq_nil_iff, not_forall, not_not, beq_iff_eq]
  constructor
  · rintro ⟨_, ⟨v, t, ht, ⟨p, hp, hv⟩, rfl⟩, hid⟩
    exact ⟨v, t, ht, hid, p, hp, hv⟩
  · rintro ⟨v, t, ht, hid, p, hp, hv⟩
    exact ⟨_, ⟨v, t, ht, ⟨p, hp, hv⟩, rfl⟩, hid⟩

theorem nodup_media (h₀ : ofFormat? format = .ok m₀) (packets : List Packet) :
    ((m₀.media packets).map (·.track)).Nodup := by
  have htracks : ((m₀.streamOf packets true ++ m₀.streamOf packets false).map
      (·.track)).Nodup := by
    unfold streamOf
    cases hvideo : m₀.trackOf true with
    | none => cases m₀.trackOf false <;> simp
    | some t =>
      cases haudio : m₀.trackOf false with
      | none => simp
      | some u =>
        have hne : t.layout.id ≠ u.layout.id := fun hid =>
          Bool.noConfusion (eq_of_id_eq h₀ hvideo haudio hid)
        simpa using hne
  rw [media, List.map_map]
  exact htracks.sublist ((List.filter_sublist).map _)

/-- **The media of packets are those of their pieces**, one after the other. -/
theorem joined_media (h₀ : ofFormat? format = .ok m₀) (pieces : List (List Packet)) :
    Joined (m₀.media pieces.flatten) (pieces.map m₀.media) where
  nodup := by
    intro x hx
    rcases List.mem_cons.1 hx with rfl | hx
    · exact nodup_media h₀ _
    · obtain ⟨packets, -, rfl⟩ := List.mem_map.1 hx
      exact nodup_media h₀ packets
  samples_eq track := by
    rw [List.flatMap_map]
    rcases samplesOf_media h₀ track with hnone | ⟨v, timescale, hsome⟩
    · rw [hnone, List.flatMap_eq_nil_iff.2 fun p _ => hnone p]
    · simp only [hsome, List.filter_flatten, List.map_flatten, List.map_map, List.flatMap_def,
        Function.comp_def]
  present_iff track := by
    simp only [List.mem_map (f := m₀.media), exists_exists_and_eq_and, mem_track_media,
      List.mem_flatten]
    constructor
    · rintro ⟨v, t, ht, hid, p, ⟨piece, hpiece, hp⟩, hv⟩
      exact ⟨piece, hpiece, v, t, ht, hid, p, hp, hv⟩
    · rintro ⟨piece, hpiece, v, t, ht, hid, p, hp, hv⟩
      exact ⟨v, t, ht, hid, p, ⟨piece, hpiece, hp⟩, hv⟩
  decodeTime_eq track := by
    rw [List.findSome?_map]
    rcases decodeTimeOf?_media h₀ track with hnone | ⟨v, timescale, hsome⟩
    · rw [hnone]
      exact (List.findSome?_eq_none_iff.2 fun p _ => hnone p).symm
    · simp only [Function.comp_def, hsome, List.find?_flatten, List.map_findSome?]

/-- **No packet is missing** in the media of packets that have a track. -/
theorem perm_media {packets : List Packet} (hp : ∀ p ∈ packets, m₀.accepts p = true) :
    (((m₀.media packets).flatMap (·.samples)).map fun s => (s.isSync, s.payload)).Perm
      (packets.map fun p => (p.isKeyframe, p.payload)) := by
  have hof : ∀ v, (m₀.streamOf packets v).flatMap
      (fun s => s.packets.map fun p => (p.isKeyframe, p.payload)) =
        (packets.filter (·.isVideo == v)).map fun p => (p.isKeyframe, p.payload) := by
    intro v
    unfold streamOf
    cases ht : m₀.trackOf v with
    | some t => simp
    | none =>
      have hnil : packets.filter (·.isVideo == v) = [] := by
        rw [List.filter_eq_nil_iff]
        intro p hmem hv
        have haccepts := hp p hmem
        rw [accepts_eq, beq_iff_eq.1 hv, ht] at haccepts
        cases haccepts
      rw [hnil]
      rfl
  have hstreams : ((m₀.media packets).flatMap (·.samples)).map (fun s => (s.isSync, s.payload)) =
      (m₀.streamOf packets true ++ m₀.streamOf packets false).flatMap
        fun s => s.packets.map fun p => (p.isKeyframe, p.payload) := by
    -- the tracks without packets are left out, and have no samples
    rw [media, List.flatMap_map, List.map_flatMap, List.flatMap_def, List.flatMap_def,
      ← List.flatten_filter_not_isEmpty
        (L := (m₀.streamOf packets true ++ m₀.streamOf packets false).map _), List.filter_map]
    simp only [streams, Stream.media, List.map_map, Function.comp_def, List.isEmpty_map]
    rfl
  rw [hstreams, List.flatMap_append, hof, hof, ← List.map_append]
  refine List.Perm.map _ ?_
  have hfalse : packets.filter (·.isVideo == false) = packets.filter fun p => !p.isVideo == true :=
    List.filter_congr fun p _ => by cases p.isVideo <;> rfl
  rw [hfalse]
  exact List.filter_append_perm ..

end Muxer

end LiveHls.Mp4
