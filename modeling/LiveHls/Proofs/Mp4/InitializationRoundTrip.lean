import LiveHls.Proofs.Mp4.Movies

/-!
# The round trip through an initialization segment

* `SourceFormat.IsUnsupported` : a source has a stream that cannot be carried;
* `Mp4.Muxer.ofFormat?_cases` : which sources have a muxer, and the boxes of its tracks;
* `Mp4.movieOutline`, `Mp4.describedTracks` : what is to be read of a source, the types of all boxes
  and the parameters of the tracks;
* `Mp4.Muxer.initialization_round_trip` : a reader finds these in the initialization segment.
-/

namespace LiveHls

open Mp4 (FourCC)

/-! ## Streams that can be carried -/

def VideoFormat.IsCarried (f : VideoFormat) : Prop := f.codec = .h264 ∨ f.codec = .h265

def AudioFormat.IsCarried (f : AudioFormat) : Prop := f.codec = .aac ∧ 0 < f.sampleRate.toNat

/-- The type of the sample entry of a stream that is carried. -/
def VideoFormat.entryType (f : VideoFormat) : FourCC :=
  if f.codec = .h264 then .ascii 'a' 'v' 'c' '1' else .ascii 'h' 'e' 'v' '1'

/-- The type of the box around its decoder configuration. -/
def VideoFormat.configType (f : VideoFormat) : FourCC :=
  if f.codec = .h264 then .ascii 'a' 'v' 'c' 'C' else .ascii 'h' 'v' 'c' 'C'

/-- A stream of the source cannot be carried. -/
def SourceFormat.IsUnsupported (format : SourceFormat) : Prop :=
  (∃ f, format.video = some f ∧ ¬f.IsCarried) ∨ ∃ f, format.audio = some f ∧ ¬f.IsCarried

theorem SourceFormat.isEmpty_iff (format : SourceFormat) :
    format.isEmpty = true ↔ format.video = none ∧ format.audio = none := by
  rw [isEmpty, Bool.and_eq_true, Option.isNone_iff_eq_none, Option.isNone_iff_eq_none]

theorem SourceFormat.IsUnsupported.isEmpty_eq_false {format : SourceFormat}
    (h : format.IsUnsupported) : format.isEmpty = false := by
  rw [← Bool.not_eq_true, isEmpty_iff]
  rintro ⟨hvideo, haudio⟩
  rcases h with ⟨f, hf, -⟩ | ⟨f, hf, -⟩
  · exact nomatch hvideo.symm.trans hf
  · exact nomatch haudio.symm.trans hf

namespace Mp4

/-! ## The movie of a source -/

theorem videoEntryTypes?_of_isCarried {f : VideoFormat} (h : f.IsCarried) :
    videoEntryTypes? f.codec = some (f.entryType, f.configType) := by
  unfold VideoFormat.entryType VideoFormat.configType
  rcases h with h | h <;> rw [h] <;> rfl

theorem videoEntryTypes?_of_not_isCarried {f : VideoFormat} (h : ¬f.IsCarried) :
    videoEntryTypes? f.codec = none := by
  unfold VideoFormat.IsCarried at h
  cases hc : f.codec with
  | h264 => exact absurd (Or.inl hc) h
  | h265 => exact absurd (Or.inr hc) h
  | _ => rfl

def videoBox (f : VideoFormat) : Box :=
  track (trackHeader 1 true f.width f.height) TrackLayout.videoTimescale (.ascii 'v' 'i' 'd' 'e')
    "VideoHandler" videoMediaHeader (videoSampleEntry f.entryType f.configType f)

def audioBox (id : UInt32) (f : AudioFormat) : Box :=
  track (trackHeader id false 0 0) f.sampleRate (.ascii 's' 'o' 'u' 'n') "SoundHandler"
    soundMediaHeader (audioSampleEntry id f)

namespace Muxer

theorem videoTrack?_of_isCarried {f : VideoFormat} (h : f.IsCarried) :
    videoTrack? f = .ok (.empty ⟨1, TrackLayout.videoTimescale, videoBox f⟩) := by
  have hisVideo : f.codec.isVideo = true := by rcases h with h | h <;> rw [h] <;> rfl
  rw [videoTrack?, if_pos hisVideo, TrackLayout.video?, TrackBox.video?,
    videoEntryTypes?_of_isCarried h]
  rfl

theorem videoTrack?_of_not_isCarried {f : VideoFormat} (h : ¬f.IsCarried) :
    ∃ what, videoTrack? f = .error (.unsupportedCodec what) := by
  unfold videoTrack?
  split
  · rw [TrackLayout.video?, TrackBox.video?, videoEntryTypes?_of_not_isCarried h]
    exact ⟨_, rfl⟩
  · exact ⟨_, rfl⟩

theorem audioTrack?_of_isCarried (id : UInt32) {f : AudioFormat} (h : f.IsCarried) :
    (TrackLayout.audio? id f).map Track.empty = .ok (.empty ⟨id, f.sampleRate, audioBox id f⟩) := by
  have hrate : f.sampleRate ≠ 0 := by
    intro hzero
    rw [AudioFormat.IsCarried, hzero] at h
    exact Nat.lt_irrefl _ h.2
  rw [TrackLayout.audio?, if_neg hrate, TrackBox.audio?, if_pos h.1]
  rfl

theorem audioTrack?_of_not_isCarried (id : UInt32) {f : AudioFormat} (h : ¬f.IsCarried) :
    ∃ what, (TrackLayout.audio? id f).map Track.empty = .error (.unsupportedCodec what) := by
  unfold TrackLayout.audio?
  split
  · exact ⟨_, rfl⟩
  · rename_i hrate
    have hcodec : f.codec ≠ .aac := fun hc =>
      h ⟨hc, Nat.pos_of_ne_zero fun hzero => hrate (UInt32.toNat_inj.1 hzero)⟩
    rw [TrackBox.audio?, if_neg hcodec]
    exact ⟨_, rfl⟩

/-- The tracks of a source with their boxes. -/
def trackBoxes (format : SourceFormat) : List (UInt32 × Box) :=
  (format.video.map fun f => (1, videoBox f)).toList ++
    (format.audio.map fun f => (audioId format, audioBox (audioId format) f)).toList

theorem mem_trackBoxes {format : SourceFormat} {t : UInt32 × Box} : t ∈ trackBoxes format ↔
    (∃ f, format.video = some f ∧ t = (1, videoBox f)) ∨
      ∃ f, format.audio = some f ∧ t = (audioId format, audioBox (audioId format) f) := by
  simp only [trackBoxes, List.mem_append, Option.mem_toList, Option.map_eq_some_iff]
  exact or_congr (exists_congr fun f => and_congr_right fun _ => eq_comm)
    (exists_congr fun f => and_congr_right fun _ => eq_comm)

theorem length_trackBoxes_le (format : SourceFormat) : (trackBoxes format).length ≤ 2 := by
  unfold trackBoxes
  cases format.video <;> cases format.audio <;> simp

/-- The tracks of one medium: refused, or made of the stream if there is one. -/
theorem mapM_track_cases {α : Type} {make : α → Except Error Track} {IsCarried : α → Prop}
    {track : α → Track} (hok : ∀ a, IsCarried a → make a = .ok (track a))
    (herror : ∀ a, ¬IsCarried a → ∃ what, make a = .error (.unsupportedCodec what))
    (stream : Option α) :
    ((∃ a, stream = some a ∧ ¬IsCarried a) ∧
      ∃ what, stream.mapM make = .error (.unsupportedCodec what)) ∨
    ((∀ a, stream = some a → IsCarried a) ∧ stream.mapM make = .ok (stream.map track)) := by
  cases stream with
  | none => exact Or.inr ⟨nofun, rfl⟩
  | some a =>
    have hmapM : (some a).mapM make = (make a).map some := rfl
    rw [hmapM]
    by_cases ha : IsCarried a
    · refine Or.inr ⟨fun b hb => Option.some.inj hb ▸ ha, ?_⟩
      rw [hok a ha]
      rfl
    · obtain ⟨what, hwhat⟩ := herror a ha
      refine Or.inl ⟨⟨a, rfl, ha⟩, what, ?_⟩
      rw [hwhat]
      rfl

/-- **Which sources have a muxer**, and the boxes of its tracks. -/
theorem ofFormat?_cases (format : SourceFormat) :
    (format.isEmpty = true ∧ ofFormat? format = .error .noCodecData) ∨
    (format.IsUnsupported ∧ ∃ what, ofFormat? format = .error (.unsupportedCodec what)) ∨
    (format.isEmpty = false ∧ ¬format.IsUnsupported ∧ ∃ m, ofFormat? format = .ok m ∧
      m.tracks.map (fun t => (t.layout.id, t.layout.box)) = trackBoxes format) := by
  unfold ofFormat?
  cases hempty : format.isEmpty with
  | true => exact Or.inl ⟨rfl, rfl⟩
  | false =>
    refine Or.inr ?_
    rcases mapM_track_cases (fun _ => videoTrack?_of_isCarried)
      (fun _ => videoTrack?_of_not_isCarried) format.video with
      ⟨hunsupported, what, hwhat⟩ | ⟨hvideo, hvideoTrack⟩
    · refine Or.inl ⟨Or.inl hunsupported, what, ?_⟩
      rw [hwhat]
      rfl
    -- the number of the audio track depends on whether there is a video track
    have hid : (if (format.video.map fun f => Track.empty
        ⟨1, TrackLayout.videoTimescale, videoBox f⟩).isSome then 2 else 1) = audioId format := by
      rw [Option.isSome_map]
      rfl
    rw [hvideoTrack]
    simp only [Bool.false_eq_true, if_false, bind, Except.bind, hid]
    rcases mapM_track_cases (fun _ => audioTrack?_of_isCarried (audioId format))
      (fun _ => audioTrack?_of_not_isCarried (audioId format)) format.audio with
      ⟨hunsupported, what, hwhat⟩ | ⟨haudio, haudioTrack⟩
    · refine Or.inl ⟨Or.inr hunsupported, what, ?_⟩
      rw [hwhat]
    · rw [haudioTrack]
      refine Or.inr ⟨trivial, fun h => ?_, _, rfl, ?_⟩
      · rcases h with ⟨f, hf, hno⟩ | ⟨f, hf, hno⟩
        · exact hno (hvideo f hf)
        · exact hno (haudio f hf)
      · unfold tracks trackBoxes
        cases format.video <;> cases format.audio <;> rfl

end Muxer

/-! ## The boxes of a movie -/

/-- A box without boxes, which a reader does not look into. -/
theorem shaped_leaf {type : FourCC} {fields : Bytes}
    (h : List.lookup type boxesWithBoxes = none) : boxFraming.Shaped (.leaf type fields) :=
  .leaf h

theorem shaped_mk {type : FourCC} {fields : Bytes} {children : List Box}
    (h : List.lookup type boxesWithBoxes = some fields.length)
    (hchildren : ∀ b ∈ children, boxFraming.Shaped b) :
    boxFraming.Shaped (.mk type fields children) :=
  .node h hchildren

theorem shaped_track {header information description : Box} {timescale : UInt32} {kind : FourCC}
    {name : String} (hheader : boxFraming.Shaped header)
    (hinformation : boxFraming.Shaped information) (hdescription : boxFraming.Shaped description) :
    boxFraming.Shaped (track header timescale kind name information description) := by
  have hdata : boxFraming.Shaped dataInformation :=
    shaped_mk rfl (List.forall_mem_singleton.2
      (shaped_mk rfl (List.forall_mem_singleton.2 (shaped_leaf rfl))))
  have htable : boxFraming.Shaped (.container (.ascii 's' 't' 'b' 'l')
      (sampleDescription description :: emptySampleTables)) := by
    refine shaped_mk rfl (List.forall_mem_cons.2 ⟨?_, ?_⟩)
    · exact shaped_mk rfl (List.forall_mem_singleton.2 hdescription)
    · simp only [emptySampleTables, List.forall_mem_cons]
      exact ⟨shaped_leaf rfl, shaped_leaf rfl, shaped_leaf rfl, shaped_leaf rfl, nofun⟩
  have hmediaInformation : boxFraming.Shaped (.container (.ascii 'm' 'i' 'n' 'f')
      [information, dataInformation, .container (.ascii 's' 't' 'b' 'l')
        (sampleDescription description :: emptySampleTables)]) := by
    refine shaped_mk rfl ?_
    simp only [List.forall_mem_cons]
    exact ⟨hinformation, hdata, htable, nofun⟩
  refine shaped_mk rfl (List.forall_mem_cons.2 ⟨hheader, List.forall_mem_singleton.2 ?_⟩)
  refine shaped_mk rfl ?_
  simp only [List.forall_mem_cons]
  exact ⟨shaped_leaf rfl, shaped_leaf rfl, hmediaInformation, nofun⟩

theorem shaped_videoBox (f : VideoFormat) : boxFraming.Shaped (videoBox f) := by
  refine shaped_track (shaped_leaf rfl) (shaped_leaf rfl) (shaped_mk ?_ ?_)
  · unfold VideoFormat.entryType
    split <;> rfl
  · cases hconfig : f.decoderConfig with
    | nil => nofun
    | cons b bs =>
      refine List.forall_mem_singleton.2 (shaped_leaf ?_)
      unfold VideoFormat.configType
      split <;> rfl

theorem shaped_audioBox (id : UInt32) (f : AudioFormat) : boxFraming.Shaped (audioBox id f) :=
  shaped_track (shaped_leaf rfl) (shaped_leaf rfl)
    (shaped_mk rfl (List.forall_mem_singleton.2 (shaped_leaf rfl)))

theorem shaped_movie {tracks : List (UInt32 × Box)}
    (h : ∀ t ∈ tracks, boxFraming.Shaped t.2) : boxFraming.Shaped (movie tracks) := by
  refine shaped_mk rfl (List.forall_mem_cons.2 ⟨shaped_leaf rfl, fun b hb => ?_⟩)
  rcases List.mem_append.1 hb with hb | hb
  · obtain ⟨t, ht, rfl⟩ := List.mem_map.1 hb
    exact h t ht
  · rw [List.mem_singleton.1 hb]
    refine shaped_mk rfl fun b hb => ?_
    obtain ⟨id, -, rfl⟩ := List.mem_map.1 hb
    exact shaped_leaf rfl

/-! ## Sizes -/

@[simp] theorem length_encode_mk (type : FourCC) (fields : Bytes) (children : List Box) :
    (Box.mk type fields children).encode.length =
      fields.length + (Box.encodeAll children).length + 8 := by
  rw [Box.encode_mk, length_frame, List.length_append, headerLength, Nat.add_comm]

@[simp] theorem length_encode_leaf (type : FourCC) (fields : Bytes) :
    (Box.leaf type fields).encode.length = fields.length + 8 := by
  simp [Box.leaf]

@[simp] theorem length_encode_container (type : FourCC) (children : List Box) :
    (Box.container type children).encode.length = (Box.encodeAll children).length + 8 := by
  simp [Box.container]

theorem length_encodeAll_eq_sum (bs : List Box) :
    (Box.encodeAll bs).length = (bs.map (·.encode.length)).sum := by
  rw [Box.encodeAll_eq_flatMap, List.length_flatMap]

theorem length_track (header information description : Box) (timescale : UInt32) (kind : FourCC)
    (name : String) :
    (track header timescale kind name information description).encode.length =
      header.encode.length + information.encode.length + description.encode.length +
        name.toList.length + 229 := by
  simp [track, sampleDescription, emptySampleTables, emptyTable, dataInformation, mediaHeader,
    handler]
  omega

theorem length_videoBox_le (f : VideoFormat) :
    (videoBox f).encode.length ≤ f.decoderConfig.length + 459 := by
  have hname : "VideoHandler".toList.length = 12 := rfl
  have hconfig : (Box.encodeAll (if f.decoderConfig = [] then []
      else [.leaf f.configType f.decoderConfig])).length ≤ f.decoderConfig.length + 8 := by
    split <;> simp
  rw [videoBox, length_track, hname]
  simp [trackHeader, videoMediaHeader, videoSampleEntry]
  omega

theorem length_audioBox (id : UInt32) (f : AudioFormat) :
    (audioBox id f).encode.length = f.decoderConfig.length + 446 := by
  have hname : "SoundHandler".toList.length = 12 := rfl
  rw [audioBox, length_track, hname]
  simp [trackHeader, soundMediaHeader, audioSampleEntry, elementaryStream, length_audioDescriptor]
  omega

theorem length_movieHeader (timescale next : UInt32) :
    (movieHeader timescale next).encode.length = 120 := by
  simp [movieHeader]

theorem length_trackExtends (id : UInt32) : (trackExtends id).encode.length = 32 := by
  simp [trackExtends]

theorem length_movieExtends (ids : List UInt32) :
    (movieExtends ids).encode.length = 8 + 32 * ids.length := by
  rw [movieExtends, length_encode_container, length_encodeAll_eq_sum, List.map_map]
  simp only [Function.comp_def, length_trackExtends, List.map_const', List.sum_replicate_nat]
  omega

theorem length_movie (tracks : List (UInt32 × Box)) : (movie tracks).encode.length =
    136 + 32 * tracks.length + (tracks.map (·.2.encode.length)).sum := by
  rw [movie, length_encode_container, length_encodeAll_eq_sum]
  simp only [List.map_cons, List.map_append, List.map_nil, List.sum_cons, List.sum_append,
    List.sum_nil, List.map_map, Function.comp_def, length_movieHeader, length_movieExtends,
    List.length_map]
  omega

/-- Decoder configurations of up to 128 megabytes leave the boxes far below four gigabytes. -/
theorem Muxer.length_boxes_lt {format : SourceFormat}
    (hvideo : ∀ f, format.video = some f → f.decoderConfig.length ≤ 2 ^ 27)
    (haudio : ∀ f, format.audio = some f → f.decoderConfig.length ≤ 2 ^ 27) :
    (Box.encodeAll [fileType, movie (trackBoxes format)]).length < 2 ^ 32 := by
  have hbrands : fileType.encode.length = 32 := by decide
  have hcount := length_trackBoxes_le format
  have hsum : ((trackBoxes format).map (·.2.encode.length)).sum ≤ 2 * 2 ^ 28 := by
    have htrack : ∀ n ∈ (trackBoxes format).map (·.2.encode.length), n ≤ 2 ^ 28 := by
      intro n hn
      obtain ⟨t, ht, rfl⟩ := List.mem_map.1 hn
      rcases mem_trackBoxes.1 ht with ⟨f, hf, rfl⟩ | ⟨f, hf, rfl⟩
      · have hlength := length_videoBox_le f
        have hconfig := hvideo f hf
        exact Nat.le_trans hlength (by omega)
      · have hlength := length_audioBox (audioId format) f
        have hconfig := haudio f hf
        exact Nat.le_trans (Nat.le_of_eq hlength) (by omega)
    have hle := List.sum_le_card_nsmul _ _ htrack
    rw [List.length_map, Nat.nsmul_eq_mul] at hle
    exact Nat.le_trans hle (Nat.mul_le_mul_right _ hcount)
  rw [Box.encodeAll_cons, Box.encodeAll_cons, Box.encodeAll_nil, List.append_nil,
    List.length_append, hbrands, length_movie]
  omega

/-! ## What is read of a movie -/

/-- The video track of a source as a player is to know it. -/
def describedVideo (f : VideoFormat) : MovieTrack where
  track := 1
  timescale := 90000
  width := min f.width.toNat 0xFFFF
  height := min f.height.toNat 0xFFFF
  kind := .ascii 'v' 'i' 'd' 'e'
  entryType := f.entryType
  entry := .picture (min f.width.toNat 0xFFFF) (min f.height.toNat 0xFFFF)
    (if f.decoderConfig = [] then [] else [(f.configType, f.decoderConfig)])

/-- The audio track, whose elementary stream has the number of the track. -/
def describedAudio (track : UInt32) (f : AudioFormat) : MovieTrack where
  track := track
  timescale := f.sampleRate
  width := 0
  height := 0
  kind := .ascii 's' 'o' 'u' 'n'
  entryType := .ascii 'm' 'p' '4' 'a'
  entry := .sound f.channels.toNat (min f.sampleRate.toNat 0xFFFF) track.toNat f.decoderConfig

/-- The tracks of a source, video first, numbered from 1. -/
def describedTracks (format : SourceFormat) : List MovieTrack :=
  (format.video.map describedVideo).toList ++
    (format.audio.map (describedAudio (if format.video.isSome then 2 else 1))).toList

theorem readMovieTrack?_videoBox (f : VideoFormat) :
    readMovieTrack? (videoBox f) = some (describedVideo f) := by
  refine readMovieTrack?_track (by decide) ?_
  have hentry : (videoSampleEntry f.entryType f.configType f).type ≠ .ascii 'm' 'p' '4' 'a' := by
    show f.entryType ≠ _
    unfold VideoFormat.entryType
    split <;> decide
  rw [readParameters?, if_neg hentry, readPicture?_videoSampleEntry]

theorem readMovieTrack?_audioBox {id : UInt32} (hid : id.toNat ≤ 0xFFFF) {f : AudioFormat}
    (hconfig : f.decoderConfig.length ≤ 2 ^ 27) :
    readMovieTrack? (audioBox id f) = some (describedAudio id f) := by
  refine readMovieTrack?_track (by decide) ?_
  have hentry : (audioSampleEntry id f).type = .ascii 'm' 'p' '4' 'a' := rfl
  rw [readParameters?, if_pos hentry, readSound?_audioSampleEntry id hconfig, Nat.min_eq_left hid]

theorem readMovie?_trackBoxes {format : SourceFormat}
    (haudio : ∀ f, format.audio = some f → f.decoderConfig.length ≤ 2 ^ 27) :
    readMovie? [fileType, movie (Muxer.trackBoxes format)] =
      some ⟨UInt32.ofNat ((describedTracks format).length + 1), describedTracks format,
        (describedTracks format).map (·.track)⟩ := by
  have htype : ∀ t ∈ Muxer.trackBoxes format, t.2.type = .ascii 't' 'r' 'a' 'k' := by
    intro t ht
    rcases Muxer.mem_trackBoxes.1 ht with ⟨f, -, rfl⟩ | ⟨f, -, rfl⟩ <;> rfl
  have hid : (Muxer.audioId format).toNat ≤ 0xFFFF := by
    unfold Muxer.audioId
    split <;> decide
  have hread : ((Muxer.trackBoxes format).map (·.2)).mapM readMovieTrack? =
      some (describedTracks format) := by
    have hvideoTrack : ((format.video.map fun f => ((1 : UInt32), videoBox f)).toList.map
        (·.2)).mapM readMovieTrack? = some (format.video.map describedVideo).toList := by
      cases format.video with
      | none => rfl
      | some f => simp [readMovieTrack?_videoBox]
    have haudioTrack : ((format.audio.map fun f =>
        (Muxer.audioId format, audioBox (Muxer.audioId format) f)).toList.map
          (·.2)).mapM readMovieTrack? =
        some (format.audio.map (describedAudio (Muxer.audioId format))).toList := by
      cases ha : format.audio with
      | none => rfl
      | some f => simp [readMovieTrack?_audioBox hid (haudio f ha)]
    rw [Muxer.trackBoxes, List.map_append, List.mapM_append, hvideoTrack, haudioTrack]
    rfl
  have hids : (Muxer.trackBoxes format).map (·.1) = (describedTracks format).map (·.track) ∧
      nextTrackId ((describedTracks format).map (·.track)) =
        UInt32.ofNat ((describedTracks format).length + 1) := by
    unfold Muxer.trackBoxes describedTracks Muxer.audioId
    cases format.video <;> cases format.audio <;> exact ⟨rfl, rfl⟩
  rw [readMovie?_movie htype hread, hids.1, hids.2]

/-! ## The types of the boxes -/

/-- The types of the boxes of a track. -/
def trackOutline (information entry : Box) : Box :=
  .container (.ascii 't' 'r' 'a' 'k')
    [.leaf (.ascii 't' 'k' 'h' 'd') [],
     .container (.ascii 'm' 'd' 'i' 'a')
      [.leaf (.ascii 'm' 'd' 'h' 'd') [], .leaf (.ascii 'h' 'd' 'l' 'r') [],
       .container (.ascii 'm' 'i' 'n' 'f')
        [information,
         .container (.ascii 'd' 'i' 'n' 'f')
          [.container (.ascii 'd' 'r' 'e' 'f') [.leaf (.ascii 'u' 'r' 'l' ' ') []]],
         .container (.ascii 's' 't' 'b' 'l')
          [.container (.ascii 's' 't' 's' 'd') [entry], .leaf (.ascii 's' 't' 't' 's') [],
           .leaf (.ascii 's' 't' 's' 'c') [], .leaf (.ascii 's' 't' 's' 'z') [],
           .leaf (.ascii 's' 't' 'c' 'o') []]]]]

def videoOutline (f : VideoFormat) : Box :=
  trackOutline (.leaf (.ascii 'v' 'm' 'h' 'd') [])
    (.container f.entryType (if f.decoderConfig = [] then [] else [.leaf f.configType []]))

def audioOutline : Box :=
  trackOutline (.leaf (.ascii 's' 'm' 'h' 'd') [])
    (.container (.ascii 'm' 'p' '4' 'a') [.leaf (.ascii 'e' 's' 'd' 's') []])

/-- The types of the boxes in the initialization segment of a source. -/
def movieOutline (format : SourceFormat) : List Box :=
  let tracks := (format.video.map videoOutline).toList ++
    (format.audio.map fun _ => audioOutline).toList
  [.leaf (.ascii 'f' 't' 'y' 'p') [],
   .container (.ascii 'm' 'o' 'o' 'v')
    (.leaf (.ascii 'm' 'v' 'h' 'd') [] ::
      (tracks ++ [.container (.ascii 'm' 'v' 'e' 'x')
        (tracks.map fun _ => .leaf (.ascii 't' 'r' 'e' 'x') [])]))]

theorem bare_videoBox (f : VideoFormat) : (videoBox f).bare = videoOutline f := by
  unfold videoOutline videoBox videoSampleEntry
  cases f.decoderConfig with
  | nil => rfl
  | cons b bs => rfl

theorem bare_audioBox (id : UInt32) (f : AudioFormat) : (audioBox id f).bare = audioOutline := rfl

theorem bare_movie (tracks : List (UInt32 × Box)) : (movie tracks).bare =
    .container (.ascii 'm' 'o' 'o' 'v')
      (.leaf (.ascii 'm' 'v' 'h' 'd') [] ::
        (tracks.map (·.2.bare) ++ [.container (.ascii 'm' 'v' 'e' 'x')
          (tracks.map fun _ => .leaf (.ascii 't' 'r' 'e' 'x') [])])) := by
  simp only [movie, movieHeader, movieExtends, trackExtends, Box.container, Box.leaf, Box.bare,
    Box.bareAll_eq_map, List.map_cons, List.map_append, List.map_nil, List.map_map,
    Function.comp_def]

theorem bareAll_trackBoxes (format : SourceFormat) :
    Box.bareAll [fileType, movie (Muxer.trackBoxes format)] = movieOutline format := by
  have hfile : fileType.bare = .leaf (.ascii 'f' 't' 'y' 'p') [] := rfl
  rw [Box.bareAll_eq_map, List.map_cons, List.map_singleton, hfile, bare_movie]
  unfold Muxer.trackBoxes movieOutline
  cases format.video <;> cases format.audio <;> simp [bare_videoBox, bare_audioBox]

/-! ## The round trip -/

/-- What a reader makes of the initialization segment of a source. -/
structure IsMovieOf (file : Bytes) (format : SourceFormat) (tree : List Box) : Prop where
  /-- The boxes fill the file. -/
  read_eq : boxFraming.readAll? file = some tree
  bare_eq : Box.bareAll tree = movieOutline format
  /-- Every size field is the number of bytes that its box has in the file. -/
  encode_eq : Box.encodeAll tree = file
  sized : ∀ b ∈ tree, b.Sized
  movie_eq : readMovie? tree =
    some ⟨UInt32.ofNat ((describedTracks format).length + 1), describedTracks format,
      (describedTracks format).map (·.track)⟩
  /-- The tracks are numbered from 1. -/
  numbers_eq : (describedTracks format).map (·.track.toNat) =
    List.range' 1 (describedTracks format).length

theorem isMovieOf_trackBoxes {format : SourceFormat}
    (hvideo : ∀ f, format.video = some f → f.decoderConfig.length ≤ 2 ^ 27)
    (haudio : ∀ f, format.audio = some f → f.decoderConfig.length ≤ 2 ^ 27) :
    IsMovieOf (Box.encodeAll [fileType, movie (Muxer.trackBoxes format)]) format
      [fileType, movie (Muxer.trackBoxes format)] := by
  have hlength := Muxer.length_boxes_lt hvideo haudio
  have htracks : ∀ t ∈ Muxer.trackBoxes format, boxFraming.Shaped t.2 := by
    intro t ht
    rcases Muxer.mem_trackBoxes.1 ht with ⟨f, -, rfl⟩ | ⟨f, -, rfl⟩
    · exact shaped_videoBox f
    · exact shaped_audioBox _ f
  have hshaped : ∀ b ∈ [fileType, movie (Muxer.trackBoxes format)], boxFraming.Shaped b := by
    simp only [List.forall_mem_cons]
    exact ⟨shaped_leaf rfl, shaped_movie htracks, nofun⟩
  refine ⟨?_, bareAll_trackBoxes format, rfl, Box.sized_of_length_encodeAll_lt _ hlength,
    readMovie?_trackBoxes haudio, ?_⟩
  · rw [Box.encodeAll_eq_flatMap] at hlength ⊢
    exact boxFraming_lawful.readAll?_flatMap hshaped hlength
  · unfold describedTracks
    cases format.video <;> cases format.audio <;> rfl

namespace Muxer

/-- **The round trip through an initialization segment.** A source without streams has no muxer, nor
has one with a stream that cannot be carried; any other has. If the decoder configurations have at
most 128 megabytes, a reader finds in its initialization segment the boxes of a movie with a track
for each stream, without a byte left over, and in these the parameters of the streams. -/
theorem initialization_round_trip (format : SourceFormat) :
    (ofFormat? format = .error .noCodecData ↔ format.video = none ∧ format.audio = none) ∧
    ((∃ what, ofFormat? format = .error (.unsupportedCodec what)) ↔ format.IsUnsupported) ∧
    (¬(format.video = none ∧ format.audio = none) → ¬format.IsUnsupported →
      ∃ m, ofFormat? format = .ok m ∧
        ((∀ f, format.video = some f → f.decoderConfig.length ≤ 2 ^ 27) →
          (∀ f, format.audio = some f → f.decoderConfig.length ≤ 2 ^ 27) →
          ∃ tree, IsMovieOf m.initialization format tree)) := by
  rw [← format.isEmpty_iff]
  rcases ofFormat?_cases format with ⟨hempty, h⟩ | ⟨hunsupported, what, h⟩ |
    ⟨hempty, hcarried, m, h, hboxes⟩
  · have hcarried : ¬format.IsUnsupported := fun hno => nomatch hempty.symm.trans hno.isEmpty_eq_false
    rw [h, hempty]
    exact ⟨⟨fun _ => rfl, fun _ => rfl⟩, ⟨nofun, fun hno => absurd hno hcarried⟩,
      fun hno => absurd rfl hno⟩
  · rw [h, hunsupported.isEmpty_eq_false]
    exact ⟨⟨nofun, nofun⟩, ⟨fun _ => hunsupported, fun _ => ⟨what, rfl⟩⟩,
      fun _ hno => absurd hunsupported hno⟩
  · rw [h, hempty]
    refine ⟨⟨nofun, nofun⟩, ⟨nofun, fun hno => absurd hno hcarried⟩, fun _ _ => ⟨m, rfl, ?_⟩⟩
    intro hvideo haudio
    rw [initialization, initializationBoxes, hboxes]
    exact ⟨_, isMovieOf_trackBoxes hvideo haudio⟩

/-- A picture too wide for the fields of a movie, without a decoder configuration, and sound whose
sample rate fits into its time scale but not into its sample entry. -/
def wideFormat : SourceFormat where
  url := "wide"
  video := some ⟨.h265, 70000, 720, 25, 0, []⟩
  audio := some ⟨.aac, 96000, 2, 0, [17, 144]⟩

theorem initialization_round_trip_of_wideFormat :
    ∃ m tree movie, ofFormat? wideFormat = .ok m ∧
      boxFraming.readAll? m.initialization = some tree ∧ readMovie? tree = some movie ∧
      movie.nextTrack = 3 ∧ movie.extended = [1, 2] ∧
      movie.tracks.map (fun t => (t.track, t.timescale, t.width, t.height)) =
        [(1, 90000, 65535, 720), (2, 96000, 0, 0)] := by
  have hcarried : ¬wideFormat.IsUnsupported := by
    rintro (⟨f, hf, hno⟩ | ⟨f, hf, hno⟩) <;> obtain rfl := Option.some.inj hf
    · exact hno (Or.inr rfl)
    · exact hno ⟨rfl, by decide⟩
  obtain ⟨m, hm, hread⟩ := (initialization_round_trip wideFormat).2.2 (fun h => nomatch h.1) hcarried
  have hvideo : ∀ f, wideFormat.video = some f → f.decoderConfig.length ≤ 2 ^ 27 := fun f hf =>
    Option.some.inj hf ▸ Nat.zero_le _
  have haudio : ∀ f, wideFormat.audio = some f → f.decoderConfig.length ≤ 2 ^ 27 := fun f hf =>
    Option.some.inj hf ▸ (by decide : 2 ≤ 2 ^ 27)
  obtain ⟨tree, htree⟩ := hread hvideo haudio
  exact ⟨m, tree, _, hm, htree.read_eq, htree.movie_eq, rfl, rfl, rfl⟩

end Muxer

end Mp4

end LiveHls
