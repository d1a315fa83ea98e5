import LiveHls.Proofs.Mp4.Framing
import LiveHls.Proofs.Mp4.Initialization

/-!
# Reading movies

* `readMovie?` : the tracks of an initialization segment with the parameters of their codecs, read
  from the tree of its boxes;
* `readPicture?_videoSampleEntry`, `readSound?_audioSampleEntry` : the parameters are read back from
  a sample entry;
* `readMovieTrack?_track`, `readMovie?_movie` : tracks and movies are read back.
-/

namespace LiveHls.Mp4

open Bytes (word16 word32 word64 zeros)

namespace Box

def type : Box → FourCC
  | .mk type _ _ => type

def fields : Box → Bytes
  | .mk _ fields _ => fields

def children : Box → List Box
  | .mk _ _ children => children

@[simp] theorem type_leaf (type : FourCC) (fields : Bytes) : (leaf type fields).type = type := rfl

@[simp] theorem fields_leaf (type : FourCC) (fields : Bytes) :
    (leaf type fields).fields = fields := rfl

@[simp] theorem fields_mk (type : FourCC) (fields : Bytes) (children : List Box) :
    (mk type fields children).fields = fields := rfl

@[simp] theorem children_mk (type : FourCC) (fields : Bytes) (children : List Box) :
    (mk type fields children).children = children := rfl

/-- The first box of a type in a box. -/
def child? (b : Box) (type : FourCC) : Option Box := b.children.find? (·.type == type)

end Box

/-! ## The reader -/

def skip? (n : Nat) (bytes : Bytes) : Option Bytes :=
  if n ≤ bytes.length then some (bytes.drop n) else none

/-- `mvhd` of version 1: the number of the next track, behind rate, volume and matrix. -/
def readNextTrack? (fields : Bytes) : Option UInt32 := do
  let (_, _, rest) ← versioned? fields
  let (_created, rest) ← word64? rest
  let (_modified, rest) ← word64? rest
  let (_timescale, rest) ← word32? rest
  let (_duration, rest) ← word64? rest
  let (_rate, rest) ← word32? rest
  let (_volume, rest) ← word16? rest
  let rest ← skip? 10 rest
  let rest ← skip? 36 rest
  let rest ← skip? 24 rest
  let (next, _) ← word32? rest
  return next

/-- `tkhd` of version 1: width and height in whole pixels. -/
def readPictureSize? (fields : Bytes) : Option (Nat × Nat) := do
  let (_, _, rest) ← versioned? fields
  let (_created, rest) ← word64? rest
  let (_modified, rest) ← word64? rest
  let (_track, rest) ← word32? rest
  let (_, rest) ← word32? rest
  let (_duration, rest) ← word64? rest
  let rest ← skip? 8 rest
  let (_layer, rest) ← word16? rest
  let (_group, rest) ← word16? rest
  let (_volume, rest) ← word16? rest
  let (_, rest) ← word16? rest
  let rest ← skip? 36 rest
  let (width, rest) ← word16? rest
  let (_, rest) ← word16? rest
  let (height, _) ← word16? rest
  return (width.toNat, height.toNat)

/-- `hdlr`: the kind of media. -/
def readHandler? (fields : Bytes) : Option FourCC := do
  let (_, _, rest) ← versioned? fields
  let (_, rest) ← word32? rest
  FourCC.ofBytes? (rest.take 4)

/-- What a sample entry says of a codec. -/
inductive SampleEntry where
  | picture (width height : Nat) (configs : List (FourCC × Bytes))
  | sound (channels rate stream : Nat) (config : Bytes)

/-- An elementary stream: its number and the configuration of its decoder. -/
def readStream? : List Descriptor → Option (Nat × Bytes)
  | [.mk 0x03 fields [.mk 0x04 _ [.mk 0x05 config []], .mk 0x06 _ []]] =>
    (word16? fields).map fun (stream, _) => (stream.toNat, config)
  | _ => none

def readPicture? (entry : Box) : Option SampleEntry := do
  let rest ← skip? 6 entry.fields
  let (_reference, rest) ← word16? rest
  let rest ← skip? 16 rest
  let (width, rest) ← word16? rest
  let (height, _) ← word16? rest
  return .picture width.toNat height.toNat (entry.children.map fun c => (c.type, c.fields))

def readSound? (entry : Box) : Option SampleEntry := do
  let rest ← skip? 6 entry.fields
  let (_reference, rest) ← word16? rest
  let rest ← skip? 8 rest
  let (channels, rest) ← word16? rest
  let (_bits, rest) ← word16? rest
  let rest ← skip? 4 rest
  let (rate, _) ← word16? rest
  let esds ← entry.child? (.ascii 'e' 's' 'd' 's')
  let (_, _, rest) ← versioned? esds.fields
  let descriptors ← descriptorFraming.readAll? rest
  let (stream, config) ← readStream? descriptors
  return .sound channels.toNat rate.toNat stream config

def readParameters? (entry : Box) : Option SampleEntry :=
  if entry.type = .ascii 'm' 'p' '4' 'a' then readSound? entry else readPicture? entry

/-- A track as a player is to know it. -/
structure MovieTrack where
  track : UInt32
  timescale : UInt32
  width : Nat
  height : Nat
  kind : FourCC
  entryType : FourCC
  entry : SampleEntry

def readMovieTrack? (b : Box) : Option MovieTrack := do
  let header ← b.child? (.ascii 't' 'k' 'h' 'd')
  let track ← readHeaderNumber? header.fields
  let (width, height) ← readPictureSize? header.fields
  let media ← b.child? (.ascii 'm' 'd' 'i' 'a')
  let mediaHeader ← media.child? (.ascii 'm' 'd' 'h' 'd')
  let timescale ← readHeaderNumber? mediaHeader.fields
  let handler ← media.child? (.ascii 'h' 'd' 'l' 'r')
  let kind ← readHandler? handler.fields
  let information ← media.child? (.ascii 'm' 'i' 'n' 'f')
  let table ← information.child? (.ascii 's' 't' 'b' 'l')
  let description ← table.child? (.ascii 's' 't' 's' 'd')
  let entry ← description.children.head?
  let parameters ← readParameters? entry
  return ⟨track, timescale, width, height, kind, entry.type, parameters⟩

/-- `trex`: the number of the track. -/
def readTrackExtends? (fields : Bytes) : Option UInt32 := do
  let (_, _, rest) ← versioned? fields
  let (track, _) ← word32? rest
  return track

structure ReadMovie where
  nextTrack : UInt32
  tracks : List MovieTrack
  /-- The tracks that fragments may extend. -/
  extended : List UInt32

def readMovie? (tree : List Box) : Option ReadMovie := do
  let movie ← tree.find? (·.type == .ascii 'm' 'o' 'o' 'v')
  let header ← movie.child? (.ascii 'm' 'v' 'h' 'd')
  let nextTrack ← readNextTrack? header.fields
  let tracks ← (movie.children.filter (·.type == .ascii 't' 'r' 'a' 'k')).mapM readMovieTrack?
  let extensions ← movie.child? (.ascii 'm' 'v' 'e' 'x')
  let extended ← (extensions.children.filter (·.type == .ascii 't' 'r' 'e' 'x')).mapM
    (readTrackExtends? ·.fields)
  return ⟨nextTrack, tracks, extended⟩

/-! ## Fields -/

theorem skip?_append {n : Nat} {front : Bytes} (h : front.length = n) (rest : Bytes) :
    skip? n (front ++ rest) = some rest := by
  have hle : n ≤ (front ++ rest).length := by
    rw [List.length_append]
    omega
  rw [skip?, if_pos hle, List.drop_left' h]

@[simp] theorem skip?_zeros (n : Nat) (rest : Bytes) : skip? n (zeros n ++ rest) = some rest :=
  skip?_append (Bytes.length_zeros n) rest

@[simp] theorem length_unityMatrix : unityMatrix.length = 36 := by decide

@[simp] theorem skip?_unityMatrix (rest : Bytes) : skip? 36 (unityMatrix ++ rest) = some rest :=
  skip?_append length_unityMatrix rest

theorem readNextTrack?_movieHeader (timescale next : UInt32) :
    readNextTrack? (movieHeader timescale next).fields = some next := by
  have hlast := word32?_word32 next []
  rw [List.append_nil] at hlast
  simp only [readNextTrack?, movieHeader, Box.leaf, Box.fields, versioned?_versioned,
    List.append_assoc, word64?_word64, word32?_word32, word16?_word16, skip?_zeros,
    skip?_unityMatrix, hlast, Option.bind_eq_bind, Option.bind_some]
  rfl

theorem readPictureSize?_trackHeader (track : UInt32) (isVideo : Bool) (width height : UInt32) :
    readPictureSize? (trackHeader track isVideo width height).fields =
      some (min width.toNat 0xFFFF, min height.toNat 0xFFFF) := by
  simp only [readPictureSize?, trackHeader, Box.leaf, Box.fields, versioned?_versioned,
    List.append_assoc, word64?_word64, word32?_word32, word16?_word16, skip?_zeros,
    skip?_unityMatrix, Saturating.toNat_toUInt16, Option.bind_eq_bind, Option.bind_some]
  rfl

theorem readHandler?_handler (type : FourCC) (name : Bytes) :
    readHandler? (handler type name).fields = some type := by
  simp only [readHandler?, handler, Box.leaf, Box.fields, versioned?_versioned, List.append_assoc,
    word32?_word32, Option.bind_eq_bind, Option.bind_some]
  rfl

theorem readTrackExtends?_trackExtends (track : UInt32) :
    readTrackExtends? (trackExtends track).fields = some track := by
  simp only [readTrackExtends?, trackExtends, Box.leaf, Box.fields, versioned?_versioned,
    List.append_assoc, word32?_word32, Option.bind_eq_bind, Option.bind_some]
  rfl

/-! ## Sample entries -/

theorem readPicture?_videoSampleEntry (entry config : FourCC) (format : VideoFormat) :
    readPicture? (videoSampleEntry entry config format) =
      some (.picture (min format.width.toNat 0xFFFF) (min format.height.toNat 0xFFFF)
        (if format.decoderConfig = [] then [] else [(config, format.decoderConfig)])) := by
  have hconfigs : (videoSampleEntry entry config format).children.map (fun c => (c.type, c.fields)) =
      if format.decoderConfig = [] then [] else [(config, format.decoderConfig)] := by
    rw [videoSampleEntry, Box.children_mk]
    cases format.decoderConfig with
    | nil => rfl
    | cons b bs => simp
  rw [readPicture?, hconfigs]
  simp only [videoSampleEntry, Box.fields_mk, List.append_assoc, word16?_word16, skip?_zeros,
    Saturating.toNat_toUInt16, Option.bind_eq_bind, Option.bind_some]
  rfl

theorem shaped_audioDescriptor (track : UInt32) (format : AudioFormat) :
    descriptorFraming.Shaped (audioDescriptor track format) := by
  have hspecific : descriptorFraming.Shaped (.mk 0x05 format.decoderConfig []) := .leaf rfl
  have hconfig : ∀ bitrate : UInt32, descriptorFraming.Shaped
      (.mk 0x04 ([0x40, 0x15] ++ zeros 3 ++ word32 bitrate ++ word32 bitrate)
        [.mk 0x05 format.decoderConfig []]) := by
    intro bitrate
    refine .node rfl fun d hd => ?_
    rwa [List.mem_singleton.1 hd]
  refine .node rfl fun d hd => ?_
  rcases List.mem_cons.1 hd with rfl | hd
  · exact hconfig _
  · rw [List.mem_singleton.1 hd]
    exact .leaf rfl

theorem readStream?_audioDescriptor (track : UInt32) (format : AudioFormat) :
    readStream? [audioDescriptor track format] =
      some (min track.toNat 0xFFFF, format.decoderConfig) := by
  simp only [audioDescriptor, readStream?, word16?_word16, Option.map_some,
    Saturating.toNat_toUInt16]

theorem length_audioDescriptor (track : UInt32) (format : AudioFormat) :
    (audioDescriptor track format).encode.length = format.decoderConfig.length + 37 := by
  simp only [audioDescriptor, Descriptor.encode, Descriptor.encodeAll, Descriptor.length_frame,
    List.length_append, List.length_cons, List.length_nil, Bytes.length_word16,
    Bytes.length_word32, Bytes.length_zeros]
  omega

theorem readSound?_audioSampleEntry (track : UInt32) {format : AudioFormat}
    (hconfig : format.decoderConfig.length ≤ 2 ^ 27) :
    readSound? (audioSampleEntry track format) =
      some (.sound format.channels.toNat (min format.sampleRate.toNat 0xFFFF)
        (min track.toNat 0xFFFF) format.decoderConfig) := by
  have hdescriptors : descriptorFraming.readAll? (audioDescriptor track format).encode =
      some [audioDescriptor track format] := by
    have hlength := length_audioDescriptor track format
    have hread := descriptorFraming_lawful.readAll?_append (shaped_audioDescriptor track format)
      (by unfold Descriptor.maxLength; omega) []
    rwa [List.append_nil, Framing.readAll?_nil] at hread
  have hesds : (audioSampleEntry track format).child? (.ascii 'e' 's' 'd' 's') =
      some (elementaryStream track format) := rfl
  rw [readSound?, hesds]
  simp only [audioSampleEntry, elementaryStream, Box.fields_mk, Box.fields_leaf,
    List.append_assoc, word16?_word16, skip?_zeros, versioned?_versioned, hdescriptors,
    readStream?_audioDescriptor, Saturating.toNat_toUInt16, Option.bind_eq_bind, Option.bind_some]
  rfl

/-! ## Tracks -/

theorem readMovieTrack?_track {id timescale width height : UInt32} {isVideo : Bool} {kind : FourCC}
    {name : String} {information description : Box} {entry : SampleEntry}
    (hinformation : information.type ≠ .ascii 's' 't' 'b' 'l')
    (hentry : readParameters? description = some entry) :
    readMovieTrack? (track (trackHeader id isVideo width height) timescale kind name information
        description) =
      some ⟨id, timescale, min width.toNat 0xFFFF, min height.toNat 0xFFFF, kind,
        description.type, entry⟩ := by
  have hheader : (track (trackHeader id isVideo width height) timescale kind name information
      description).child? (.ascii 't' 'k' 'h' 'd') =
        some (trackHeader id isVideo width height) := rfl
  obtain ⟨media, info, table, hmedia, hmdhd, hhdlr, hinfo, htable, hdescription⟩ :
      ∃ media info table, (track (trackHeader id isVideo width height) timescale kind name
          information description).child? (.ascii 'm' 'd' 'i' 'a') = some media ∧
        media.child? (.ascii 'm' 'd' 'h' 'd') = some (mediaHeader timescale) ∧
        media.child? (.ascii 'h' 'd' 'l' 'r') =
          some (handler kind (name.toList.map fun c => c.val.toUInt8)) ∧
        media.child? (.ascii 'm' 'i' 'n' 'f') = some info ∧
        info.child? (.ascii 's' 't' 'b' 'l') = some table ∧
        table.child? (.ascii 's' 't' 's' 'd') = some (sampleDescription description) :=
    ⟨_, _, _, rfl, rfl, rfl, rfl,
      List.find?_cons_of_neg fun h => hinformation (beq_iff_eq.1 h), rfl⟩
  have hid := readHeaderNumber?_trackHeader id isVideo width height
  have htimescale := readHeaderNumber?_mediaHeader timescale
  rw [trackHeader, Box.raw_leaf] at hid
  rw [mediaHeader, Box.raw_leaf] at htimescale
  have hentry' : (sampleDescription description).children.head? = some description := rfl
  simp only [readMovieTrack?, hheader, hmedia, hmdhd, hhdlr, hinfo, htable, hdescription, hentry',
    hentry, readPictureSize?_trackHeader, readHandler?_handler, Option.bind_eq_bind,
    Option.bind_some]
  simp only [trackHeader, mediaHeader, Box.fields_leaf, hid, htimescale, Option.bind_some]
  rfl

/-! ## The movie -/

theorem readMovie?_movie {tracks : List (UInt32 × Box)} {results : List MovieTrack}
    (htype : ∀ t ∈ tracks, t.2.type = .ascii 't' 'r' 'a' 'k')
    (hread : (tracks.map (·.2)).mapM readMovieTrack? = some results) :
    readMovie? [fileType, movie tracks] =
      some ⟨nextTrackId (tracks.map (·.1)), results, tracks.map (·.1)⟩ := by
  have hmovie : [fileType, movie tracks].find? (·.type == .ascii 'm' 'o' 'o' 'v') =
      some (movie tracks) := rfl
  have hheader : (movie tracks).child? (.ascii 'm' 'v' 'h' 'd') =
      some (movieHeader movieTimescale (nextTrackId (tracks.map (·.1)))) := rfl
  have hboxes : ∀ b ∈ tracks.map (·.2), b.type = .ascii 't' 'r' 'a' 'k' := by
    intro b hb
    obtain ⟨t, ht, rfl⟩ := List.mem_map.1 hb
    exact htype t ht
  have htracks : (movie tracks).children.filter (·.type == .ascii 't' 'r' 'a' 'k') =
      tracks.map (·.2) := by
    have hall : (tracks.map (·.2)).filter (·.type == .ascii 't' 'r' 'a' 'k') = tracks.map (·.2) :=
      List.filter_eq_self.2 fun b hb => beq_iff_eq.2 (hboxes b hb)
    refine (List.filter_cons_of_neg Bool.false_ne_true).trans ?_
    rw [List.filter_append, hall]
    exact List.append_nil _
  have hextends : (movie tracks).child? (.ascii 'm' 'v' 'e' 'x') =
      some (movieExtends (tracks.map (·.1))) := by
    have hnone : (tracks.map (·.2)).find? (·.type == .ascii 'm' 'v' 'e' 'x') = none := by
      rw [List.find?_eq_none]
      intro b hb
      rw [hboxes b hb]
      decide
    refine (List.find?_cons_of_neg Bool.false_ne_true).trans ?_
    rw [List.find?_append, hnone]
    rfl
  have hextended : ((movieExtends (tracks.map (·.1))).children.filter
      (·.type == .ascii 't' 'r' 'e' 'x')).mapM (readTrackExtends? ·.fields) =
        some (tracks.map (·.1)) := by
    have hall : ((tracks.map (·.1)).map trackExtends).filter (·.type == .ascii 't' 'r' 'e' 'x') =
        (tracks.map (·.1)).map trackExtends := by
      refine List.filter_eq_self.2 fun b hb => ?_
      obtain ⟨id, -, rfl⟩ := List.mem_map.1 hb
      rfl
    have hread := mapM_map_eq_some (f := fun b : Box => readTrackExtends? b.fields) (h := id)
      (l := tracks.map (·.1)) fun id _ => readTrackExtends?_trackExtends id
    rw [List.map_id] at hread
    rw [movieExtends, Box.container, Box.children_mk, hall]
    exact hread
  simp only [readMovie?, hmovie, hheader, htracks, hread, hextends, hextended,
    readNextTrack?_movieHeader, Option.bind_eq_bind, Option.bind_some]
  rfl

end LiveHls.Mp4
