import LiveHls.Codec
import LiveHls.Error
import LiveHls.Mp4.Box
import LiveHls.Mp4.Descriptor

/-!
# The boxes of an initialization segment

`fileType` and `movie` describe the tracks of a rendition before any sample exists: sample tables
are empty and all durations are 0.

* `TrackBox.video?`, `TrackBox.audio?` : the `trak` box of a stream, refused for a codec that has
  no sample entry;
* `movieFrame` : the `moov` box around track boxes that are already encoded.
-/

namespace LiveHls.Mp4

open Bytes (word16 word32 word64 zeros)

/-! ## Brands -/

/-- Major brand, minor version and compatible brands of every file and segment. -/
def brands : Bytes :=
  (FourCC.ascii 'i' 's' 'o' 'm').bytes ++ word32 0x200 ++ (FourCC.ascii 'i' 's' 'o' '6').bytes
    ++ (FourCC.ascii 'a' 'v' 'c' '1').bytes ++ (FourCC.ascii 'm' 'p' '4' '1').bytes
    ++ (FourCC.ascii 'd' 'a' 's' 'h').bytes

/-- `ftyp`. -/
def fileType : Box := .leaf (.ascii 'f' 't' 'y' 'p') brands

/-! ## Headers -/

/-- The identity transformation in fixed point. -/
def unityMatrix : Bytes :=
  [0x00010000, 0, 0, 0, 0x00010000, 0, 0, 0, 0x40000000].flatMap word32

/-- `mvhd`: rate and volume are 1, the duration of a live movie is unknown. -/
def movieHeader (timescale nextTrack : UInt32) : Box :=
  .leaf (.ascii 'm' 'v' 'h' 'd') <| Box.versioned 1 0 <|
    word64 0 ++ word64 0 ++ word32 timescale ++ word64 0 ++ word32 0x00010000 ++ word16 0x0100
      ++ zeros 10 ++ unityMatrix ++ zeros 24 ++ word32 nextTrack

/-- `tkhd`: an enabled track. Audio tracks form alternate group 1 and have full volume; the picture
size is a 16.16 fixed point number. -/
def trackHeader (track : UInt32) (isVideo : Bool) (width height : UInt32) : Box :=
  let pixels (n : UInt32) : Bytes := word16 (Saturating.toUInt16 n.toNat) ++ word16 0
  .leaf (.ascii 't' 'k' 'h' 'd') <| Box.versioned 1 7 <|
    word64 0 ++ word64 0 ++ word32 track ++ word32 0 ++ word64 0 ++ zeros 8 ++ word16 0
      ++ word16 (if isVideo then 0 else 1) ++ word16 (if isVideo then 0 else 0x0100) ++ word16 0
      ++ unityMatrix ++ pixels width ++ pixels height

/-- `mdhd`: the language is undetermined. -/
def mediaHeader (timescale : UInt32) : Box :=
  .leaf (.ascii 'm' 'd' 'h' 'd') <| Box.versioned 1 0 <|
    word64 0 ++ word64 0 ++ word32 timescale ++ word64 0 ++ word16 0x55C4 ++ word16 0

/-- `hdlr`: the kind of media and a name that ends in a zero byte. -/
def handler (type : FourCC) (name : Bytes) : Box :=
  .leaf (.ascii 'h' 'd' 'l' 'r') <| Box.versioned 0 0 <|
    word32 0 ++ type.bytes ++ zeros 12 ++ name ++ [0]

/-- `dinf`: one data reference, to the file itself. -/
def dataInformation : Box :=
  .container (.ascii 'd' 'i' 'n' 'f')
    [.mk (.ascii 'd' 'r' 'e' 'f') (Box.versioned 0 0 (word32 1))
      [.leaf (.ascii 'u' 'r' 'l' ' ') (Box.versioned 0 1 [])]]

/-- `vmhd`. -/
def videoMediaHeader : Box := .leaf (.ascii 'v' 'm' 'h' 'd') (Box.versioned 0 1 (zeros 8))

/-- `smhd`. -/
def soundMediaHeader : Box := .leaf (.ascii 's' 'm' 'h' 'd') (Box.versioned 0 0 (zeros 4))

/-! ## Sample descriptions -/

/-- `stsd` with one sample entry. -/
def sampleDescription (entry : Box) : Box :=
  .mk (.ascii 's' 't' 's' 'd') (Box.versioned 0 0 (word32 1)) [entry]

/-- Types of the sample entry and of the configuration box of a video codec, if it has them. -/
def videoEntryTypes? : Codec → Option (FourCC × FourCC)
  | .h264 => some (.ascii 'a' 'v' 'c' '1', .ascii 'a' 'v' 'c' 'C')
  | .h265 => some (.ascii 'h' 'e' 'v' '1', .ascii 'h' 'v' 'c' 'C')
  | _ => none

/-- The sample entry of a video stream: the picture size, 72 dots per inch, one frame a sample,
no compressor name, and the decoder configuration unless it is empty. -/
def videoSampleEntry (entry config : FourCC) (format : VideoFormat) : Box :=
  .mk entry
    (zeros 6 ++ word16 1 ++ zeros 16 ++ word16 (Saturating.toUInt16 format.width.toNat)
      ++ word16 (Saturating.toUInt16 format.height.toNat) ++ word32 0x00480000 ++ word32 0x00480000
      ++ word32 0 ++ word16 1 ++ zeros 32 ++ word16 0x0018 ++ word16 0xFFFF)
    (if format.decoderConfig.isEmpty then [] else [.leaf config format.decoderConfig])

def defaultAudioBitrate : UInt32 := 128000

/-- The elementary stream descriptor of an AAC stream. -/
def audioDescriptor (track : UInt32) (format : AudioFormat) : Descriptor :=
  let bitrate :=
    if format.bitrate = 0 then defaultAudioBitrate else Saturating.toUInt32 format.bitrate.toNat
  .mk 0x03 (word16 (Saturating.toUInt16 track.toNat) ++ [0])
    [.mk 0x04 ([0x40, 0x15] ++ zeros 3 ++ word32 bitrate ++ word32 bitrate)
      [.mk 0x05 format.decoderConfig []],
     .mk 0x06 [0x02] []]

/-- `esds`. -/
def elementaryStream (track : UInt32) (format : AudioFormat) : Box :=
  .leaf (.ascii 'e' 's' 'd' 's') (Box.versioned 0 0 (audioDescriptor track format).encode)

/-- The sample entry of an AAC stream: 16 bit samples at a 16.16 fixed point rate. -/
def audioSampleEntry (track : UInt32) (format : AudioFormat) : Box :=
  .mk (.ascii 'm' 'p' '4' 'a')
    (zeros 6 ++ word16 1 ++ zeros 8 ++ word16 format.channels ++ word16 16 ++ zeros 4
      ++ word16 (Saturating.toUInt16 format.sampleRate.toNat) ++ word16 0)
    [elementaryStream track format]

/-! ## Tracks -/

def emptyTable (type : FourCC) : Box := .leaf type (Box.versioned 0 0 (word32 0))

/-- `stts`, `stsc`, `stsz` and `stco` without entries; the samples are in the fragments. -/
def emptySampleTables : List Box :=
  [emptyTable (.ascii 's' 't' 't' 's'), emptyTable (.ascii 's' 't' 's' 'c'),
   .leaf (.ascii 's' 't' 's' 'z') (Box.versioned 0 0 (zeros 8)),
   emptyTable (.ascii 's' 't' 'c' 'o')]

/-- `trak` around a header, a kind of media and a sample description. -/
def track (header : Box) (timescale : UInt32) (kind : FourCC) (name : String)
    (mediaInformation description : Box) : Box :=
  .container (.ascii 't' 'r' 'a' 'k')
    [header,
     .container (.ascii 'm' 'd' 'i' 'a')
      [mediaHeader timescale,
       handler kind (name.toList.map fun c => c.val.toUInt8),
       .container (.ascii 'm' 'i' 'n' 'f')
        [mediaInformation, dataInformation,
         .container (.ascii 's' 't' 'b' 'l') (sampleDescription description :: emptySampleTables)]]]

namespace TrackBox

/-- `trak` of a video stream; only H.264 and H.265 have a sample entry. -/
def video? (id timescale : UInt32) (format : VideoFormat) : Except Error Box :=
  match videoEntryTypes? format.codec with
  | none => .error (.unsupportedCodec format.codec.name)
  | some (entry, config) =>
    .ok <| track (trackHeader id true format.width format.height) timescale
      (.ascii 'v' 'i' 'd' 'e') "VideoHandler" videoMediaHeader
      (videoSampleEntry entry config format)

/-- `trak` of an audio stream; only AAC has a sample entry. -/
def audio? (id timescale : UInt32) (format : AudioFormat) : Except Error Box :=
  if format.codec = .aac then
    .ok <| track (trackHeader id false 0 0) timescale (.ascii 's' 'o' 'u' 'n') "SoundHandler"
      soundMediaHeader (audioSampleEntry id format)
  else .error (.unsupportedCodec format.codec.name)

end TrackBox

/-! ## The movie -/

/-- `trex`: sample description 1, all other defaults 0. -/
def trackExtends (track : UInt32) : Box :=
  .leaf (.ascii 't' 'r' 'e' 'x') (Box.versioned 0 0 (word32 track ++ word32 1 ++ zeros 12))

def movieExtends (tracks : List UInt32) : Box :=
  .container (.ascii 'm' 'v' 'e' 'x') (tracks.map trackExtends)

def movieTimescale : UInt32 := 1000

/-- One more than the largest track, 1 without tracks. -/
def nextTrackId (tracks : List UInt32) : UInt32 :=
  tracks.foldl (fun next id => max next (id + 1)) (if tracks.isEmpty then 1 else 0)

/-- The bytes of `moov` around encoded track boxes. -/
def movieFrame (tracks : List (UInt32 × Bytes)) : Bytes :=
  let ids := tracks.map (·.1)
  frame (.ascii 'm' 'o' 'o' 'v')
    ((movieHeader movieTimescale (nextTrackId ids)).encode
      ++ (tracks.flatMap (·.2) ++ (movieExtends ids).encode))

def movie (tracks : List (UInt32 × Box)) : Box :=
  let ids := tracks.map (·.1)
  .container (.ascii 'm' 'o' 'o' 'v')
    (movieHeader movieTimescale (nextTrackId ids) :: (tracks.map (·.2) ++ [movieExtends ids]))

theorem encode_movie (tracks : List (UInt32 × Box)) :
    (movie tracks).encode = movieFrame (tracks.map fun t => (t.1, t.2.encode)) := by
  simp [movie, movieFrame, Box.container, Box.encode_mk, Box.encodeAll_eq_flatMap,
    List.flatMap_map, Function.comp_def]

end LiveHls.Mp4
