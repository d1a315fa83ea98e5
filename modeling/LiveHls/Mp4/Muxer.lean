import LiveHls.Mp4.Track

/-!
# The fragmented MP4 muxer

A muxer has at most one video and one audio track. Packets are collected with `Muxer.write` and
come out as `styp`, one `sidx` per track that has packets, `moof` and `mdat` with
`Muxer.fragment`.

* `Muxer.ofFormat?` : the muxer of a source, refused if a stream cannot be carried;
* `Muxer.initialization` : `ftyp` and `moov`;
* `Muxer.write` : fails for a medium without a track and for a total duration out of range.
-/

namespace LiveHls.Mp4

/-- The tracks of a rendition. -/
structure Muxer where
  video : Option Track
  audio : Option Track

namespace Muxer

/-- The video track of a source, which is always track 1. -/
def videoTrack? (format : VideoFormat) : Except Error Track :=
  if format.codec.isVideo then (TrackLayout.video? 1 format).map .empty
  else .error (.unsupportedCodec format.codec.name)

/-- The muxer of a source. Track ids are consecutive from 1, video first. -/
def ofFormat? (format : SourceFormat) : Except Error Muxer :=
  if format.isEmpty then .error .noCodecData
  else do
    let video ← format.video.mapM videoTrack?
    let audio ← format.audio.mapM fun f =>
      (TrackLayout.audio? (if video.isSome then 2 else 1) f).map .empty
    return ⟨video, audio⟩

def hasVideo (m : Muxer) : Bool := m.video.isSome

def hasAudio (m : Muxer) : Bool := m.audio.isSome

def accepts (m : Muxer) (p : Packet) : Bool := if p.isVideo then m.hasVideo else m.hasAudio

def reset (m : Muxer) : Muxer := ⟨m.video.map .reset, m.audio.map .reset⟩

def tracks (m : Muxer) : List Track := m.video.toList ++ m.audio.toList

def initializationBoxes (m : Muxer) : List Box :=
  [fileType, movie (m.tracks.map fun t => (t.layout.id, t.layout.box))]

def initialization (m : Muxer) : Bytes := Box.encodeAll m.initializationBoxes

/-- Collect a packet in the track of its medium. -/
def write (m : Muxer) (p : Packet) : Except Fault Muxer :=
  match if p.isVideo then m.video else m.audio with
  | none => .error (.error (.trackMissing p.kind))
  | some track =>
    match track.push p with
    | none => .error .durationOverflow
    | some track =>
      .ok (if p.isVideo then { m with video := some track } else { m with audio := some track })

def activeTracks (m : Muxer) : List Track := m.tracks.filter (!·.isEmpty)

def dataSize (m : Muxer) : Nat := m.activeTracks.foldl (fun n t => n + t.dataSize) 0

/-- The fragment's description. Each track's data follows that of the track before it, the first
right behind the header of `mdat`; data offsets count from the start of `moof`. -/
def movieFragment (m : Muxer) (sequence : UInt32) : MovieFragment :=
  let runs := m.activeTracks.map fun t => (t.fragment, t.dataSize)
  let described : MovieFragment := ⟨sequence, runs.map (·.1)⟩
  { described with
    tracks := MovieFragment.placeRuns
      (described.box.encode.length + (mediaDataHeader m.dataSize).length) runs }

/-- Everything collected so far as a fragment. -/
def fragment (m : Muxer) (sequence : UInt32) : Bytes :=
  segmentType.encode ++ Box.encodeAll (m.activeTracks.map (·.index.box))
    ++ (m.movieFragment sequence).box.encode
    ++ mediaDataHeader m.dataSize
    ++ m.activeTracks.flatMap (·.data)

end Muxer

end LiveHls.Mp4
