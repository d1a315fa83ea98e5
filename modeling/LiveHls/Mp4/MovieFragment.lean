import LiveHls.Mp4.Movie

/-!
# The boxes of a movie fragment

A fragment describes one run of samples per track and is followed by the sample data.

* `SegmentIndex` (`sidx`), `MovieFragment` (`moof`) and its parts `TrackFragmentHeader` (`tfhd`),
  `DecodeTime` (`tfdt`), `TrackRun` (`trun`);
* `TrackFragment.ofSamples` : the track fragment of a run, with the fields that all samples share
  stated once as defaults;
* `MovieFragment.write` : the streaming writer, which keeps where the data offset of each run
  stands; `MovieFragment.offsetPositions` : the same positions, counted in the encoded box;
* `mediaDataHeader` : the header of `mdat`.
-/

namespace LiveHls.Mp4

open Bytes (word16 word32 word64 int32 zeros)

/-- `styp`. -/
def segmentType : Box := .leaf (.ascii 's' 't' 'y' 'p') brands

/-! ## Samples -/

/-- One sample as a run describes it, its duration in ticks. -/
structure Sample where
  duration : UInt32
  size : UInt32
  flags : UInt32
deriving DecidableEq, Repr

namespace Sample

def dependentFlags : UInt32 := 0x01010000

def independentFlags : UInt32 := 0x02000000

end Sample

/-! ## Segment index -/

/-- An index with one reference, to the media that follows. -/
structure SegmentIndex where
  track : UInt32
  timescale : UInt32
  earliestTime : UInt64
  /-- Bytes of media; a 31-bit field. -/
  size : UInt32
  duration : UInt32
deriving DecidableEq, Repr

/-- `sidx`, version 1: one reference of type media that starts with a stream access point. -/
def SegmentIndex.box (x : SegmentIndex) : Box :=
  .leaf (.ascii 's' 'i' 'd' 'x') <| Box.versioned 1 0 <|
    word32 x.track ++ word32 x.timescale ++ word64 x.earliestTime ++ word64 0 ++ word16 0
      ++ word16 1 ++ word32 (x.size &&& 0x7FFFFFFF) ++ word32 x.duration ++ word32 0x80000000

/-! ## Track fragments -/

/-- `mfhd`. -/
def fragmentHeader (sequence : UInt32) : Box :=
  .leaf (.ascii 'm' 'f' 'h' 'd') (Box.versioned 0 0 (word32 sequence))

def hasFlag (flags flag : UInt32) : Bool := flags &&& flag != 0

def whenFlag (flags flag : UInt32) (bytes : Bytes) : Bytes :=
  if hasFlag flags flag then bytes else []

/-- The defaults of a track fragment; the flags say which of them are written. -/
structure TrackFragmentHeader where
  track : UInt32
  flags : UInt32
  duration : UInt32
  size : UInt32
  sampleFlags : UInt32
deriving DecidableEq, Repr

namespace TrackFragmentHeader

def defaultDuration : UInt32 := 0x000008
def defaultSize : UInt32 := 0x000010
def defaultFlags : UInt32 := 0x000020

/-- Data offsets count from the start of `moof`. -/
def baseIsMoof : UInt32 := 0x020000

/-- `tfhd`. -/
def box (h : TrackFragmentHeader) : Box :=
  .leaf (.ascii 't' 'f' 'h' 'd') <| Box.versioned 0 h.flags <|
    word32 h.track ++ whenFlag h.flags defaultDuration (word32 h.duration)
      ++ whenFlag h.flags defaultSize (word32 h.size)
      ++ whenFlag h.flags defaultFlags (word32 h.sampleFlags)

end TrackFragmentHeader

/-- `tfdt`, version 1: the decode time of the first sample in ticks. -/
def decodeTime (ticks : UInt64) : Box :=
  .leaf (.ascii 't' 'f' 'd' 't') (Box.versioned 1 0 (word64 ticks))

/-- A run of samples; the flags say which fields are written. -/
structure TrackRun where
  flags : UInt32
  dataOffset : Int32
  firstSampleFlags : UInt32
  samples : List Sample
deriving DecidableEq

namespace TrackRun

def hasDataOffset : UInt32 := 0x000001
def hasFirstSampleFlags : UInt32 := 0x000004
def hasDurations : UInt32 := 0x000100
def hasSizes : UInt32 := 0x000200
def hasSampleFlags : UInt32 := 0x000400

def sampleFields (flags : UInt32) (s : Sample) : Bytes :=
  whenFlag flags hasDurations (word32 s.duration) ++ whenFlag flags hasSizes (word32 s.size)
    ++ whenFlag flags hasSampleFlags (word32 s.flags)

/-- `trun`. -/
def box (r : TrackRun) : Box :=
  .leaf (.ascii 't' 'r' 'u' 'n') <| Box.versioned 0 r.flags <|
    word32 (Saturating.toUInt32 r.samples.length)
      ++ whenFlag r.flags hasDataOffset (int32 r.dataOffset)
      ++ whenFlag r.flags hasFirstSampleFlags (word32 r.firstSampleFlags)
      ++ r.samples.flatMap (sampleFields r.flags)

/-- Bytes of the box in front of the data offset: header, version and flags, sample count. -/
def offsetDistance : Nat := 16

end TrackRun

/-- The run of one track. -/
structure TrackFragment where
  header : TrackFragmentHeader
  time : UInt64
  run : TrackRun
deriving DecidableEq

namespace TrackFragment

/-- The track fragment of `samples`. Duration and size of the first sample are the defaults, and so
are the flags of the second (of the first, if it is alone): a run that opens with an independent
sample marks only that one. The run states what differs from the defaults. -/
def ofSamples (track : UInt32) (time : UInt64) (samples : List Sample) : TrackFragment :=
  let first := samples.head?.getD ⟨0, 0, Sample.dependentFlags⟩
  let flags := (samples[1]?.map (·.flags)).getD first.flags
  let mark (condition : Bool) (flag : UInt32) : UInt32 := if condition then flag else 0
  { header :=
      { track
        flags :=
          TrackFragmentHeader.defaultDuration ||| TrackFragmentHeader.defaultSize
            ||| TrackFragmentHeader.defaultFlags ||| TrackFragmentHeader.baseIsMoof
        duration := first.duration
        size := first.size
        sampleFlags := flags }
    time
    run :=
      { flags :=
          TrackRun.hasDataOffset
            ||| mark (first.flags != flags) TrackRun.hasFirstSampleFlags
            ||| mark (samples.any (·.duration != first.duration)) TrackRun.hasDurations
            ||| mark (samples.any (·.size != first.size)) TrackRun.hasSizes
            ||| mark (samples.tail.any (·.flags == Sample.independentFlags)) TrackRun.hasSampleFlags
        dataOffset := 0
        firstSampleFlags := first.flags
        samples } }

def boxesBeforeRun (f : TrackFragment) : List Box := [f.header.box, decodeTime f.time]

/-- `traf`. -/
def box (f : TrackFragment) : Box :=
  .container (.ascii 't' 'r' 'a' 'f') (f.boxesBeforeRun ++ [f.run.box])

/-- Where the data offset stands, for a box that starts at `start`. -/
def offsetPosition (f : TrackFragment) (start : Nat) : Nat :=
  start + headerLength + (Box.encodeAll f.boxesBeforeRun).length + TrackRun.offsetDistance

def withOffset (f : TrackFragment) (offset : Int32) : TrackFragment :=
  { f with run := { f.run with dataOffset := offset } }

/-- Write the box behind `buffer`, and keep the position of the data offset of its run: a fixed
distance behind the boxes before the run. -/
def write (buffer : Bytes) (f : TrackFragment) : Bytes × Nat :=
  let front := Box.writeAll (openBox buffer (.ascii 't' 'r' 'a' 'f')) f.boxesBeforeRun
  (closeBox (f.run.box.write front) buffer.length, front.length + TrackRun.offsetDistance)

end TrackFragment

/-! ## Movie fragments -/

/-- The runs of a fragment, at most one a track. -/
structure MovieFragment where
  sequence : UInt32
  tracks : List TrackFragment
deriving DecidableEq

namespace MovieFragment

/-- `moof`. -/
def box (m : MovieFragment) : Box :=
  .container (.ascii 'm' 'o' 'o' 'f') (fragmentHeader m.sequence :: m.tracks.map (·.box))

def positionsFrom (start : Nat) : List TrackFragment → List Nat
  | [] => []
  | f :: fs => f.offsetPosition start :: positionsFrom (start + f.box.encode.length) fs

/-- Where the data offset of each run stands, for a box that starts at `start`. -/
def offsetPositions (m : MovieFragment) (start : Nat) : List Nat :=
  positionsFrom (start + headerLength + (fragmentHeader m.sequence).encode.length) m.tracks

/-- Write the boxes of track fragments one behind the other. -/
def writeTracks (buffer : Bytes) : List TrackFragment → Bytes × List Nat
  | [] => (buffer, [])
  | f :: fs =>
    let written := f.write buffer
    let rest := writeTracks written.1 fs
    (rest.1, written.2 :: rest.2)

/-- Write the box behind `buffer`, and keep the positions of the data offsets. -/
def write (buffer : Bytes) (m : MovieFragment) : Bytes × List Nat :=
  let opened := openBox buffer (.ascii 'm' 'o' 'o' 'f')
  let written := writeTracks ((fragmentHeader m.sequence).write opened) m.tracks
  (closeBox written.1 buffer.length, written.2)

/-- The runs with their data one after the other from `offset`, each of the given size. -/
def placeRuns (offset : Nat) : List (TrackFragment × Nat) → List TrackFragment
  | [] => []
  | (f, size) :: rest =>
    f.withOffset (Saturating.toInt32 offset) :: placeRuns (offset + size) rest

end MovieFragment

/-! ## Media data -/

/-- The header of `mdat` around `size` bytes, with a 64-bit size where 32 bits do not hold it. -/
def mediaDataHeader (size : Nat) : Bytes :=
  let type := (FourCC.ascii 'm' 'd' 'a' 't').bytes
  if size + 8 > 0xFFFFFFFF then word32 1 ++ type ++ Bytes.bigEndian 8 (size + 16)
  else Bytes.bigEndian 4 (size + 8) ++ type

end LiveHls.Mp4
