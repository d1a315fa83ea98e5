import LiveHls.Config

/-!
# The test pattern

A test pattern is a set of endless streams, one video stream per resolution and one audio stream
beside it if asked for. Their packets come out merged by timestamp; among equal timestamps the
stream configured first comes first. Payloads are filler with the right framing.

* `Stream.timestamp`, `Stream.packet` : the next packet of one stream;
* `TestPattern.next?` : the next packet of all streams;
* `TestPattern.takeWithin`, `TestPattern.takeUntil` : all packets before a time, with and without a
  stated bound on their number.
-/

namespace LiveHls

namespace TestPattern

def sampleRate : UInt32 := 48000

def samplesPerFrame : Nat := 1024

/-- What a stream of the pattern carries. -/
inductive Medium where
  /-- Video with a keyframe every `gop` frames; other frames have `frameSize` bytes. -/
  | video (format : VideoFormat) (gop frameSize : Nat)
  | audio (format : AudioFormat)
deriving DecidableEq

/-- One endless stream. -/
structure Stream where
  url : String
  medium : Medium
  made : Nat
deriving DecidableEq

namespace Stream

/-- Nanoseconds from one video frame to the next, rounded down. -/
def frameNanos (format : VideoFormat) : Nat := nanosPerSecond / format.fps.toNat

def packetDuration (s : Stream) : Duration :=
  match s.medium with
  | .video format .. =>
    ⟨frameNanos format, by
      have := Nat.div_le_self nanosPerSecond format.fps.toNat
      unfold frameNanos nanosPerSecond UInt64.size at *
      omega⟩
  | .audio _ => ⟨samplesPerFrame * nanosPerSecond / sampleRate.toNat, by decide⟩

/-- The time of the next packet. Video frames are counted in 32 bits, audio samples in
nanoseconds of 64 bits, so audio does not drift from its sample clock. -/
def timestamp (s : Stream) : Duration :=
  match s.medium with
  | .video format .. =>
    ⟨frameNanos format * (s.made % UInt32.size), by
      have h := Nat.div_le_self nanosPerSecond format.fps.toNat
      have hm : s.made % UInt32.size ≤ UInt32.size := Nat.le_of_lt (Nat.mod_lt _ (by decide))
      have := Nat.mul_le_mul h hm
      unfold frameNanos nanosPerSecond UInt64.size UInt32.size at *
      omega⟩
  | .audio _ =>
    ⟨s.made * samplesPerFrame * nanosPerSecond % UInt64.size / sampleRate.toNat, by
      have hm := Nat.mod_lt (s.made * samplesPerFrame * nanosPerSecond)
        (show 0 < UInt64.size by decide)
      have := Nat.div_le_self (s.made * samplesPerFrame * nanosPerSecond % UInt64.size)
        sampleRate.toNat
      unfold nanosPerSecond UInt64.size at *
      omega⟩

/-- A unit of `size` bytes behind its length, filled with bytes that count up from `seed`. -/
def framedUnit (header : UInt8) (size seed : Nat) : Bytes :=
  let length := max size 2
  Bytes.bigEndian 4 length
    ++ header :: (List.range (length - 1)).map fun i => UInt8.ofNat (seed + i)

/-- Header byte of a unit that can be decoded on its own, and of one that cannot. -/
def keyframeHeader : UInt8 := 0x65
def dependentHeader : UInt8 := 0x41

/-- The next packet. A keyframe is four times as large as other frames. -/
def packet (s : Stream) : Packet :=
  match s.medium with
  | .video format gop frameSize =>
    let keyframe := s.made % gop == 0
    { timestamp := s.timestamp
      duration := s.packetDuration
      payload :=
        if keyframe then framedUnit keyframeHeader (frameSize * 4) s.made
        else framedUnit dependentHeader frameSize s.made
      source := s.url
      stream := 0
      medium := .video format keyframe }
  | .audio format =>
    { timestamp := s.timestamp
      duration := s.packetDuration
      payload := List.replicate (96 + s.made % 7) 0x21
      source := s.url
      stream := 1
      medium := .audio format }

def advance (s : Stream) : Stream := { s with made := s.made + 1 }

/-- A bound on the packets that the stream still makes before `limit`, if it ever reaches it. -/
def packetsBefore (s : Stream) (limit : Duration) : Nat :=
  match s.medium with
  | .video format .. => limit.nanos / frameNanos format + 1 - s.made
  | .audio _ =>
    limit.nanos * sampleRate.toNat / (samplesPerFrame * nanosPerSecond) + 2 - s.made

end Stream

end TestPattern

/-- The streams of a test pattern, in the order of their configuration. -/
structure TestPattern where
  streams : List TestPattern.Stream
deriving DecidableEq

namespace TestPattern

/-- Decoder configuration of the video streams: High profile, level 3.1, one sequence and one
picture parameter set. -/
def videoConfig : Bytes :=
  let sequenceSet : Bytes := [0x67, 0x64, 0x00, 0x1F, 0xAC, 0xD9, 0x40, 0x50]
  let pictureSet : Bytes := [0x68, 0xEB, 0xE3, 0xCB]
  [1] ++ (sequenceSet.drop 1).take 3 ++ [0xFF, 0xE1] ++ Bytes.bigEndian 2 sequenceSet.length
    ++ sequenceSet ++ [1] ++ Bytes.bigEndian 2 pictureSet.length ++ pictureSet

/-- Decoder configuration of the audio streams: AAC-LC, 48 kHz, two channels. -/
def audioConfig : Bytes := [0x11, 0x90]

def audioFormat : AudioFormat where
  codec := .aac
  sampleRate := sampleRate
  channels := 2
  bitrate := 128000
  decoderConfig := audioConfig

def streamsOf (settings : PatternSettings) (width height : UInt32) : List Stream :=
  let url := "synthetic://" ++ toString width.toNat ++ "x" ++ toString height.toNat
  let pixels := width.toNat * height.toNat
  let format : VideoFormat :=
    { codec := .h264
      width, height
      fps := max settings.fps 1
      bitrate := UInt64.ofNat (pixels * 2)
      decoderConfig := videoConfig }
  ⟨url, .video format (max settings.gop 1).toNat (max (pixels / 200) 64), 0⟩
    :: if settings.audio then [⟨url, .audio audioFormat, 0⟩] else []

def new (settings : PatternSettings) : TestPattern :=
  ⟨settings.resolutions.flatMap fun (width, height) => streamsOf settings width height⟩

/-- The sources in the order of their configuration; neighbours of one source count once. -/
def urls (p : TestPattern) : List String :=
  p.streams.foldl (fun urls s => if urls.getLast? = some s.url then urls else urls ++ [s.url]) []

/-- The position of the first stream whose next packet is earliest, with that stream. -/
def earliest? (p : TestPattern) : Option (Nat × Stream) :=
  p.streams.zipIdx.foldl
    (fun best (s, i) =>
      match best with
      | none => some (i, s)
      | some (j, t) => if s.timestamp < t.timestamp then some (i, s) else some (j, t))
    none

def advance (p : TestPattern) (i : Nat) : TestPattern := ⟨p.streams.modify i (·.advance)⟩

/-- The next packet; a pattern without streams has none. -/
def next? (p : TestPattern) : Option (Packet × TestPattern) :=
  p.earliest?.map fun (i, s) => (s.packet, p.advance i)

def take : Nat → TestPattern → List Packet × TestPattern
  | 0, p => ([], p)
  | count + 1, p =>
    match p.next? with
    | none => ([], p)
    | some (x, p) => let (xs, p) := take count p; (x :: xs, p)

/-- `takeWithin`, with the packets taken so far, newest first. -/
def takeOnto (limit : Duration) (taken : List Packet) :
    Nat → TestPattern → Option (List Packet × TestPattern)
  | 0, _ => none
  | bound + 1, p =>
    match p.earliest? with
    | none => some (taken.reverse, p)
    | some (i, s) =>
      if limit ≤ s.timestamp then some (taken.reverse, p)
      else takeOnto limit (s.packet :: taken) bound (p.advance i)

/-- All packets before `limit` if there are fewer than `bound`, and the pattern after them. -/
def takeWithin (p : TestPattern) (bound : Nat) (limit : Duration) :
    Option (List Packet × TestPattern) :=
  takeOnto limit [] bound p

/-- A bound on the packets before `limit`, if every stream reaches it. -/
def packetsBefore (p : TestPattern) (limit : Duration) : Nat :=
  p.streams.foldl (fun n s => n + s.packetsBefore limit) 0

/-- All packets before `limit`, and the pattern after them. There is no answer for a pattern with a
stream that never reaches the limit. -/
def takeUntil (p : TestPattern) (limit : Duration) : Option (List Packet × TestPattern) :=
  p.takeWithin (p.packetsBefore limit + 1) limit

end TestPattern

end LiveHls
