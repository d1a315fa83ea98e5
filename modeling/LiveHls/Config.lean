import LiveHls.Rendition.Basic

/-!
# Configuration

The settings of the packager and of its test pattern, with their defaults.

* `Config.invalid?` : the first reason why a configuration is refused, with its text
  (`Config.Invalid.message`);
* `PackagerSettings.options` : the settings as options of a rendition.
-/

namespace LiveHls

/-- Settings of the packager; times are in milliseconds. -/
structure PackagerSettings where
  /-- First component of every rendition's path. -/
  writerId : UInt32
  segmentMillis : UInt64
  partMillis : UInt64
  partTargetMillis : UInt64
  segmentCount : UInt64
  /-- How long a read waits. -/
  readTimeoutMillis : UInt64
  queueCapacity : UInt64
deriving DecidableEq, Repr

namespace PackagerSettings

def default : PackagerSettings where
  writerId := 0
  segmentMillis := 2000
  partMillis := 495
  partTargetMillis := 500
  segmentCount := 6
  readTimeoutMillis := 3000
  queueCapacity := 256

def options (s : PackagerSettings) : Options where
  segmentDuration := .ofMillis s.segmentMillis
  partDuration := .ofMillis s.partMillis
  partTarget := .ofMillis s.partTargetMillis
  segmentCount := s.segmentCount.toNat

end PackagerSettings

/-- Settings of the test pattern: one source per resolution. -/
structure PatternSettings where
  resolutions : List (UInt32 × UInt32)
  fps : UInt32
  /-- Frames from one keyframe to the next. -/
  gop : UInt32
  /-- Whether each source has an audio stream. -/
  audio : Bool
deriving DecidableEq, Repr

namespace PatternSettings

def default : PatternSettings where
  resolutions := [(1280, 720), (640, 360)]
  fps := 30
  gop := 30
  audio := false

end PatternSettings

structure Config where
  packager : PackagerSettings
  pattern : PatternSettings
deriving DecidableEq, Repr

namespace Config

def default : Config := ⟨.default, .default⟩

/-- Why a configuration is refused. -/
inductive Invalid where
  | segmentDurationZero
  | partDurationZero
  | partExceedsSegment (part segment : UInt64)
  | segmentCountZero
  | queueCapacityZero
  | cadenceZero
deriving DecidableEq, Repr

def Invalid.message : Invalid → String
  | segmentDurationZero => "hls.segment_duration_ms cannot be 0"
  | partDurationZero => "hls.fragment_duration_ms cannot be 0"
  | partExceedsSegment part segment =>
    "hls.fragment_duration_ms (" ++ toString part.toNat
      ++ ") exceeds hls.segment_duration_ms (" ++ toString segment.toNat ++ ")"
  | segmentCountZero => "hls.segment_count must be at least 1"
  | queueCapacityZero => "hls.channel_size must be at least 1"
  | cadenceZero => "simulate.fps and simulate.gop must be positive"

/-- The first reason for which a configuration is refused, if there is one. -/
def invalid? (c : Config) : Option Invalid :=
  let p := c.packager
  if p.segmentMillis = 0 then some .segmentDurationZero
  else if p.partMillis = 0 then some .partDurationZero
  else if p.segmentMillis < p.partMillis then
    some (.partExceedsSegment p.partMillis p.segmentMillis)
  else if p.segmentCount = 0 then some .segmentCountZero
  else if p.queueCapacity = 0 then some .queueCapacityZero
  else if c.pattern.fps = 0 ∨ c.pattern.gop = 0 then some .cadenceZero
  else none

end Config

end LiveHls
