import LiveHls.Calendar
import LiveHls.Duration

/-!
# Lines of an index playlist

An index playlist is a list of `Line`s, each a tag or a URI of the low-latency profile of HTTP live
streaming. `Line.text` is the text of one line with its line end, `text` that of a playlist.

* `header` : the lines in front of the segments;
* `segmentTail` : the lines that end a closed segment.
-/

namespace LiveHls.Playlist

def mediaFile : String := "cubic.m4s"

def indexFile : String := "cubic.m3u8"

def initializationFile : String := "init.mp4"

def partUri (segment part : Nat) : String :=
  "fragment/" ++ toString segment ++ "/" ++ toString part ++ "/" ++ mediaFile

def segmentUri (segment : Nat) : String := "segment/" ++ toString segment ++ "/" ++ mediaFile

inductive Line where
  | playlist
  | version
  | targetDuration (seconds : UInt64)
  | serverControl (holdBack : Duration)
  | initialization
  | partTarget (target : Duration)
  | mediaSequence (first : Nat)
  | part (segment part : Nat) (duration : Duration) (independent : Bool)
  | preloadHint (segment part : Nat)
  | programDateTime (start : Instant)
  | segmentDuration (duration : Duration)
  | segment (id : Nat)
deriving DecidableEq

/-- The text of a line, with its line end. -/
def Line.text : Line → String
  | playlist => "#EXTM3U\n"
  | version => "#EXT-X-VERSION:7\n"
  | targetDuration seconds => "#EXT-X-TARGETDURATION:" ++ toString seconds.toNat ++ "\n"
  | serverControl holdBack =>
    "#EXT-X-SERVER-CONTROL:CAN-BLOCK-RELOAD=YES,PART-HOLD-BACK=" ++ holdBack.text ++ "\n"
  | initialization => "#EXT-X-MAP:URI=\"" ++ initializationFile ++ "\"\n"
  | partTarget target => "#EXT-X-PART-INF:PART-TARGET=" ++ target.text ++ "\n"
  | mediaSequence first => "#EXT-X-MEDIA-SEQUENCE:" ++ toString first ++ "\n"
  | part s f duration independent =>
    "#EXT-X-PART:DURATION=" ++ duration.text ++ (if independent then ",INDEPENDENT=YES" else "")
      ++ ",URI=\"" ++ partUri s f ++ "\"\n"
  | preloadHint s f => "#EXT-X-PRELOAD-HINT:TYPE=PART,URI=\"" ++ partUri s f ++ "\"\n"
  | programDateTime start => "#EXT-X-PROGRAM-DATE-TIME:" ++ start.text ++ "\n"
  | segmentDuration duration => "#EXTINF:" ++ duration.text ++ "\n"
  | segment id => segmentUri id ++ "\n"

def text (lines : List Line) : String := String.join (lines.map (·.text))

/-- The lines in front of the segments. The target duration is the configured one, rounded up. -/
def header (segmentDuration partTarget : Duration) (mediaSequence : Nat) : List Line :=
  [.playlist, .version, .targetDuration segmentDuration.ceilSeconds,
    .serverControl segmentDuration, .initialization, .partTarget partTarget,
    .mediaSequence mediaSequence]

/-- The lines that end a closed segment: when it started, how long it is and where it is. -/
def segmentTail (id : Nat) (startedAt : Instant) (duration : Duration) : List Line :=
  [.programDateTime startedAt, .segmentDuration duration, .segment id]

end LiveHls.Playlist
