/-!
# Errors

`Error` lists the causes for which an operation is refused, with the text shown to a client
(`message`), the HTTP status it is answered with (`status`) and whether asking again may help
(`isRetryable`). `Fault` adds the one failure that is not an answer: a duration that leaves its
range.
-/

namespace LiveHls

inductive Error where
  | unsupportedCodec (what : String)
  | noCodecData
  | emptyPacket (source : String)
  | trackMissing (medium : String)
  | notFound (entity id : String)
  | timeout (what : String)
  | cancelled
  | closed
  | renditionUnavailable (source : String)
  | config (what : String)
  | storage (what : String)
deriving DecidableEq, Repr

namespace Error

def message : Error → String
  | unsupportedCodec what => "Unsupported codec: " ++ what
  | noCodecData => "No codec data"
  | emptyPacket source => "Empty packet from " ++ source
  | trackMissing medium => "No " ++ medium ++ " track in rendition"
  | notFound entity id => entity ++ " not found: " ++ id
  | timeout what => "Timed out waiting for " ++ what
  | cancelled => "Cancelled"
  | closed => "Rendition closed"
  | renditionUnavailable source => "Rendition unavailable: " ++ source
  | config what => "Invalid configuration: " ++ what
  | storage what => "IO error: " ++ what

def status : Error → Nat
  | notFound _ _ => 404
  | timeout _ => 504
  | cancelled => 499
  | closed | renditionUnavailable _ => 503
  | unsupportedCodec _ => 415
  | noCodecData | emptyPacket _ | trackMissing _ | config _ => 400
  | storage _ => 500

def isRetryable : Error → Bool
  | timeout _ | closed => true
  | _ => false

end Error

/-- Why an operation did not finish: an error that is answered, or a sum of durations beyond the
range of `Duration`, which stops the operation where it stands. -/
inductive Fault where
  | error (e : Error)
  | durationOverflow
deriving DecidableEq, Repr

end LiveHls
