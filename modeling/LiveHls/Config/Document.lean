import LiveHls.Config
import LiveHls.Toml.Document

/-!
# Configuration documents

A configuration is written as a TOML document with a section for the packager and one for the test
pattern. Every setting may be left out, and keys that are not settings are ignored.

* `Config.parse` : the configuration of a document (`Config.ParseError` says why there is none).
-/

namespace LiveHls

inductive Config.ParseError where
  /-- It is not TOML, or a setting has the wrong type or is out of range. -/
  | malformed
  | invalid (reason : Config.Invalid)
deriving DecidableEq, Repr

namespace Toml

/-- The settings of a section: those of a table by name, those of an array by position. A date is
accepted as a section without settings. -/
def Item.settings? (names : List String) : Item → Option (List (Option Item))
  | .table t | .value (.inlineTable t) => some (names.map t.get?)
  | .value (.array vs) => some (names.zipIdx.map fun (_, i) => (vs[i]?).map .value)
  | .tables ts => some (names.zipIdx.map fun (_, i) => (ts[i]?).map .table)
  | .value .dateTime => some (names.map fun _ => none)
  | .value _ => none

def Item.nat? : Item → Option Nat
  | .value (.integer n) => if 0 ≤ n then some n.toNat else none
  | _ => none

def Item.uint32? (i : Item) : Option UInt32 :=
  i.nat?.bind fun n => if n < UInt32.size then some (UInt32.ofNat n) else none

/-- Integers of a document have a sign, so they leave room in 64 bits. -/
def Item.uint64? (i : Item) : Option UInt64 := i.nat?.map UInt64.ofNat

def Item.bool? : Item → Option Bool
  | .value (.boolean b) => some b
  | _ => none

/-- Width and height: the first two numbers of an array. -/
def Value.resolution? : Value → Option (UInt32 × UInt32)
  | .array (w :: h :: _) => do return (← (Item.value w).uint32?, ← (Item.value h).uint32?)
  | _ => none

def Item.resolutions? : Item → Option (List (UInt32 × UInt32))
  | .value (.array vs) => vs.mapM Value.resolution?
  | _ => none

/-- A setting, or its default if it is left out; none if it is there and wrong. -/
def setting {α : Type} (read : Item → Option α) (item : Option Item) (default : α) : Option α :=
  match item with
  | none => some default
  | some i => read i

end Toml

namespace PackagerSettings

def names : List String :=
  ["writer_id", "segment_duration_ms", "fragment_duration_ms", "part_target_ms", "segment_count",
    "read_timeout_ms", "channel_size"]

def ofItem? (item : Toml.Item) : Option PackagerSettings := do
  match ← item.settings? names with
  | [writerId, segment, part, target, count, timeout, capacity] =>
    return {
      writerId := ← Toml.setting Toml.Item.uint32? writerId default.writerId
      segmentMillis := ← Toml.setting Toml.Item.uint64? segment default.segmentMillis
      partMillis := ← Toml.setting Toml.Item.uint64? part default.partMillis
      partTargetMillis := ← Toml.setting Toml.Item.uint64? target default.partTargetMillis
      segmentCount := ← Toml.setting Toml.Item.uint64? count default.segmentCount
      readTimeoutMillis := ← Toml.setting Toml.Item.uint64? timeout default.readTimeoutMillis
      queueCapacity := ← Toml.setting Toml.Item.uint64? capacity default.queueCapacity }
  | _ => none

end PackagerSettings

namespace PatternSettings

def names : List String := ["resolutions", "fps", "gop", "audio"]

def ofItem? (item : Toml.Item) : Option PatternSettings := do
  match ← item.settings? names with
  | [resolutions, fps, gop, audio] =>
    return {
      resolutions := ← Toml.setting Toml.Item.resolutions? resolutions default.resolutions
      fps := ← Toml.setting Toml.Item.uint32? fps default.fps
      gop := ← Toml.setting Toml.Item.uint32? gop default.gop
      audio := ← Toml.setting Toml.Item.bool? audio default.audio }
  | _ => none

end PatternSettings

namespace Config

def ofTable? (t : Toml.Table) : Option Config := do
  return {
    packager := ← Toml.setting PackagerSettings.ofItem? (t.get? "hls") .default
    pattern := ← Toml.setting PatternSettings.ofItem? (t.get? "simulate") .default }

def parse (text : String) : Except ParseError Config :=
  match (Toml.parse? text).bind ofTable? with
  | none => .error .malformed
  | some c =>
    match c.invalid? with
    | some reason => .error (.invalid reason)
    | none => .ok c

end Config

end LiveHls
