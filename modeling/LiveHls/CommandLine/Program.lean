import LiveHls.CommandLine.Arguments
import LiveHls.Config.Document
import LiveHls.Export
import LiveHls.Packager
import LiveHls.TestPattern
import LiveHls.Text.Quoted

/-!
# The program

`run` carries out an invocation in any environment: the file operations, the time of day and the
passing of time are parameters.

* `loadConfig`, `loadConfigOrDefault` : the configuration of a file, or of the first default file
  that exists;
* `simulate` : packages the test pattern second by second and exports the result;
* `Outcome` : exit code, output, and the error that ended the program.
-/

namespace LiveHls.CommandLine

/-- What the program needs of its surroundings. -/
structure Environment (m : Type → Type) where
  storage : Storage m
  now : m Instant
  /-- Let a second pass. -/
  pause : m Unit
  home : String

/-- How the program ended. -/
structure Outcome where
  code : Nat
  stdout : String
  error : Option String
deriving DecidableEq, Repr

def versionLine : String := "llhls 0.1.0\n"

def helpText : String :=
  "Live low-latency HLS packager\n\nUsage: llhls [OPTIONS] <COMMAND>\n\nCommands:\n"
    ++ "  simulate  Package synthetic streams and write the result to a directory\n"
    ++ "  validate  Validate configuration file\n  version   Display version information\n"
    ++ "  help      Print this message or the help of the given subcommand(s)\n\nOptions:\n"
    ++ "  -c, --config <CONFIG>  Path to config file\n"
    ++ "  -v, --verbose          Enable verbose logging\n"
    ++ "  -h, --help             Print help\n  -V, --version          Print version\n"

variable {m : Type → Type} [Monad m]

/-! ## Configuration -/

def loadConfig (env : Environment m) (path : String) : m (Except String Config) := do
  match ← env.storage.readText path with
  | none => return .error ("Failed to read config file: " ++ Text.quote path)
  | some text =>
    match Config.parse text with
    | .ok c => return .ok c
    | .error _ => return .error ("Failed to parse config file: " ++ Text.quote path)

/-- The files that hold a configuration if none is named. -/
def defaultPaths (home : String) : List String :=
  ["./llhls.toml", joinPath home ".config/llhls/config.toml", "/etc/llhls/config.toml"]

/-- The configuration of the first file that exists, or the default. -/
def loadFirst (env : Environment m) : List String → m (Except String Config)
  | [] => return .ok .default
  | path :: rest => do
    if ← env.storage.pathExists path then loadConfig env path else loadFirst env rest

/-- The configuration of the named file, or of a default file, or the default. -/
def loadConfigOrDefault (env : Environment m) : Option String → m (Except String Config)
  | some path => loadConfig env path
  | none => loadFirst env (defaultPaths env.home)

/-! ## Simulation -/

/-- Send the packets of `remaining` seconds, the first of them ending at `second`. Time passes
between them only if asked for. -/
def feed (env : Environment m) (realtime : Bool) :
    Nat → Nat → TestPattern → Packager → m (Except String Packager)
  | 0, _, _, p => return .ok p
  | remaining + 1, second, pattern, p => do
    match pattern.takeUntil (.ofSeconds (UInt64.ofNat second)) with
    | none => return .error "The frames of the test pattern have no duration"
    | some (packets, pattern) =>
      let (p, accepted) := p.sendPackets (← env.now) packets
      if accepted < packets.length then return .error Error.closed.message
      if realtime then env.pause
      feed env realtime remaining (second + 1) pattern p

/-- The lines that say what was exported. -/
def exportReport (output : String) (s : Export.Summary) : String :=
  "Wrote " ++ Text.quote (joinPath output Export.masterFile) ++ "\n  Renditions: "
    ++ toString s.renditions ++ "\n  Segments: " ++ toString s.segments ++ "\n  Parts: "
    ++ toString s.parts ++ "\n"

def simulate (env : Environment m) (config : Option String) (output : String) (seconds : Nat)
    (realtime audio : Bool) : m Outcome := do
  match ← loadConfigOrDefault env config with
  | .error e => return ⟨1, "", some e⟩
  | .ok c =>
    let pattern := TestPattern.new { c.pattern with audio := c.pattern.audio || audio }
    match ← feed env realtime seconds 1 pattern (.start c.packager) with
    | .error e => return ⟨1, "", some e⟩
    | .ok p =>
      let (p, _) := p.flush (← env.now)
      match ← Export.run env.storage output p.catalog with
      | .error _ => return ⟨1, "", some ("Failed to write output to " ++ Text.quote output)⟩
      | .ok summary => return ⟨0, exportReport output summary, none⟩

/-! ## Validation -/

def configReport (c : Config) : String :=
  let p := c.packager
  "  Writer id: " ++ toString p.writerId.toNat
    ++ "\n  Segment duration: " ++ toString p.segmentMillis.toNat ++ " ms"
    ++ "\n  Fragment duration: " ++ toString p.partMillis.toNat ++ " ms"
    ++ "\n  Part target: " ++ toString p.partTargetMillis.toNat ++ " ms"
    ++ "\n  Segments retained: " ++ toString p.segmentCount.toNat
    ++ "\n  Read timeout: " ++ toString p.readTimeoutMillis.toNat ++ " ms"
    ++ "\n  Simulated renditions: " ++ toString c.pattern.resolutions.length ++ "\n"

/-- Check a configuration; without a file the default is shown. -/
def validate (env : Environment m) : Option String → m Outcome
  | none =>
    return ⟨0, "No config file specified, using defaults\n" ++ configReport .default, none⟩
  | some path => do
    let head := "Validating config: " ++ Text.quote path ++ "\n"
    match ← loadConfig env path with
    | .ok c => return ⟨0, head ++ "✓ Configuration is valid\n" ++ configReport c, none⟩
    | .error e => return ⟨1, head, some e⟩

def run (env : Environment m) (args : List String) : m Outcome :=
  match parse args with
  | .error .usage => return ⟨2, "", none⟩
  | .error .help => return ⟨0, helpText, none⟩
  | .error .version => return ⟨0, versionLine, none⟩
  | .ok invocation =>
    match invocation.task with
    | .version => return ⟨0, versionLine, none⟩
    | .validate => validate env invocation.config
    | .simulate output seconds realtime audio =>
      simulate env invocation.config output seconds realtime audio

end LiveHls.CommandLine
