/-!
# Command line arguments

Arguments are read from left to right. Options before the subcommand belong to the program; options
behind it to the subcommand. An option is a long name behind two dashes, with its value behind an
equals sign or in the next argument, or a letter behind one dash, with its value behind it or in the
next argument; letters of options without a value may be joined. Two dashes alone end the options.

* `Flag` : the options, `Level.flags` those of each level;
* `Scan` : what has been read at one level;
* `parse` : the invocation that arguments ask for, or why there is none (`Refusal`).
-/

namespace LiveHls.CommandLine

inductive Flag where
  | config
  | verbose
  | output
  | seconds
  | realtime
  | audio
  | help
  | version
deriving DecidableEq, Repr

namespace Flag

def long : Flag → String
  | config => "config"
  | verbose => "verbose"
  | output => "output"
  | seconds => "seconds"
  | realtime => "realtime"
  | audio => "audio"
  | help => "help"
  | version => "version"

def letter? : Flag → Option Char
  | config => some 'c'
  | verbose => some 'v'
  | output => some 'o'
  | seconds => some 's'
  | help => some 'h'
  | version => some 'V'
  | realtime | audio => none

def takesValue : Flag → Bool
  | config | output | seconds => true
  | _ => false

end Flag

/-- Where options stand: before the subcommand or behind one. -/
inductive Level where
  | program
  | simulate
  | validate
  | version
deriving DecidableEq, Repr

namespace Level

/-- The options of a level. The configuration may be named behind every subcommand but `validate`,
which takes it as its own argument. -/
def flags : Level → List Flag
  | program => [.config, .verbose, .help, .version]
  | simulate => [.output, .seconds, .realtime, .audio, .config, .verbose, .help]
  | validate => [.verbose, .help]
  | version => [.config, .verbose, .help]

def ofName? (name : String) : Option Level :=
  if name = "simulate" then some .simulate
  else if name = "validate" then some .validate
  else if name = "version" then some .version
  else none

def ofLong? (level : Level) (name : String) : Option Flag := level.flags.find? (·.long = name)

def ofLetter? (level : Level) (c : Char) : Option Flag :=
  level.flags.find? (·.letter? = some c)

end Level

/-- Why arguments are not carried out. -/
inductive Refusal where
  | help
  | version
  | usage
deriving DecidableEq, Repr

structure Scan where
  seen : List Flag
  config : Option String
  output : Option String
  seconds : Option Nat
  operand : Option String
  pending : Option Flag
  ended : Bool
deriving DecidableEq, Repr

namespace Scan

def start : Scan := ⟨[], none, none, none, none, none, false⟩

/-- A number of 64 bits in decimal, with a plus sign or without. -/
def number? (text : String) : Option Nat :=
  let digits :=
    match text.toList with
    | '+' :: r => r
    | cs => cs
  let n := digits.foldl (fun n c => n * 10 + (c.toNat - '0'.toNat)) 0
  if !digits.isEmpty && digits.all Char.isDigit && n < UInt64.size then some n else none

/-- Note an option; none may be given twice. -/
def note (s : Scan) (f : Flag) : Except Refusal Scan :=
  if f = .help then .error .help
  else if f = .version then .error .version
  else if f ∈ s.seen then .error .usage
  else .ok { s with seen := s.seen ++ [f] }

/-- Note an option with its value. Paths are not empty. -/
def noteValue (s : Scan) (f : Flag) (text : String) : Except Refusal Scan := do
  let s ← { s with pending := none }.note f
  match f with
  | .seconds =>
    match number? text with
    | some n => return { s with seconds := some n }
    | none => throw .usage
  | .output => if text.isEmpty then throw .usage else return { s with output := some text }
  | _ => if text.isEmpty then throw .usage else return { s with config := some text }

/-- The letters behind one dash. The rest of the letters is the value of the first option that takes
one, behind an equals sign or without. -/
def letters (level : Level) (s : Scan) : List Char → Except Refusal Scan
  | [] => .ok s
  | c :: rest =>
    match level.ofLetter? c with
    | none => .error .usage
    | some f =>
      if f.takesValue then
        match rest with
        | [] => .ok { s with pending := some f }
        | '=' :: text => s.noteValue f (String.ofList text)
        | text => s.noteValue f (String.ofList text)
      else do
        let s ← s.note f
        letters level s rest

/-- The name behind two dashes, with its value if there is an equals sign. -/
def name (level : Level) (s : Scan) (text : List Char) : Except Refusal Scan :=
  let word := String.ofList (text.takeWhile (· != '='))
  match level.ofLong? word, text.dropWhile (· != '=') with
  | none, _ => .error .usage
  | some f, [] => if f.takesValue then .ok { s with pending := some f } else s.note f
  | some f, _ :: value =>
    if f.takesValue then s.noteValue f (String.ofList value) else .error .usage

/-- An argument that is not an option: only `validate` takes one. -/
def other (level : Level) (s : Scan) (text : String) : Except Refusal Scan :=
  if level = .validate && s.operand.isNone && !text.isEmpty then .ok { s with operand := some text }
  else .error .usage

/-- Whether an argument has the form of an option. -/
def isOption (text : String) : Bool :=
  match text.toList with
  | '-' :: _ :: _ => true
  | _ => false

def step (level : Level) (s : Scan) (text : String) : Except Refusal Scan :=
  if s.ended then s.other level text
  else
    match s.pending with
    | some f => if isOption text then .error .usage else s.noteValue f text
    | none =>
      match text.toList with
      | ['-', '-'] => .ok { s with ended := true }
      | '-' :: '-' :: r => s.name level r
      | '-' :: c :: r => s.letters level (c :: r)
      | _ => s.other level text

/-- What has been read when the arguments end: every option has its value. -/
def finish (s : Scan) : Except Refusal Scan :=
  if s.pending.isSome then .error .usage else .ok s

def all (level : Level) : Scan → List String → Except Refusal Scan
  | s, [] => s.finish
  | s, text :: rest => do
    let s ← s.step level text
    all level s rest

end Scan

/-- What the program is asked to do. -/
inductive Task where
  | simulate (output : String) (seconds : Nat) (realtime audio : Bool)
  | validate
  | version
deriving DecidableEq, Repr

/-- A task and the configuration to use for it. -/
structure Invocation where
  task : Task
  config : Option String
  verbose : Bool
deriving DecidableEq, Repr

/-- Where a simulation is exported to, and how many seconds it lasts, if nothing is said. -/
def defaultOutput : String := "llhls-out"
def defaultSeconds : Nat := 10

def taskOf (level : Level) (s : Scan) : Task :=
  match level with
  | .simulate =>
    .simulate (s.output.getD defaultOutput) (s.seconds.getD defaultSeconds)
      (s.seen.contains .realtime) (s.seen.contains .audio)
  | .validate => .validate
  | _ => .version

/-- The arguments behind `help`: at most the name of a subcommand. -/
def parseHelp : List String → Refusal
  | [] => .help
  | [name] => if (Level.ofName? name).isSome || name = "help" then .help else .usage
  | _ => .usage

/-- The arguments behind a subcommand. What it says itself goes before what was said in front of
it. -/
def parseTask (program : Scan) (level : Level) (args : List String) :
    Except Refusal Invocation := do
  let s ← Scan.all level .start args
  return {
    task := taskOf level s
    config := s.operand <|> s.config <|> program.config
    verbose := program.seen.contains .verbose || s.seen.contains .verbose }

/-- The arguments of the program, from those read so far on. A subcommand is due. -/
def parseFrom : Scan → List String → Except Refusal Invocation
  | _, [] => .error .usage
  | s, text :: rest =>
    if s.ended || s.pending.isSome then do
      let s ← s.step .program text
      parseFrom s rest
    else if text = "help" then .error (parseHelp rest)
    else
      match Level.ofName? text with
      | some level => parseTask s level rest
      | none => do
        let s ← s.step .program text
        parseFrom s rest

/-- The invocation that arguments ask for. -/
def parse (args : List String) : Except Refusal Invocation := parseFrom .start args

end LiveHls.CommandLine
