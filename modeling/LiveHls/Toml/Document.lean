import LiveHls.Toml.Lexeme
import LiveHls.Toml.Value

/-!
# TOML documents

* `key` : a key with its dots;
* `value` : a value, with arrays and inline tables nested up to a limit;
* `Builder` : the document read so far and the section that is being read;
* `parse?` : the table of a document, none if the text is malformed or defines something twice.
-/

namespace LiveHls.Toml

/-- Nesting of arrays, inline tables and dotted keys stays below this limit. -/
def nestingLimit : Nat := 80

/-! ## Keys -/

/-- One part of a key: a quoted string on one line or a bare word. -/
def simpleKey : List Char → Option (String × List Char)
  | '"' :: r => (quoted r).map fun (cs, rest) => (String.ofList cs, rest)
  | '\'' :: r => (literal r).map fun (cs, rest) => (String.ofList cs, rest)
  | cs =>
    let word := cs.takeWhile isBare
    if word.isEmpty then none else some (String.ofList word, cs.dropWhile isBare)

/-- The parts of a key with dots between them and blanks around them; `bound` exceeds their
number. -/
def keyParts : Nat → List Char → Option (List String × List Char)
  | 0, _ => none
  | bound + 1, cs => do
    let (part, rest) ← simpleKey (skipBlanks cs)
    match skipBlanks rest with
    | '.' :: r =>
      let (parts, rest) ← keyParts bound r
      return (part :: parts, rest)
    | r => return ([part], r)

/-- A key: the parts that lead to a table, and the last part. -/
def key (cs : List Char) : Option ((List String × String) × List Char) := do
  let (parts, rest) ← keyParts (nestingLimit - 1) cs
  return ((parts.dropLast, parts.getLastD ""), rest)

/-! ## Values -/

def wordValue? (word : List Char) : Option Value :=
  if word = ['t', 'r', 'u', 'e'] then some (.boolean true)
  else if word = ['f', 'a', 'l', 's', 'e'] then some (.boolean false)
  else
    match integer? word with
    | some n => some (.integer n)
    | none =>
      if isFloat word then some .float
      else if isMoment word then some .dateTime
      else none

/-- A value without quotes or brackets. A date may be followed by a blank and a time of day. -/
def word (cs : List Char) : Option (Value × List Char) :=
  let first := cs.takeWhile isWordChar
  let rest := cs.dropWhile isWordChar
  match rest with
  | ' ' :: r =>
    if isDate first && isZonedTime (r.takeWhile isWordChar) then
      some (.dateTime, r.dropWhile isWordChar)
    else (wordValue? first).map (·, rest)
  | _ => (wordValue? first).map (·, rest)

def string (cs : List Char) : Option (Value × List Char) :=
  let read : Option (List Char × List Char) :=
    match cs with
    | '"' :: '"' :: '"' :: r => multilineQuoted .plain (skipFirstNewline r)
    | '"' :: r => quoted r
    | '\'' :: '\'' :: '\'' :: r => multilineLiteral (skipFirstNewline r)
    | '\'' :: r => literal r
    | _ => none
  read.map fun (text, rest) => (.string (String.ofList text), rest)

mutual

/-- A value; `bound` exceeds the steps that reading it takes. -/
def value (depth : Nat) : Nat → List Char → Option (Value × List Char)
  | 0, _ => none
  | bound + 1, cs =>
    match cs with
    | '"' :: _ | '\'' :: _ => string cs
    | '[' :: r => do
      if nestingLimit ≤ depth + 1 then none
      let (vs, rest) ← elements (depth + 1) bound (← skipTrivia false r)
      return (.array vs, rest)
    | '{' :: r => do
      if nestingLimit ≤ depth + 1 then none
      let (pairs, rest) ←
        match skipBlanks r with
        | '}' :: rest => some ([], rest)
        | r => pairs (depth + 1) bound r
      return (.inlineTable (← Table.ofPairs? pairs), rest)
    | _ => word cs

def elements (depth : Nat) : Nat → List Char → Option (List Value × List Char)
  | 0, _ => none
  | _ + 1, ']' :: rest => some ([], rest)
  | bound + 1, cs => do
    let (v, rest) ← value depth bound cs
    match ← skipTrivia false rest with
    | ']' :: rest => return ([v], rest)
    | ',' :: rest =>
      let (vs, rest) ← elements depth bound (← skipTrivia false rest)
      return (v :: vs, rest)
    | _ => none

/-- The pairs of an inline table up to its closing brace, at least one. -/
def pairs (depth : Nat) : Nat → List Char → Option (List (List String × String × Value) × List Char)
  | 0, _ => none
  | bound + 1, cs => do
    let ((path, name), rest) ← key cs
    match rest with
    | '=' :: rest =>
      let (v, rest) ← value depth bound (skipBlanks rest)
      match skipBlanks rest with
      | '}' :: rest => return ([(path, name, v)], rest)
      | ',' :: rest =>
        let (ps, rest) ← pairs depth bound rest
        return ((path, name, v) :: ps, rest)
      | _ => none
    | _ => none

end

def valueOf (cs : List Char) : Option (Value × List Char) := value 0 (2 * cs.length + 2) cs

/-! ## Documents -/

/-- The document up to the last header, and the section under that header. -/
structure Builder where
  root : Table
  current : Table
  path : List String
  repeated : Bool

namespace Builder

def start : Builder := ⟨.empty, .empty, [], false⟩

def finish (b : Builder) : Option Table :=
  match b.path.getLast? with
  | none => some b.current
  | some name =>
    let place (parent : Table) : Option (Table × Unit) :=
      if b.repeated then
        match (parent.get? name).getD (.tables []) with
        | .tables ts => some (parent.set name (.tables (ts ++ [b.current])), ())
        | _ => none
      else (parent.insert name (.table b.current)).map (·, ())
    (b.root.descend false place b.path.dropLast).map (·.1)

/-- Begin the section of a header with single brackets. A table made on the way to another may get
its header later, any other table not again. -/
def beginTable (b : Builder) (path : List String) (name : String) : Option Builder := do
  let root ← b.finish
  let take (parent : Table) : Option (Table × Table) :=
    match parent.get? name with
    | none => some (parent, .empty)
    | some (.table t) =>
      if t.isImplicit && !t.isDotted then some (parent.erase name, .mk false false t.entries)
      else none
    | some _ => none
  let (root, current) ← root.descend false take path
  return ⟨root, current, path ++ [name], false⟩

/-- Begin the section of a header with double brackets. -/
def beginRepeated (b : Builder) (path : List String) (name : String) : Option Builder := do
  let root ← b.finish
  let take (parent : Table) : Option (Table × Unit) :=
    match (parent.get? name).getD (.tables []) with
    | .tables ts => some (parent.set name (.tables ts), ())
    | _ => none
  let (root, _) ← root.descend false take path
  return ⟨root, .empty, path ++ [name], true⟩

def insert (b : Builder) (path : List String) (name : String) (v : Value) : Option Builder :=
  (b.current.insertDotted path name v).map fun current => { b with current }

end Builder

/-- One line of a document without its leading blanks: nothing, a comment, a header or a key with
its value, which may run on over further lines. -/
def line (b : Builder) (cs : List Char) : Option (Builder × List Char) :=
  match cs with
  | '[' :: '[' :: r => do
    let ((path, name), rest) ← key r
    match rest with
    | ']' :: ']' :: rest => return (← b.beginRepeated path name, ← lineEnd rest)
    | _ => none
  | '[' :: r => do
    let ((path, name), rest) ← key r
    match rest with
    | ']' :: rest => return (← b.beginTable path name, ← lineEnd rest)
    | _ => none
  | '#' :: _ | '\n' :: _ | '\r' :: _ => (lineEnd cs).map (b, ·)
  | _ => do
    let ((path, name), rest) ← key cs
    match rest with
    | '=' :: rest =>
      let (v, rest) ← valueOf (skipBlanks rest)
      return (← b.insert path name v, ← lineEnd rest)
    | _ => none

/-- The lines of a document; `bound` exceeds their number. -/
def lines : Nat → Builder → List Char → Option Table
  | 0, _, _ => none
  | bound + 1, b, cs =>
    match skipBlanks cs with
    | [] => b.finish
    | cs => do
      let (b, rest) ← line b cs
      lines bound b rest

/-- The table of a document, which may start with a byte order mark. -/
def parse? (text : String) : Option Table :=
  let cs := text.toList
  let cs := if cs.head? = some '\ufeff' then cs.tail else cs
  lines (cs.length + 1) .start cs

end LiveHls.Toml
