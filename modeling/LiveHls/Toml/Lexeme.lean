/-!
# Words of a TOML document

Blanks, comments, line ends, quoted strings and bare words. Every function takes the characters
that are left and returns what it read with the rest, or none if the text is malformed.

* `skipBlanks`, `skipTrivia`, `lineEnd` : what may stand between words;
* `quoted`, `literal`, `multilineQuoted`, `multilineLiteral` : strings after their opening quotes;
* `integer?`, `isFloat`, `isMoment` : what a bare word stands for.
-/

namespace LiveHls.Toml

/-! ## Classes of characters -/

def isBlank (c : Char) : Bool := c = ' ' || c = '\t'

def isVisible (c : Char) : Bool := 0x20 ≤ c.val && c.val ≤ 0x7E

/-- Characters of a comment: a tab, printable ASCII and everything beyond ASCII. -/
def isText (c : Char) : Bool := c = '\t' || isVisible c || 0x80 ≤ c.val

def isDigit (c : Char) : Bool := '0' ≤ c && c ≤ '9'

def isHexDigit (c : Char) : Bool :=
  isDigit c || ('a' ≤ c && c ≤ 'f') || ('A' ≤ c && c ≤ 'F')

def isOctalDigit (c : Char) : Bool := '0' ≤ c && c ≤ '7'

def isBinaryDigit (c : Char) : Bool := c = '0' || c = '1'

def isLetter (c : Char) : Bool := ('a' ≤ c && c ≤ 'z') || ('A' ≤ c && c ≤ 'Z')

/-- Characters of a key without quotes. -/
def isBare (c : Char) : Bool := isLetter c || isDigit c || c = '_' || c = '-'

/-- Characters of numbers, dates and names of values. -/
def isWordChar (c : Char) : Bool := isBare c || c = '+' || c = '.' || c = ':'

def digitValue (c : Char) : Nat :=
  if isDigit c then c.toNat - '0'.toNat
  else if 'a' ≤ c then c.toNat - 'a'.toNat + 10
  else c.toNat - 'A'.toNat + 10

def ofDigits (base : Nat) (ds : List Char) : Nat :=
  ds.foldl (fun n d => n * base + digitValue d) 0

/-! ## Between words -/

def skipBlanks (cs : List Char) : List Char := cs.dropWhile isBlank

/-- The rest after a line end: a line feed, alone or behind a carriage return. -/
def newline? : List Char → Option (List Char)
  | '\n' :: r => some r
  | '\r' :: '\n' :: r => some r
  | _ => none

/-- The rest of the document after the end of this line: blanks, a comment if there is one, and a
line end or the end of the text. -/
def lineEnd (cs : List Char) : Option (List Char) :=
  let rest :=
    match skipBlanks cs with
    | '#' :: r => r.dropWhile isText
    | r => r
  if rest.isEmpty then some [] else newline? rest

/-- Blanks, line ends and comments, each comment with its line end. -/
def skipTrivia (inComment : Bool) : List Char → Option (List Char)
  | [] => if inComment then none else some []
  | '\n' :: r => skipTrivia false r
  | '\r' :: '\n' :: r => skipTrivia false r
  | c :: r =>
    if inComment then if isText c then skipTrivia true r else none
    else if isBlank c then skipTrivia false r
    else if c = '#' then skipTrivia true r
    else if c = '\r' then none
    else some (c :: r)

/-! ## Strings -/

/-- The character of a code in hexadecimal; surrogates and codes past the last one are none. -/
def ofHex? (ds : List Char) : Option Char :=
  let n := ofDigits 16 ds
  if ds.all isHexDigit && (n < 0xD800 || (0xDFFF < n && n < 0x110000)) then some (Char.ofNat n)
  else none

def escape? : Char → Option Char
  | 'b' => some '\x08'
  | 't' => some '\t'
  | 'n' => some '\n'
  | 'f' => some '\x0c'
  | 'r' => some '\r'
  | '"' => some '"'
  | '\\' => some '\\'
  | _ => none

def push (c : Char) (read : Option (List Char × List Char)) : Option (List Char × List Char) :=
  read.map fun (cs, rest) => (c :: cs, rest)

def push? (c : Option Char) (read : Option (List Char × List Char)) :
    Option (List Char × List Char) :=
  c.bind fun c => push c read

/-- A string on one line with escapes, after its opening quote. -/
def quoted : List Char → Option (List Char × List Char)
  | [] => none
  | '"' :: r => some ([], r)
  | '\\' :: 'u' :: a :: b :: c :: d :: r => push? (ofHex? [a, b, c, d]) (quoted r)
  | '\\' :: 'U' :: a :: b :: c :: d :: e :: f :: g :: h :: r =>
    push? (ofHex? [a, b, c, d, e, f, g, h]) (quoted r)
  | '\\' :: c :: r => push? (escape? c) (quoted r)
  | c :: r => if isText c then push c (quoted r) else none

/-- A string on one line without escapes, after its opening quote. -/
def literal : List Char → Option (List Char × List Char)
  | [] => none
  | '\'' :: r => some ([], r)
  | c :: r => if isText c then push c (literal r) else none

/-- A string over several lines without escapes. Up to two quotes may stand in front of the closing
three. -/
def multilineLiteral : List Char → Option (List Char × List Char)
  | [] => none
  | '\'' :: '\'' :: '\'' :: '\'' :: '\'' :: r => some (['\'', '\''], r)
  | '\'' :: '\'' :: '\'' :: '\'' :: r => some (['\''], r)
  | '\'' :: '\'' :: '\'' :: r => some ([], r)
  | '\r' :: '\n' :: r => push '\n' (multilineLiteral r)
  | c :: r => if isText c || c = '\n' then push c (multilineLiteral r) else none

/-- What precedes the next character of a string over several lines with escapes. -/
inductive Continuation where
  | plain
  /-- A backslash and blanks: the line has to end here. -/
  | lineFolds
  /-- The end of a folded line: blanks and line ends are left out. -/
  | folded
deriving DecidableEq

/-- A string over several lines with escapes. A backslash at the end of a line removes the blanks
and line ends that follow; up to two quotes may stand in front of the closing three. -/
def multilineQuoted (k : Continuation) : List Char → Option (List Char × List Char)
  | [] => none
  | '\n' :: r => if k = .plain then push '\n' (multilineQuoted .plain r) else multilineQuoted .folded r
  | '\r' :: '\n' :: r =>
    if k = .plain then push '\n' (multilineQuoted .plain r) else multilineQuoted .folded r
  | ' ' :: r => if k = .plain then push ' ' (multilineQuoted k r) else multilineQuoted k r
  | '\t' :: r => if k = .plain then push '\t' (multilineQuoted k r) else multilineQuoted k r
  | '"' :: '"' :: '"' :: '"' :: '"' :: r => if k = .lineFolds then none else some (['"', '"'], r)
  | '"' :: '"' :: '"' :: '"' :: r => if k = .lineFolds then none else some (['"'], r)
  | '"' :: '"' :: '"' :: r => if k = .lineFolds then none else some ([], r)
  | '\\' :: 'u' :: a :: b :: c :: d :: r =>
    if k = .lineFolds then none else push? (ofHex? [a, b, c, d]) (multilineQuoted .plain r)
  | '\\' :: 'U' :: a :: b :: c :: d :: e :: f :: g :: h :: r =>
    if k = .lineFolds then none
    else push? (ofHex? [a, b, c, d, e, f, g, h]) (multilineQuoted .plain r)
  | '\\' :: '\n' :: r => if k = .lineFolds then none else multilineQuoted .folded r
  | '\\' :: '\r' :: '\n' :: r => if k = .lineFolds then none else multilineQuoted .folded r
  | '\\' :: c :: r =>
    if k = .lineFolds then none
    else if isBlank c then multilineQuoted .lineFolds r
    else push? (escape? c) (multilineQuoted .plain r)
  | c :: r =>
    if k = .lineFolds then none
    else if isText c && c != '\\' then push c (multilineQuoted .plain r)
    else none

/-- The characters of a string over several lines start behind a line end right after its opening
quotes. -/
def skipFirstNewline (cs : List Char) : List Char := (newline? cs).getD cs

/-! ## Numbers -/

/-- Digits without the underscores that stand between two of them. -/
def ungroup (isDigit : Char → Bool) : List Char → Option (List Char)
  | [] => none
  | [c] => if isDigit c then some [c] else none
  | c :: '_' :: r => if isDigit c then (ungroup isDigit r).map (c :: ·) else none
  | c :: r => if isDigit c then (ungroup isDigit r).map (c :: ·) else none

/-- The digits of a decimal number: no zero stands in front of others. -/
def decimalDigits? (cs : List Char) : Option (List Char) :=
  if 1 < cs.length && cs.head? = some '0' then none else ungroup isDigit cs

def splitSign : List Char → Bool × List Char
  | '+' :: r => (false, r)
  | '-' :: r => (true, r)
  | r => (false, r)

def signed64? (n : Int) : Option Int :=
  if Int64.minValue.toInt ≤ n ∧ n ≤ Int64.maxValue.toInt then some n else none

/-- The integer that a word spells, in base 10, 16, 8 or 2. Only base 10 has a sign. -/
def integer? : List Char → Option Int
  | '0' :: 'x' :: r => (ungroup isHexDigit r).bind fun ds => signed64? (ofDigits 16 ds)
  | '0' :: 'o' :: r => (ungroup isOctalDigit r).bind fun ds => signed64? (ofDigits 8 ds)
  | '0' :: 'b' :: r => (ungroup isBinaryDigit r).bind fun ds => signed64? (ofDigits 2 ds)
  | cs =>
    let (negative, digits) := splitSign cs
    (decimalDigits? digits).bind fun ds =>
      signed64? (if negative then -(ofDigits 10 ds : Int) else ofDigits 10 ds)

/-- Whether `digits` times ten to the `exponent` rounds to a finite double. -/
def isFinite (digits : List Char) (exponent : Int) : Bool :=
  let significant := digits.dropWhile (· = '0')
  let magnitude := exponent + significant.length
  if significant.isEmpty || magnitude ≤ 300 then true
  else if 320 ≤ magnitude then false
  else
    ofDigits 10 significant * Nat.pow 10 exponent.toNat
      < (1 <<< 1024 - 1 <<< 970) * Nat.pow 10 (-exponent).toNat

def exponent? (cs : List Char) : Option Int :=
  let (negative, digits) := splitSign cs
  (ungroup isDigit digits).map fun ds =>
    if negative then -(ofDigits 10 ds : Int) else ofDigits 10 ds

/-- Whether a word is a float: a decimal number with a fraction, an exponent or both, or infinity or
not a number by name. A positive one too large for a double is none. -/
def isFloat (word : List Char) : Bool :=
  let (negative, cs) := splitSign word
  if cs = ['i', 'n', 'f'] || cs = ['n', 'a', 'n'] then true
  else
    let isMark (c : Char) : Bool := c = 'e' || c = 'E'
    let mantissa := cs.takeWhile (!isMark ·)
    let whole := mantissa.takeWhile (· != '.')
    let fraction := mantissa.dropWhile (· != '.')
    let scale := cs.dropWhile (!isMark ·)
    if fraction.isEmpty && scale.isEmpty then false
    else
      let parts : Option Bool := do
        let ds ← decimalDigits? whole
        let fs ← if fraction.isEmpty then some [] else ungroup isDigit (fraction.drop 1)
        let e ← if scale.isEmpty then some 0 else exponent? (scale.drop 1)
        return negative || isFinite (ds ++ fs) (e - fs.length)
      parts.getD false

/-! ## Dates and times -/

/-- The number of exactly the digits of a word, within bounds. -/
def bounded? (low high : Nat) (ds : List Char) : Option Nat :=
  let n := ofDigits 10 ds
  if ds.all isDigit && low ≤ n && n ≤ high then some n else none

def isLeapYear (y : Nat) : Bool := y % 4 = 0 && (y % 100 != 0 || y % 400 = 0)

def daysInMonth (year month : Nat) : Nat :=
  if month = 2 then if isLeapYear year then 29 else 28
  else if month = 4 || month = 6 || month = 9 || month = 11 then 30
  else 31

/-- The rest after a date: four digits, two and two with dashes between them. -/
def date? : List Char → Option (List Char)
  | a :: b :: c :: d :: '-' :: e :: f :: '-' :: g :: h :: r => do
    let year ← bounded? 0 9999 [a, b, c, d]
    let month ← bounded? 1 12 [e, f]
    let _ ← bounded? 1 (daysInMonth year month) [g, h]
    return r
  | _ => none

/-- The rest after hours, minutes and seconds with colons between them and a fraction, if there is
one. -/
def time? : List Char → Option (List Char)
  | a :: b :: ':' :: c :: d :: ':' :: e :: f :: r => do
    let _ ← bounded? 0 23 [a, b]
    let _ ← bounded? 0 59 [c, d]
    let _ ← bounded? 0 60 [e, f]
    match r with
    | '.' :: r => if (r.takeWhile isDigit).isEmpty then none else some (r.dropWhile isDigit)
    | r => some r
  | _ => none

def isOffset : List Char → Bool
  | [] => true
  | ['Z'] | ['z'] => true
  | [sign, a, b, ':', c, d] =>
    (sign = '+' || sign = '-') && (bounded? 0 23 [a, b]).isSome && (bounded? 0 59 [c, d]).isSome
  | _ => false

/-- Whether a word is a date, a time of day, or both with a letter between them. -/
def isMoment (word : List Char) : Bool :=
  match date? word with
  | some [] => true
  | some ('T' :: r) | some ('t' :: r) => (time? r).any isOffset
  | some _ => false
  | none => time? word = some []

def isDate (word : List Char) : Bool := date? word = some []

def isZonedTime (word : List Char) : Bool := (time? word).any isOffset

end LiveHls.Toml
