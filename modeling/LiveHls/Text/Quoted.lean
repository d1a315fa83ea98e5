import LiveHls.Text.Unprintable

/-!
# Quoted text

`quote` puts a text between double quotes. Quotes of both kinds and backslashes are escaped by a
backslash, tabs and line ends by a letter, and every other character that shows nothing by its code
in hexadecimal.
-/

namespace LiveHls.Text

/-- A character by its code. -/
def codeEscape (c : Char) : List Char :=
  ['\\', 'u', '\x7b'] ++ Nat.toDigits 16 c.toNat ++ ['\x7d']

/-- A character as it stands between quotes. -/
def quoteChar (c : Char) : List Char :=
  if c = '\x00' then ['\\', '0']
  else if c = '\t' then ['\\', 't']
  else if c = '\r' then ['\\', 'r']
  else if c = '\n' then ['\\', 'n']
  else if c = '\\' || c = '"' || c = '\'' then ['\\', c]
  else if c.toNat < 0x20 || c.toNat = 0x7F || isUnprintable c then codeEscape c
  else [c]

/-- A text between double quotes. -/
def quote (text : String) : String :=
  String.ofList ('"' :: (text.toList.flatMap quoteChar ++ ['"']))

end LiveHls.Text
