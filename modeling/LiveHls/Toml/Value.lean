/-!
# TOML values and tables

A document is a table of items. An item is a value, a table under a header or an array of tables
under repeated headers. A table remembers how it came to be, because that decides what may still be
added to it.

* `Table.descend` : change the table that a path of keys leads to, making missing tables on the way;
* `Table.insert` : add a key that must not be there yet.
-/

namespace LiveHls.Toml

mutual

/-- A value of a key or an element of an array. The exact number of a float and the moment of a date
are not kept, since no setting is one. -/
inductive Value where
  | string (text : String)
  | integer (n : Int)
  | float
  | boolean (b : Bool)
  | dateTime
  | array (elements : List Value)
  | inlineTable (table : Table)

/-- What a key of a table stands for. -/
inductive Item where
  | value (v : Value)
  | table (t : Table)
  /-- An array of tables, oldest first. -/
  | tables (ts : List Table)

/-- A table: its items in the order of their keys' first appearance. `implicit` tables were made on
the way to another; `dotted` ones by a dotted key. -/
inductive Table where
  | mk (implicit dotted : Bool) (entries : List (String × Item))

end

namespace Table

def isImplicit : Table → Bool
  | mk implicit _ _ => implicit

def isDotted : Table → Bool
  | mk _ dotted _ => dotted

def entries : Table → List (String × Item)
  | mk _ _ entries => entries

def empty : Table := mk false false []

def get? (t : Table) (key : String) : Option Item := t.entries.lookup key

def set (t : Table) (key : String) (item : Item) : Table :=
  let replaced :=
    if (t.get? key).isSome then
      t.entries.map fun (k, i) => (k, if k = key then item else i)
    else t.entries ++ [(key, item)]
  mk t.isImplicit t.isDotted replaced

def erase (t : Table) (key : String) : Table :=
  mk t.isImplicit t.isDotted (t.entries.filter (·.1 != key))

def insert (t : Table) (key : String) (item : Item) : Option Table :=
  if (t.get? key).isSome then none else some (t.set key item)

/-- Change the table that a path leads to, with an answer from it. Missing tables are made, as
`dotted` ones on the way of a dotted key. The path leads into the last table of an array of tables,
but not into a value, and the path of a dotted key not into a table that has a header of its own. -/
def descend {α : Type} (dotted : Bool) (change : Table → Option (Table × α)) :
    List String → Table → Option (Table × α)
  | [], t => change t
  | key :: path, t =>
    match (t.get? key).getD (.table (mk true dotted [])) with
    | .value _ => none
    | .table child =>
      if dotted && !child.isImplicit then none
      else do
        let (child, answer) ← descend dotted change path child
        return (t.set key (.table child), answer)
    | .tables ts => do
      let last ← ts.getLast?
      let (child, answer) ← descend dotted change path last
      return (t.set key (.tables (ts.dropLast ++ [child])), answer)

/-- Add the value of a dotted key: `path` leads to a table that the key's dots opened, and `key` is
new in it. -/
def insertDotted (t : Table) (path : List String) (key : String) (v : Value) : Option Table :=
  let add (target : Table) : Option (Table × Unit) :=
    if target.isDotted == path.isEmpty then none
    else (target.insert key (.value v)).map (·, ())
  (descend true add path t).map (·.1)

/-- The table of the pairs between the braces of an inline table. -/
def ofPairs? (pairs : List (List String × String × Value)) : Option Table :=
  pairs.foldlM (fun t (path, key, v) => t.insertDotted path key v) empty

end Table

end LiveHls.Toml
