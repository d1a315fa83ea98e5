import LiveHls.Bytes

/-!
# Storage

`Storage m` is what the program needs of a file system, for any way `m` of running it. `Directory`
is one kept in memory: a directory with the files below it, named by their path.

* `Directory.follow`, `Directory.normalize` : the components that a path consists of;
* `Directory.resolve?` : where a path leads, if every directory on the way is there;
* `Directory.storage` : the operations on it.
-/

namespace LiveHls

inductive Content where
  | text (value : String)
  | data (value : Bytes)
deriving DecidableEq

/-- The file operations of a program; paths are relative to its working directory. -/
structure Storage (m : Type → Type) where
  pathExists : String → m Bool
  /-- The text of a file, if it can be read. -/
  readText : String → m (Option String)
  /-- Make a directory and those above it; the answer is whether it is there now. -/
  makeDirectory : String → m Bool
  /-- Write a file; the answer is whether it was written. -/
  writeFile : String → Content → m Bool

def joinPath (dir name : String) : String :=
  if dir.isEmpty || dir.endsWith "/" then dir ++ name else dir ++ "/" ++ name

/-- A directory in memory: files with the components of their paths, and directories that hold no
file yet. -/
structure Directory where
  files : List (List String × Content)
  directories : List (List String)
deriving DecidableEq

namespace Directory

def empty : Directory := ⟨[], []⟩

/-- What stands between the separators of a path. -/
def names (path : String) : List String := path.splitToList (· == '/')

/-- Where a name leads from a directory. A dot stands for the directory itself and two dots for the
one above it. -/
def enter (components : List String) (name : String) : List String :=
  if name = "" ∨ name = "." then components
  else if name = ".." then components.dropLast
  else components ++ [name]

/-- The components of a path that is relative to the directory `start`. -/
def follow (start : List String) (path : String) : List String := (names path).foldl enter start

/-- The components of a path. -/
def normalize (path : String) : List String := follow [] path

def file? (d : Directory) (path : List String) : Option Content := d.files.lookup path

/-- Whether a path is a directory: the working directory, one that was made, or one that holds a
file. -/
def isDirectory (d : Directory) (path : List String) : Bool :=
  path.isEmpty || d.directories.any (path.isPrefixOf ·)
    || d.files.any fun f => path.isPrefixOf f.1 && path != f.1

/-- Where a path leads from the working directory; nowhere if it passes through something that is
no directory. A path that ends in a separator leads to a directory, and an absolute path leads out
of this one. -/
def resolve? (d : Directory) (path : String) : Option (List String) :=
  if path.startsWith "/" then none
  else
    (names path).foldlM
      (fun components name =>
        if d.isDirectory components then some (enter components name) else none)
      []

/-- Whether a file stands where a directory on the way to `path` would be. -/
def isBlocked (d : Directory) (path : List String) : Bool :=
  d.files.any fun f => f.1.isPrefixOf path

def makeDirectory (d : Directory) (path : List String) : Directory × Bool :=
  if d.isBlocked path then (d, false)
  else ({ d with directories := d.directories ++ [path] }, true)

/-- Write a file into a directory that is there. -/
def writeFile (d : Directory) (path : List String) (content : Content) : Directory × Bool :=
  if d.isDirectory path || !d.isDirectory path.dropLast then (d, false)
  else ({ d with files := d.files.filter (·.1 != path) ++ [(path, content)] }, true)

def storage : Storage (StateM Directory) where
  pathExists path := do
    let d ← get
    return (d.resolve? path).any fun p => (d.file? p).isSome || d.isDirectory p
  readText path := do
    let d ← get
    match (d.resolve? path).bind d.file? with
    | some (.text value) => return some value
    | _ => return none
  makeDirectory path := modifyGet fun d =>
    let (d, made) := d.makeDirectory (normalize path)
    (made, d)
  writeFile path content := modifyGet fun d =>
    let (d, written) := d.writeFile (normalize path) content
    (written, d)

/-- The files below a directory, with their paths relative to it. -/
def below (d : Directory) (path : List String) : List (String × Content) :=
  d.files.filterMap fun (name, content) =>
    if path.isPrefixOf name && path != name then
      some ("/".intercalate (name.drop path.length), content)
    else none

end Directory

end LiveHls
