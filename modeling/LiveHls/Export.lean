import LiveHls.Catalog
import LiveHls.Storage

/-!
# Exporting a catalog

An export writes what a catalog serves at one moment into a directory laid out like the URIs of its
playlists: the master playlist and, for each rendition, its index playlist, its initialization
segment and all closed segments and parts. Nothing open is waited for.

* `Export.plan` : the files in the order in which they are written, and how the plan ends;
* `Export.run` : writes a plan.
-/

namespace LiveHls

namespace Export

def masterFile : String := "master.m3u8"

/-- How many renditions, segments and parts were written. -/
structure Summary where
  renditions : Nat
  segments : Nat
  parts : Nat
deriving DecidableEq, Repr

def Summary.none : Summary := ⟨0, 0, 0⟩

/-- A file to write: the components of its path below the export directory, and its content. -/
structure Entry where
  path : List String
  content : Content
deriving DecidableEq

/-- Files to write, what they amount to, and the fault that ends the plan early, if any. -/
structure Plan where
  entries : List Entry
  summary : Summary
  fault : Option Fault

namespace Plan

def empty : Plan := ⟨[], .none, none⟩

/-- One plan after the other; nothing follows a plan that ends early. -/
def andThen (a b : Plan) : Plan :=
  if a.fault.isSome then a
  else
    { entries := a.entries ++ b.entries
      summary :=
        ⟨a.summary.renditions + b.summary.renditions, a.summary.segments + b.summary.segments,
          a.summary.parts + b.summary.parts⟩
      fault := b.fault }

def sequence (plans : List Plan) : Plan := plans.foldl andThen empty

def ofEntries (entries : List Entry) : Plan := ⟨entries, .none, Option.none⟩

def failed (f : Fault) : Plan := ⟨[], .none, some f⟩

end Plan

/-- The file that holds the answer of a read of media. -/
def mediaEntry (path : List String) : Body → Entry
  | .media bytes => ⟨path, .data bytes⟩
  | .playlist lines => ⟨path, .text (Playlist.text lines)⟩

/-- The closed parts of a segment from `first` on, up to the first that is open or missing; at most
`bound` of them. -/
def partsPlan (r : Rendition) (root : List String) (segment : Nat) : Nat → Nat → Plan
  | 0, _ => .empty
  | bound + 1, first =>
    match r.readNow (.part segment first) with
    | .ok body =>
      let path := root ++ ["fragment", toString segment, toString first, Playlist.mediaFile]
      .andThen ⟨[mediaEntry path body], ⟨0, 0, 1⟩, none⟩
        (partsPlan r root segment bound (first + 1))
    | .error (.error (.timeout _)) | .error (.error (.notFound ..)) => .empty
    | .error f => .failed f

def segmentPlan (r : Rendition) (root : List String) (s : Segment) : Plan :=
  let whole : Plan :=
    match r.readNow (.segment s.id) with
    | .ok body =>
      ⟨[mediaEntry (root ++ ["segment", toString s.id, Playlist.mediaFile]) body], ⟨0, 1, 0⟩, none⟩
    | .error (.error (.timeout _)) => .empty
    | .error f => .failed f
  whole.andThen (partsPlan r root s.id (s.parts.length + 1) 0)

def renditionPlan (writerId : UInt32) (index : Nat) (r : Rendition) : Plan :=
  let root := [toString writerId.toNat, toString index]
  let head : Plan :=
    .ofEntries
      [⟨root ++ [Playlist.indexFile], .text (Playlist.text r.manifest)⟩,
       ⟨root ++ [Playlist.initializationFile], .data r.initialization⟩]
  (head.andThen (.sequence (r.live.map (segmentPlan r root)))).andThen ⟨[], ⟨1, 0, 0⟩, none⟩

def plan (c : Catalog) : Plan :=
  let head : Plan := .ofEntries [⟨[masterFile], .text c.master⟩]
  head.andThen <| .sequence <| (List.range c.size).map fun index =>
    match c.renditionAt index with
    | .ok r => renditionPlan c.writerId index r
    | .error e => .failed (.error e)

/-- Write files below `dir`, each into its own directory; the answer is whether all were written. -/
def writeAll {m : Type → Type} [Monad m] (storage : Storage m) (dir : String) :
    List Entry → m Bool
  | [] => return true
  | e :: es => do
    let parent := e.path.dropLast.foldl joinPath dir
    if !(← storage.makeDirectory parent) then return false
    if !(← storage.writeFile (e.path.foldl joinPath dir) e.content) then return false
    writeAll storage dir es

def run {m : Type → Type} [Monad m] (storage : Storage m) (dir : String) (c : Catalog) :
    m (Except Fault Summary) := do
  let p := plan c
  if !(← writeAll storage dir p.entries) then
    return .error (.error (.storage ("cannot write below " ++ dir)))
  match p.fault with
  | none => return .ok p.summary
  | some f => return .error f

end Export

end LiveHls
