import LiveHls.Rendition.Read

/-!
# The catalog of renditions

A catalog keeps one rendition per source and lists them in a master playlist by ascending
resolution. Every rendition it ever made has a handle, its position in the order of creation; a
rendition that is replaced or removed is closed and stays readable under its handle.

* `Catalog.route` : the rendition of a packet, made anew when the packet's format is new for its
  source;
* `Catalog.write`, `Catalog.remove`, `Catalog.setSegmentDuration`, `Catalog.close`;
* `Catalog.listing` : the order of the master playlist, which depends on the previous order and on
  resolutions only.
-/

namespace LiveHls

/-- The name of a rendition that stays the same when the rendition is no longer listed. -/
abbrev Handle := Nat

/-- Renditions by source. -/
structure Catalog where
  /-- First component of every index playlist's URI. -/
  writerId : UInt32
  options : Options
  /-- What is known of each source, also of sources that cannot be carried. -/
  formats : List SourceFormat
  /-- Every rendition ever made, oldest first. -/
  renditions : List Rendition
  /-- Sources that have a rendition, with its handle. -/
  registered : List (String × Handle)
  /-- Sources that have a rendition, in the order of the master playlist. -/
  order : List String
  variants : List Playlist.Variant

namespace Catalog

/-! ## Lookup -/

def format? (c : Catalog) (url : String) : Option SourceFormat := c.formats.find? (·.url == url)

def handle? (c : Catalog) (url : String) : Option Handle := c.registered.lookup url

def rendition? (c : Catalog) (h : Handle) : Option Rendition := c.renditions[h]?

def renditionOf? (c : Catalog) (url : String) : Option Rendition :=
  (c.handle? url).bind c.rendition?

def size (c : Catalog) : Nat := c.order.length

def handleAt (c : Catalog) (index : Nat) : Except Error Handle :=
  match (c.order[index]?).bind c.handle? with
  | some h => .ok h
  | none => .error (.notFound "rendition" (toString index))

def renditionAt (c : Catalog) (index : Nat) : Except Error Rendition :=
  match ((c.order[index]?).bind c.handle?).bind c.rendition? with
  | some r => .ok r
  | none => .error (.notFound "rendition" (toString index))

def master (c : Catalog) : String := Playlist.master c.variants

/-! ## Listing -/

/-- Sources by resolution. Among equal resolutions those listed before keep their order and come
before those that are new. -/
def listing (previous urls : List String) (resolution : String → Nat) : List String :=
  (urls.mergeSort fun a b => previous.idxOf a ≤ previous.idxOf b).mergeSort fun a b =>
    resolution a ≤ resolution b

def resolutionOf (c : Catalog) (url : String) : Nat :=
  ((c.format? url).map (·.resolution)).getD 0

def indexUri (writerId : UInt32) (index : Nat) : String :=
  toString writerId.toNat ++ "/" ++ toString index ++ "/" ++ Playlist.indexFile

def listVariants (c : Catalog) : List Playlist.Variant :=
  c.order.zipIdx.filterMap fun (url, index) =>
    (c.renditionOf? url).map (·.variant (indexUri c.writerId index))

/-- The catalog with order and master playlist brought up to date, where the registered sources are
considered in the order `urls`. -/
def refreshFrom (c : Catalog) (urls : List String) : Catalog :=
  let c := { c with order := listing c.order urls c.resolutionOf }
  { c with variants := c.listVariants }

def refresh (c : Catalog) : Catalog := c.refreshFrom (c.registered.map (·.1))

def new (writerId : UInt32) (options : Options) : Catalog where
  writerId := writerId
  options := options
  formats := []
  renditions := []
  registered := []
  order := []
  variants := []

/-! ## Changes -/

def modify (c : Catalog) (h : Handle) (f : Rendition → Rendition) : Catalog :=
  { c with renditions := c.renditions.modify h f }

/-- Close a source's rendition, if it has one, and take it off the register. -/
def unregister (c : Catalog) (url : String) : Catalog :=
  match c.handle? url with
  | none => c
  | some h =>
    { c.modify h Rendition.close with registered := c.registered.filter (·.1 != url) }

def forget (c : Catalog) (url : String) : Catalog :=
  { c with formats := c.formats.filter (·.url != url) }

def register (c : Catalog) (r : Rendition) : Catalog :=
  { c with
    renditions := c.renditions ++ [r]
    registered := c.registered ++ [(r.format.url, c.renditions.length)] }

/-- Replace a source's rendition by one of a new format. The old one is closed even if no new one
can be made. -/
def update (c : Catalog) (format : SourceFormat) (now : Instant) :
    Catalog × Except Error Handle :=
  let c := (c.unregister format.url).forget format.url
  let c := { c with formats := c.formats ++ [format] }
  match Rendition.new? format c.options now with
  | .ok r => ((c.register r).refresh, .ok c.renditions.length)
  | .error e => (c.refresh, .error e)

/-- A source's format with the packet's stream in it. -/
def announced (c : Catalog) (x : Packet) : SourceFormat :=
  let known := (c.format? x.source).getD (.unknown x.source)
  match x.medium with
  | .video format _ => { known with video := some format }
  | .audio format => { known with audio := some format }

/-- The rendition of a packet. It is made anew if the packet announces a format that is new for its
source; the packet itself is not written. -/
def route (c : Catalog) (x : Packet) (now : Instant) : Catalog × Except Error Handle :=
  let format := c.announced x
  if c.format? x.source = some format then
    match c.handle? x.source with
    | some h => (c, .ok h)
    | none => (c, .error (.renditionUnavailable x.source))
  else c.update format now

def writeTo (c : Catalog) (h : Handle) (x : Packet) (now : Instant) :
    Catalog × Except Fault Unit :=
  match c.rendition? h with
  | none => (c, .error (.error (.renditionUnavailable x.source)))
  | some r =>
    let (r, result) := r.write x now
    (c.modify h fun _ => r, result)

def write (c : Catalog) (x : Packet) (now : Instant) : Catalog × Except Fault Unit :=
  match c.route x now with
  | (c, .error e) => (c, .error (.error e))
  | (c, .ok h) => c.writeTo h x now

/-- Drop a source and its rendition; the answer is whether it was known. -/
def remove (c : Catalog) (url : String) : Catalog × Bool :=
  let known := (c.format? url).isSome
  let c := (c.forget url).unregister url
  (if known then c.refresh else c, known)

/-- The segment duration of renditions made from now on; parts are never longer than segments. -/
def setSegmentDuration (c : Catalog) (d : Duration) : Catalog :=
  { c with
    options :=
      { c.options with
        segmentDuration := d
        partDuration := if d < c.options.partDuration then d else c.options.partDuration } }

def close (c : Catalog) : Catalog :=
  c.registered.foldl (fun c (_, h) => c.modify h Rendition.close) c

end Catalog

end LiveHls
