/-!
# Master playlists

A master playlist lists the renditions of a stream, each as a `Variant`: a line with its
properties and a line with the URI of its index playlist.
-/

namespace LiveHls.Playlist

/-- One rendition as a master playlist lists it. -/
structure Variant where
  /-- Peak bits per second. -/
  bandwidth : UInt64
  /-- Width and height; absent for a rendition without video. -/
  resolution : Option (UInt32 × UInt32)
  codecs : String
  uri : String
deriving DecidableEq, Repr

/-- The properties of a variant. An absent resolution and an empty list of codecs are left out. -/
def Variant.streamInf (v : Variant) : String :=
  "#EXT-X-STREAM-INF:BANDWIDTH=" ++ toString v.bandwidth.toNat
    ++ (match v.resolution with
        | some (w, h) => ",RESOLUTION=" ++ toString w.toNat ++ "x" ++ toString h.toNat
        | none => "")
    ++ (if v.codecs.isEmpty then "" else ",CODECS=\"" ++ v.codecs ++ "\"")

def Variant.text (v : Variant) : String := v.streamInf ++ "\n" ++ v.uri ++ "\n"

def masterHeader : String := "#EXTM3U\n#EXT-X-VERSION:7\n"

def master (variants : List Variant) : String :=
  masterHeader ++ String.join (variants.map (·.text))

end LiveHls.Playlist
