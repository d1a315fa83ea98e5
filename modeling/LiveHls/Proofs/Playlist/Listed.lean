import LiveHls.Codec
import LiveHls.Playlist.Master
import LiveHls.Proofs.Playlist.Uris

/-!
# The URIs that a playlist lists

A reader of any playlist, index or master: a line that is no tag is a URI, and a tag holds a URI in
an attribute of that name. A preload hint names what is not there yet, so it is passed over.

* `listedUris` : the URIs in the text of a playlist;
* `listedUris_text` : those of an index playlist are its initialization segment, parts and segments;
* `listedUris_master` : those of a master playlist are the URIs of its variants;
* `bare_codecs` : the names of codecs cannot be taken for anything else.
-/

namespace LiveHls.Playlist

/-! ## Attributes -/

/-- The quoted attributes of a line that is cut at its quotes: what stands in front of a value, and
the value. -/
def quotedAttributes : List (List Char) → List (List Char × List Char)
  | front :: value :: rest => (front, value) :: quotedAttributes rest
  | _ => []

/-- Whether a text ends with the name of the attribute that holds a URI. -/
def endsWithUri (front : List Char) : Bool :=
  ":URI=".toList.isSuffixOf front || ",URI=".toList.isSuffixOf front

theorem endsWithUri_append_codecs (front : List Char) :
    endsWithUri (front ++ ",CODECS=".toList) = false := by
  unfold endsWithUri List.isSuffixOf
  rw [List.reverse_append]
  rfl

def attributeUris (line : List Char) : List String :=
  ((quotedAttributes (line.splitOn '"')).filter (endsWithUri ·.1)).map (.ofList ·.2)

theorem attributeUris_bare {front : List Char} {s : String} (hfront : '"' ∉ front) (hs : Bare s) :
    attributeUris (front ++ s.toList) = [] := by
  have hline : '"' ∉ front ++ s.toList := fun hc =>
    (List.mem_append.1 hc).elim hfront hs.quote_notMem
  have hwhole : (front ++ s.toList).splitOn '"' = [front ++ s.toList] :=
    List.splitOnP_eq_singleton fun c hc => beq_false_of_ne fun he => hline (he ▸ hc)
  unfold attributeUris
  rw [hwhole]
  rfl

theorem attributeUris_quoted {front : List Char} {s : String} (hfront : '"' ∉ front) (hs : Bare s) :
    attributeUris (front ++ '"' :: (s.toList ++ ['"'])) =
      if endsWithUri front then [s] else [] := by
  unfold attributeUris
  rw [List.splitOn_append_cons_self_of_not_mem hfront,
    List.splitOn_append_cons_self_of_not_mem hs.quote_notMem]
  cases h : endsWithUri front <;> simp [quotedAttributes, h]

/-! ## Lines -/

def lineUris (line : List Char) : List String :=
  if line.isEmpty || "#EXT-X-PRELOAD-HINT:".toList.isPrefixOf line then []
  else if line.head? = some '#' then attributeUris line
  else [.ofList line]

/-- The URIs in the text of a playlist, but for those of preload hints. -/
def listedUris (text : String) : List String := (linesOf text).flatMap lineUris

/-- A line ends at its line end. -/
theorem listedUris_append {line : String} (h : '\n' ∉ line.toList) (rest : String) :
    listedUris (line ++ "\n" ++ rest) = lineUris line.toList ++ listedUris rest := by
  have hend : "\n".toList = ['\n'] := by decide
  unfold listedUris linesOf
  simp only [String.toList_append, hend, List.append_assoc, List.singleton_append]
  rw [List.splitOn_append_cons_self_of_not_mem h, List.flatMap_cons]

/-! ## Index playlists -/

namespace Line

def listedUri? : Line → Option String
  | initialization => some initializationFile
  | part s f _ _ => some (partUri s f)
  | segment id => some (segmentUri id)
  | _ => none

theorem lineUris_chars (l : Line) : lineUris l.chars = l.listedUri?.toList := by
  cases l with
  | playlist | version | preloadHint => rfl
  | targetDuration seconds => exact attributeUris_bare (of_decide_eq_true rfl) (bare_toString _)
  | serverControl _ | partTarget _ | segmentDuration _ =>
    exact attributeUris_bare (of_decide_eq_true rfl) (bare_text_duration _)
  | mediaSequence first => exact attributeUris_bare (of_decide_eq_true rfl) (bare_toString _)
  | programDateTime _ => exact attributeUris_bare (of_decide_eq_true rfl) (bare_text_instant _)
  | initialization => decide
  | segment id =>
    refine congrArg (fun uri => [uri]) ?_
    rw [chars_segment, String.ofList_toList]
  | part s f duration independent =>
    obtain ⟨front, hfront, hsuffix, hchars⟩ := chars_part s f duration independent
    have huri : endsWithUri front = true := by
      unfold endsWithUri
      rw [List.isSuffixOf_iff_suffix.2 hsuffix, Bool.or_true]
    show attributeUris (part s f duration independent).chars = _
    rw [hchars, attributeUris_quoted hfront (bare_partUri s f), if_pos huri]
    rfl

end Line

/-- **An index playlist** lists its initialization segment, parts and segments. -/
theorem listedUris_text (lines : List Line) :
    listedUris (text lines) = lines.filterMap Line.listedUri? := by
  unfold listedUris
  have hend : [([] : List Char)].flatMap lineUris = [] := rfl
  rw [linesOf_text, List.flatMap_append, hend, List.append_nil, List.flatMap_map,
    List.filterMap_eq_flatMap_toList]
  exact List.flatMap_congr fun l _ => l.lineUris_chars

/-! ## Master playlists -/

/-- A URI that stands on a line of its own and is no tag. -/
structure Reference (uri : String) : Prop where
  nonempty : uri.toList ≠ []
  head_ne : uri.toList.head? ≠ some '#'
  newline_notMem : '\n' ∉ uri.toList

theorem Reference.lineUris_eq {uri : String} (h : Reference uri) : lineUris uri.toList = [uri] := by
  obtain ⟨c, cs, hcs⟩ := List.exists_cons_of_ne_nil h.nonempty
  have hhead := h.head_ne
  rw [hcs, List.head?_cons] at hhead
  have hprefix : "#EXT-X-PRELOAD-HINT:".toList.isPrefixOf (c :: cs) = false := by
    refine Bool.eq_false_iff.2 fun hprefix => hhead (congrArg some ?_)
    exact (List.cons_prefix_cons.1 (List.isPrefixOf_iff_prefix.1 hprefix)).1.symm
  unfold lineUris
  rw [hcs, hprefix, List.head?_cons, if_neg hhead, List.isEmpty_cons, ← hcs, String.ofList_toList]
  rfl

namespace Variant

theorem exists_streamInf_eq (v : Variant) : ∃ front, Bare front ∧
    v.streamInf.toList = "#EXT-X-STREAM-INF:BANDWIDTH=".toList ++ (front.toList ++
      (if v.codecs.isEmpty then []
        else ",CODECS=".toList ++ '"' :: (v.codecs.toList ++ ['"']))) := by
  have hcodecs : (if v.codecs.isEmpty then "" else ",CODECS=\"" ++ v.codecs ++ "\"").toList =
      if v.codecs.isEmpty then [] else ",CODECS=".toList ++ '"' :: (v.codecs.toList ++ ['"']) := by
    have hopening : ",CODECS=\"".toList = ",CODECS=".toList ++ ['"'] := by decide
    have hquote : "\"".toList = ['"'] := by decide
    split
    · rfl
    · simp only [String.toList_append, hopening, hquote, List.append_assoc, List.cons_append,
        List.nil_append]
  unfold streamInf
  rcases v.resolution with _ | ⟨w, h⟩
  · refine ⟨toString v.bandwidth.toNat, bare_toString _, ?_⟩
    simp only [String.toList_append, hcodecs, String.append_empty, List.append_assoc]
  · have hmarks : Bare ",RESOLUTION=" ∧ Bare "x" := by decide
    refine ⟨toString v.bandwidth.toNat ++ (",RESOLUTION=" ++ toString w.toNat ++ "x" ++
      toString h.toNat), ?_, ?_⟩
    · simp only [bare_append, bare_toString, hmarks, and_self]
    · simp only [String.toList_append, hcodecs, List.append_assoc]

/-- The one quoted value among the properties of a variant is no URI. -/
theorem lineUris_streamInf {v : Variant} (h : Bare v.codecs) :
    lineUris v.streamInf.toList = [] := by
  obtain ⟨front, hfront, hstream⟩ := v.exists_streamInf_eq
  have htag : lineUris v.streamInf.toList = attributeUris v.streamInf.toList := by
    rw [hstream]
    rfl
  rw [htag, hstream]
  split
  · rw [List.append_nil]
    exact attributeUris_bare (by decide) hfront
  · have hnone : '"' ∉
        "#EXT-X-STREAM-INF:BANDWIDTH=".toList ++ (front.toList ++ ",CODECS=".toList) := by
      simp only [List.mem_append, not_or]
      exact ⟨by decide, hfront.quote_notMem, by decide⟩
    have hname : endsWithUri
        ("#EXT-X-STREAM-INF:BANDWIDTH=".toList ++ (front.toList ++ ",CODECS=".toList)) = false := by
      rw [← List.append_assoc]
      exact endsWithUri_append_codecs _
    have huris := attributeUris_quoted hnone h
    rw [if_neg (Bool.eq_false_iff.1 hname)] at huris
    rw [← huris]
    simp only [List.append_assoc]

theorem newline_notMem_streamInf {v : Variant} (h : Bare v.codecs) : '\n' ∉ v.streamInf.toList := by
  obtain ⟨front, hfront, hstream⟩ := v.exists_streamInf_eq
  rw [hstream, List.mem_append, List.mem_append]
  refine not_or.2 ⟨by decide, not_or.2 ⟨hfront.newline_notMem, ?_⟩⟩
  split
  · exact List.not_mem_nil
  · simp only [List.mem_append, List.mem_cons, not_or]
    exact ⟨by decide, by decide, h.newline_notMem, by decide⟩

theorem listedUris_text {v : Variant} (hcodecs : Bare v.codecs) (huri : Reference v.uri)
    (rest : String) : listedUris (v.text ++ rest) = v.uri :: listedUris rest := by
  have htext : v.text ++ rest = v.streamInf ++ "\n" ++ (v.uri ++ "\n" ++ rest) := by
    simp only [text, String.append_assoc]
  rw [htext, listedUris_append (newline_notMem_streamInf hcodecs),
    listedUris_append huri.newline_notMem, lineUris_streamInf hcodecs, huri.lineUris_eq]
  rfl

end Variant

/-- **A master playlist** lists the URIs of its variants. -/
theorem listedUris_master {variants : List Variant}
    (h : ∀ v ∈ variants, Bare v.codecs ∧ Reference v.uri) :
    listedUris (master variants) = variants.map (·.uri) := by
  have hheader : ∀ rest, listedUris (masterHeader ++ rest) = listedUris rest := by
    intro rest
    have hlines : masterHeader ++ rest =
        "#EXTM3U" ++ "\n" ++ ("#EXT-X-VERSION:7" ++ "\n" ++ rest) := by
      have hlines : masterHeader = "#EXTM3U" ++ "\n" ++ ("#EXT-X-VERSION:7" ++ "\n") := by decide
      rw [hlines, String.append_assoc]
    rw [hlines, listedUris_append (by decide), listedUris_append (by decide)]
    rfl
  rw [master, hheader]
  induction variants with
  | nil => rfl
  | cons v vs ih =>
    obtain ⟨hcodecs, huri⟩ := h v List.mem_cons_self
    rw [List.map_cons, String.join_cons, Variant.listedUris_text hcodecs huri,
      ih fun v' hv' => h v' (List.mem_cons_of_mem _ hv')]
    rfl

/-- What begins with a number is a URI. -/
theorem reference_of_number (n : Nat) {rest : String} (h : '\n' ∉ rest.toList) :
    Reference (toString n ++ rest) := by
  obtain ⟨c, cs, hcs⟩ := List.exists_cons_of_ne_nil (Nat.toDigits_ne_nil (b := 10) (n := n))
  rw [← toList_toString] at hcs
  have hdigit : c.isDigit = true := isDigit_of_mem_toString (hcs ▸ List.mem_cons_self)
  refine ⟨?_, ?_, ?_⟩ <;> rw [String.toList_append]
  · rw [hcs]
    nofun
  · rw [hcs]
    rintro ⟨⟩
    exact absurd hdigit (by decide)
  · exact fun hc => (List.mem_append.1 hc).elim (bare_toString n).newline_notMem h

/-! ## Names of codecs -/

theorem exists_of_mem_digits {n : Nat} {c : Char} (h : c ∈ Text.Hexadecimal.digits n) :
    ∃ d < 16, c = Nat.digitChar d := by
  unfold Text.Hexadecimal.digits at h
  induction n using Nat.strongRecOn with
  | ind n ih =>
    rw [Nat.toDigits_eq_if (by decide)] at h
    split at h
    · rename_i hn
      exact ⟨n, hn, List.mem_singleton.1 h⟩
    · rcases List.mem_append.1 h with h | h
      · exact ih (n / 16) (by omega) h
      · exact ⟨n % 16, Nat.mod_lt _ (by decide), List.mem_singleton.1 h⟩

theorem bare_upper (width n : Nat) : Bare (Text.Hexadecimal.upper width n) := by
  have hdigits : ∀ d < 16, (Nat.digitChar d).toUpper ≠ '\n' ∧ (Nat.digitChar d).toUpper ≠ '"' := by
    decide
  intro c hc
  simp only [Text.Hexadecimal.upper, String.toList_ofList, List.mem_append, List.mem_replicate,
    List.mem_map] at hc
  rcases hc with ⟨-, rfl⟩ | ⟨c, hc, rfl⟩
  · decide
  · obtain ⟨d, hd, rfl⟩ := exists_of_mem_digits hc
    exact hdigits d hd

theorem bare_name (codec : Codec) : Bare codec.name := by cases codec <;> decide

theorem bare_tag_video (format : VideoFormat) : Bare format.tag := by
  have hmarks : Bare "avc1." ∧ Bare "hev1." ∧ Bare "." ∧ Bare ".L" ∧ Bare ".90" := by decide
  unfold VideoFormat.tag
  split
  · split
    · simp only [bare_append, bare_upper, hmarks, and_self]
    · decide
  · split
    · simp only [bare_append, bare_upper, hmarks, and_self]
    · decide
  · exact bare_name _

theorem bare_tag_audio (format : AudioFormat) : Bare format.tag := by
  unfold AudioFormat.tag
  split
  · exact bare_append.2 ⟨by decide, bare_toString _⟩
  · exact bare_name _

theorem bare_codecs (format : SourceFormat) : Bare format.codecs := by
  unfold SourceFormat.codecs
  rcases format.video with _ | v <;> rcases format.audio with _ | a
  · decide
  · exact bare_tag_audio a
  · exact bare_tag_video v
  · exact bare_append.2 ⟨bare_append.2 ⟨bare_tag_video v, by decide⟩, bare_tag_audio a⟩

end LiveHls.Playlist
