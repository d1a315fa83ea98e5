import LiveHls.Playlist.Line
import Mathlib.Data.List.Basic

/-!
# Reading the URIs of a playlist from its text

A client sees the text of a playlist only. It takes lines apart at line ends and tells them apart by
how they begin.

* `linesOf` : the lines of a text; `linesOf_text` : they are the lines that were printed;
* `partUris`, `hintUris`, `segmentUris` : the URIs of parts, of preload hints and of segments in a
  text, and for each the lines that it comes from (`partUris_text`, `hintUris_text`,
  `segmentUris_text`);
* `partUri_inj`, `segmentUri_inj` : different parts and segments have different URIs.
-/

namespace LiveHls.Playlist

/-! ## Numbers, durations and dates contain no line end and no quote -/

/-- No line end and no quote. -/
def Bare (s : String) : Prop := ∀ c ∈ s.toList, c ≠ '\n' ∧ c ≠ '"'

instance (s : String) : Decidable (Bare s) :=
  List.decidableBAll (fun c => c ≠ '\n' ∧ c ≠ '"') s.toList

theorem bare_append {s t : String} : Bare (s ++ t) ↔ Bare s ∧ Bare t := by
  unfold Bare
  rw [String.toList_append]
  exact List.forall_mem_append

theorem Bare.newline_notMem {s : String} (h : Bare s) : '\n' ∉ s.toList := fun hc => (h _ hc).1 rfl

theorem Bare.quote_notMem {s : String} (h : Bare s) : '"' ∉ s.toList := fun hc => (h _ hc).2 rfl

theorem toList_toString (n : Nat) : (toString n).toList = Nat.toDigits 10 n := Nat.toList_repr

theorem isDigit_of_mem_toString {n : Nat} {c : Char} (h : c ∈ (toString n).toList) :
    c.isDigit = true := by
  rw [toList_toString] at h
  exact Nat.isDigit_of_mem_toDigits (by decide) (by decide) h

theorem bare_toString (n : Nat) : Bare (toString n) := by
  intro c hc
  have hdigit := isDigit_of_mem_toString hc
  constructor
  · rintro rfl
    exact absurd hdigit (by decide)
  · rintro rfl
    exact absurd hdigit (by decide)

theorem bare_padded (width n : Nat) : Bare (Dyadic.padded width n) := by
  refine bare_append.2 ⟨fun c hc => ?_, bare_toString n⟩
  rw [String.toList_ofList] at hc
  rw [List.eq_of_mem_replicate hc]
  decide

theorem bare_fixed (places : Nat) (a : Dyadic) : Bare (a.fixed places) := by
  have hpoint : Bare "." := by decide
  simp only [Dyadic.fixed, bare_append, bare_toString, bare_padded, hpoint, and_self]

theorem bare_text_duration (d : Duration) : Bare d.text := bare_fixed 5 d.seconds

theorem bare_yearText (year : Int) : Bare (CivilDate.yearText year) := by
  unfold CivilDate.yearText
  split
  · exact bare_append.2 ⟨by decide, bare_padded _ _⟩
  · split
    · exact bare_padded _ _
    · exact bare_append.2 ⟨by decide, bare_toString _⟩

theorem bare_text_instant (t : Instant) : Bare t.text := by
  have hmarks : Bare "-" ∧ Bare "T" ∧ Bare ":" ∧ Bare "." ∧ Bare "Z" := by decide
  simp only [Instant.text, bare_append, bare_yearText, bare_padded, hmarks, and_self]

theorem bare_partUri (segment part : Nat) : Bare (partUri segment part) := by
  have hmarks : Bare "fragment/" ∧ Bare "/" ∧ Bare mediaFile := by decide
  simp only [partUri, bare_append, bare_toString, hmarks, and_self]

/-! ## Different places have different URIs -/

theorem toString_inj {m n : Nat} : toString m = toString n ↔ m = n := by
  refine ⟨fun h => ?_, fun h => h ▸ rfl⟩
  have hdigits := congrArg String.toList h
  rw [toList_toString, toList_toString] at hdigits
  rw [← Nat.ofDigitChars_ten_toDigits (n := m), hdigits, Nat.ofDigitChars_ten_toDigits]

theorem slash_notMem_toString (n : Nat) : '/' ∉ (toString n).toList := by
  intro h
  exact absurd (isDigit_of_mem_toString h) (by decide)

/-- A text is cut at its first slash in one way only. -/
theorem append_slash_inj {xs ys us vs : List Char} (hxs : '/' ∉ xs) (hys : '/' ∉ ys)
    (h : xs ++ '/' :: us = ys ++ '/' :: vs) : xs = ys ∧ us = vs := by
  have front : ∀ zs ws : List Char, '/' ∉ zs → (zs ++ '/' :: ws).takeWhile (· != '/') = zs := by
    intro zs ws hzs
    rw [List.takeWhile_append_of_pos fun c hc => by
      simpa using fun he : c = '/' => hzs (he ▸ hc)]
    simp
  have hfront := congrArg (List.takeWhile (· != '/')) h
  rw [front xs us hxs, front ys vs hys] at hfront
  rw [hfront] at h
  exact ⟨hfront, (List.cons.inj (List.append_cancel_left h)).2⟩

theorem segmentUri_inj {s s' : Nat} : segmentUri s = segmentUri s' ↔ s = s' := by
  refine ⟨fun h => ?_, fun h => h ▸ rfl⟩
  have hchars := congrArg String.toList h
  simp only [segmentUri, String.toList_append, List.append_assoc] at hchars
  obtain ⟨hs, -⟩ := append_slash_inj (slash_notMem_toString s) (slash_notMem_toString s')
    (List.append_cancel_left hchars)
  exact toString_inj.1 (String.toList_inj.1 hs)

theorem partUri_inj {s f s' f' : Nat} : partUri s f = partUri s' f' ↔ s = s' ∧ f = f' := by
  refine ⟨fun h => ?_, fun h => by rw [h.1, h.2]⟩
  have hchars := congrArg String.toList h
  simp only [partUri, String.toList_append, List.append_assoc] at hchars
  obtain ⟨hs, hrest⟩ := append_slash_inj (slash_notMem_toString s) (slash_notMem_toString s')
    (List.append_cancel_left hchars)
  obtain ⟨hf, -⟩ := append_slash_inj (slash_notMem_toString f) (slash_notMem_toString f') hrest
  exact ⟨toString_inj.1 (String.toList_inj.1 hs), toString_inj.1 (String.toList_inj.1 hf)⟩

/-! ## Lines -/

namespace Line

/-- How a line begins, whatever its values. -/
def tag : Line → List Char
  | playlist => "#EXTM3U".toList
  | version => "#EXT-X-VERSION:7".toList
  | targetDuration _ => "#EXT-X-TARGETDURATION:".toList
  | serverControl _ => "#EXT-X-SERVER-CONTROL:CAN-BLOCK-RELOAD=YES,PART-HOLD-BACK=".toList
  | initialization => "#EXT-X-MAP:URI=\"".toList
  | partTarget _ => "#EXT-X-PART-INF:PART-TARGET=".toList
  | mediaSequence _ => "#EXT-X-MEDIA-SEQUENCE:".toList
  | part .. => "#EXT-X-PART:DURATION=".toList
  | preloadHint .. => "#EXT-X-PRELOAD-HINT:TYPE=PART,URI=\"".toList
  | programDateTime _ => "#EXT-X-PROGRAM-DATE-TIME:".toList
  | segmentDuration _ => "#EXTINF:".toList
  | segment _ => "segment/".toList

/-- What stands behind the beginning of a line, up to the line end. -/
def values : Line → String
  | playlist | version => ""
  | targetDuration seconds => toString seconds.toNat
  | serverControl holdBack => holdBack.text
  | initialization => initializationFile ++ "\""
  | partTarget target => target.text
  | mediaSequence first => toString first
  | part s f duration independent =>
    duration.text ++ (if independent then ",INDEPENDENT=YES" else "") ++ ",URI=\"" ++ partUri s f
      ++ "\""
  | preloadHint s f => partUri s f ++ "\""
  | programDateTime start => start.text
  | segmentDuration duration => duration.text
  | segment id => toString id ++ "/" ++ mediaFile

def chars (l : Line) : List Char := l.tag ++ l.values.toList

theorem toList_text (l : Line) : l.text.toList = l.chars ++ ['\n'] := by
  cases l <;> unfold text chars tag values <;>
    simp only [segmentUri, String.toList_append, List.append_assoc,
      List.append_cancel_left_eq] <;> rfl

theorem newline_notMem_tag (l : Line) : '\n' ∉ l.tag := by
  cases l <;> exact of_decide_eq_true rfl

theorem newline_notMem_values (l : Line) : '\n' ∉ l.values.toList := by
  have append : ∀ {s t : String}, '\n' ∉ s.toList → '\n' ∉ t.toList → '\n' ∉ (s ++ t).toList := by
    intro s t hs ht
    rw [String.toList_append, List.mem_append]
    exact not_or.2 ⟨hs, ht⟩
  have quote : ∀ {s : String}, Bare s → '\n' ∉ (s ++ "\"").toList := fun hs =>
    append hs.newline_notMem (by decide)
  cases l with
  | playlist | version => exact Bare.newline_notMem (by decide)
  | targetDuration _ | mediaSequence _ => exact (bare_toString _).newline_notMem
  | serverControl _ | partTarget _ | segmentDuration _ => exact (bare_text_duration _).newline_notMem
  | initialization => exact quote (by decide)
  | programDateTime _ => exact (bare_text_instant _).newline_notMem
  | preloadHint s f => exact quote (bare_partUri s f)
  | segment _ =>
    exact (bare_append.2 ⟨bare_append.2 ⟨bare_toString _, by decide⟩, by decide⟩).newline_notMem
  | part s f duration independent =>
    have hindependent : Bare (if independent then ",INDEPENDENT=YES" else "") := by
      cases independent <;> decide
    have hduration := bare_append.2 ⟨bare_text_duration duration, hindependent⟩
    exact append (append (append hduration.newline_notMem (by decide))
      (bare_partUri s f).newline_notMem) (by decide)

theorem newline_notMem_chars (l : Line) : '\n' ∉ l.chars := by
  rw [chars, List.mem_append]
  exact not_or.2 ⟨l.newline_notMem_tag, l.newline_notMem_values⟩

end Line

/-- The lines of a text, without their line ends; the last one follows the last line end. -/
def linesOf (text : String) : List (List Char) := text.toList.splitOn '\n'

/-- **The lines of a playlist's text** are the lines that were printed, and nothing follows them. -/
theorem linesOf_text (lines : List Line) : linesOf (text lines) = lines.map Line.chars ++ [[]] := by
  unfold linesOf text
  rw [String.toList_join, List.flatMap_map]
  induction lines with
  | nil => rfl
  | cons l rest ih =>
    rw [List.flatMap_cons, l.toList_text, List.append_assoc, List.singleton_append,
      List.splitOn_append_cons_self_of_not_mem l.newline_notMem_chars, ih]
    rfl

/-! ## URIs in a text -/

/-- What stands between the first two quotes of a line. -/
def quoted (line : List Char) : String :=
  .ofList ((line.dropWhile (· != '"')).tail.takeWhile (· != '"'))

theorem quoted_eq {front : List Char} {s : String} (hfront : '"' ∉ front) (hs : Bare s) :
    quoted (front ++ '"' :: (s.toList ++ ['"'])) = s := by
  have skip : ∀ {cs : List Char}, '"' ∉ cs → ∀ c ∈ cs, (c != '"') = true := by
    intro cs hcs c hc
    simpa using fun he : c = '"' => hcs (he ▸ hc)
  unfold quoted
  rw [List.dropWhile_append_of_pos (skip hfront)]
  simp only [List.dropWhile_cons, bne_self_eq_false, Bool.false_eq_true, if_false, List.tail_cons]
  rw [List.takeWhile_append_of_pos (skip hs.quote_notMem)]
  simp

/-- The quoted URIs of the lines that begin in this way. -/
def urisTagged (tag text : String) : List String :=
  ((linesOf text).filter tag.toList.isPrefixOf).map quoted

def partUris (text : String) : List String := urisTagged "#EXT-X-PART:" text

def hintUris (text : String) : List String := urisTagged "#EXT-X-PRELOAD-HINT:" text

/-- The lines that are neither empty nor tags. -/
def segmentUris (text : String) : List String :=
  ((linesOf text).filter fun l => !l.isEmpty && l.head? != some '#').map .ofList

namespace Line

def partUri? : Line → Option String
  | part s f _ _ => some (partUri s f)
  | _ => none

def hintUri? : Line → Option String
  | preloadHint s f => some (partUri s f)
  | _ => none

def segmentUri? : Line → Option String
  | segment id => some (segmentUri id)
  | _ => none

/-- A part line has nothing quoted but its URI. -/
theorem chars_part (s f : Nat) (duration : Duration) (independent : Bool) : ∃ front,
    '"' ∉ front ∧ ",URI=".toList <:+ front ∧
    (part s f duration independent).chars = front ++ '"' :: ((partUri s f).toList ++ ['"']) := by
  refine ⟨"#EXT-X-PART:DURATION=".toList ++ (duration.text.toList ++
    ((if independent then ",INDEPENDENT=YES" else "").toList ++ ",URI=".toList)), ?_, ?_, ?_⟩
  · have hindependent : '"' ∉ (if independent then ",INDEPENDENT=YES" else "").toList := by
      cases independent <;> decide
    simp only [List.mem_append, not_or]
    exact ⟨by decide, (bare_text_duration duration).quote_notMem, hindependent, by decide⟩
  · exact (List.suffix_append _ _).trans ((List.suffix_append _ _).trans (List.suffix_append _ _))
  · have hchars : (part s f duration independent).chars = "#EXT-X-PART:DURATION=".toList ++
        (duration.text ++ (if independent then ",INDEPENDENT=YES" else "") ++ ",URI=\"" ++
          partUri s f ++ "\"").toList := rfl
    have huri : ",URI=\"".toList = ",URI=".toList ++ ['"'] := by decide
    have hquote : "\"".toList = ['"'] := by decide
    rw [hchars]
    simp only [String.toList_append, huri, hquote, List.append_assoc, List.cons_append,
      List.nil_append]

theorem quoted_part (s f : Nat) (duration : Duration) (independent : Bool) :
    quoted (part s f duration independent).chars = partUri s f := by
  obtain ⟨front, hfront, -, hchars⟩ := chars_part s f duration independent
  rw [hchars, quoted_eq hfront (bare_partUri s f)]

theorem chars_segment (id : Nat) : (segment id).chars = (segmentUri id).toList := by
  show "segment/".toList ++ (toString id ++ "/" ++ mediaFile).toList = _
  simp only [segmentUri, String.toList_append, List.append_assoc]

theorem quoted_preloadHint (s f : Nat) : quoted (preloadHint s f).chars = partUri s f := by
  have hfront : '"' ∉ "#EXT-X-PRELOAD-HINT:TYPE=PART,URI=".toList := by decide
  have hchars : (preloadHint s f).chars =
      "#EXT-X-PRELOAD-HINT:TYPE=PART,URI=\"".toList ++ (partUri s f ++ "\"").toList := rfl
  have huri : "#EXT-X-PRELOAD-HINT:TYPE=PART,URI=\"".toList =
      "#EXT-X-PRELOAD-HINT:TYPE=PART,URI=".toList ++ ['"'] := by decide
  have hquote : "\"".toList = ['"'] := by decide
  rw [hchars]
  refine Eq.trans (congrArg quoted ?_) (quoted_eq hfront (bare_partUri s f))
  simp only [String.toList_append, huri, hquote, List.append_assoc, List.cons_append,
    List.nil_append]

end Line

/-- Readers that take some lines and something of each read from a text what they read from the
printed lines. -/
theorem filter_map_linesOf {keep : List Char → Bool} {read : List Char → String}
    {uri? : Line → Option String} (hend : keep [] = false)
    (hline : ∀ l : Line, uri? l = if keep l.chars then some (read l.chars) else none)
    (lines : List Line) :
    ((linesOf (text lines)).filter keep).map read = lines.filterMap uri? := by
  rw [linesOf_text, List.filter_append, List.filter_cons_of_neg (by simp [hend]), List.filter_nil,
    List.append_nil]
  induction lines with
  | nil => rfl
  | cons l rest ih =>
    rw [List.map_cons, List.filter_cons, List.filterMap_cons, hline l]
    split
    · rw [List.map_cons, ih]
    · exact ih

/-- **The URIs of parts in a text** are those of the part lines. -/
theorem partUris_text (lines : List Line) :
    partUris (text lines) = lines.filterMap Line.partUri? := by
  refine filter_map_linesOf rfl (fun l => ?_) lines
  cases l with
  | part s f duration independent => exact congrArg some (Line.quoted_part s f duration _).symm
  | _ => rfl

/-- **The URIs of preload hints in a text** are those of the hint lines. -/
theorem hintUris_text (lines : List Line) :
    hintUris (text lines) = lines.filterMap Line.hintUri? := by
  refine filter_map_linesOf rfl (fun l => ?_) lines
  cases l with
  | preloadHint s f => exact congrArg some (Line.quoted_preloadHint s f).symm
  | _ => rfl

/-- **The URIs of segments in a text** are those of the segment lines. -/
theorem segmentUris_text (lines : List Line) :
    segmentUris (text lines) = lines.filterMap Line.segmentUri? := by
  refine filter_map_linesOf rfl (fun l => ?_) lines
  cases l with
  | segment id =>
    refine congrArg some ?_
    rw [Line.chars_segment, String.ofList_toList]
  | _ => rfl

theorem partUri_mem_partUris {lines : List Line} {s f : Nat} :
    partUri s f ∈ partUris (text lines) ↔
      ∃ duration independent, .part s f duration independent ∈ lines := by
  rw [partUris_text, List.mem_filterMap]
  constructor
  · rintro ⟨l, hl, hu⟩
    cases l with
    | part s' f' duration independent =>
      obtain ⟨rfl, rfl⟩ := partUri_inj.1 (Option.some.inj hu)
      exact ⟨duration, independent, hl⟩
    | _ => cases hu
  · rintro ⟨duration, independent, hl⟩
    exact ⟨_, hl, rfl⟩

theorem segmentUri_mem_segmentUris {lines : List Line} {s : Nat} :
    segmentUri s ∈ segmentUris (text lines) ↔ .segment s ∈ lines := by
  rw [segmentUris_text, List.mem_filterMap]
  constructor
  · rintro ⟨l, hl, hu⟩
    cases l with
    | segment s' =>
      obtain rfl := segmentUri_inj.1 (Option.some.inj hu)
      exact hl
    | _ => cases hu
  · exact fun hl => ⟨_, hl, rfl⟩

end LiveHls.Playlist
