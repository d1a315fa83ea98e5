import LiveHls.Export
import Mathlib.Data.String.Basic

/-!
# Files in a directory that was empty

* `Directory.Plain` : names that stand for themselves in a path; `Plain.follow_eq`,
  `normalize_foldl_joinPath` : a path that ends in such names ends in these components;
* `Directory.Vacant` : a place where nothing is, at most an empty directory;
* `Directory.Takes` : a directory in which files can be written one after the other;
* `Export.run_writeAll` : files none of which lies on the way to another are all written there, and
  nothing else changes.
-/

namespace LiveHls

namespace Directory

/-! ## Paths -/

/-- A name that stands for itself in a path. -/
structure Plain (name : String) : Prop where
  nonempty : name ≠ ""
  ne_dot : name ≠ "."
  ne_dots : name ≠ ".."
  slash_notMem : '/' ∉ name.toList

section Paths
variable {name : String}

theorem names_eq (path : String) :
    names path = (path.toList.splitOnP (· == '/')).map String.ofList :=
  String.splitToList_of_valid path _

theorem names_append (dir rest : String) :
    names (dir ++ "/" ++ rest) = names dir ++ names rest := by
  have hslash : "/".toList = ['/'] := by decide
  simp only [names_eq, String.toList_append, hslash, List.append_assoc, List.singleton_append]
  rw [List.splitOnP_append_cons (p := fun c => c == '/') _ _ rfl, List.map_append]

theorem Plain.names_eq (h : Plain name) : names name = [name] := by
  have hnone : ∀ c ∈ name.toList, (c == '/') = false := fun c hc =>
    beq_false_of_ne fun he => h.slash_notMem (he ▸ hc)
  rw [Directory.names_eq, List.splitOnP_eq_singleton hnone, List.map_singleton,
    String.ofList_toList]

theorem follow_append (start : List String) (dir rest : String) :
    follow start (dir ++ "/" ++ rest) = follow (follow start dir) rest := by
  unfold follow
  rw [names_append, List.foldl_append]

/-- One more component. -/
theorem Plain.follow_eq (h : Plain name) (start : List String) :
    follow start name = start ++ [name] := by
  unfold follow enter
  rw [h.names_eq, List.foldl_cons, List.foldl_nil, if_neg (not_or.2 ⟨h.nonempty, h.ne_dot⟩),
    if_neg h.ne_dots]

theorem follow_empty (start : List String) : follow start "" = start := by
  have hempty : names "" = [""] := by rw [names_eq]; rfl
  unfold follow
  rw [hempty]
  rfl

theorem follow_append_slash (start : List String) (dir : String) :
    follow start (dir ++ "/") = follow start dir := by
  rw [← String.append_empty (s := dir ++ "/"), follow_append, follow_empty]

theorem exists_append_slash {dir : String} (h : dir.endsWith "/" = true) : ∃ d, dir = d ++ "/" := by
  rw [String.endsWith_eq_endsWith_toSlice, String.Slice.endsWith_string_iff] at h
  obtain ⟨cs, hcs⟩ := h
  refine ⟨.ofList cs, String.toList_inj.1 ?_⟩
  rw [String.toList_append, String.toList_ofList, hcs, String.copy_toSlice]

/-- Joining a name to a directory, however that is written, adds one component. -/
theorem normalize_joinPath (h : Plain name) (dir : String) :
    normalize (joinPath dir name) = normalize dir ++ [name] := by
  unfold joinPath normalize
  split
  · rename_i hdir
    rcases Bool.or_eq_true_iff.1 hdir with hempty | hslash
    · have hempty : dir = "" := String.isEmpty_iff.1 hempty
      rw [hempty, String.empty_append, follow_empty, h.follow_eq]
    · obtain ⟨d, rfl⟩ := exists_append_slash hslash
      rw [follow_append, h.follow_eq, follow_append_slash]
  · rw [follow_append, h.follow_eq]

theorem normalize_foldl_joinPath {path : List String} (h : ∀ name ∈ path, Plain name)
    (dir : String) : normalize (path.foldl joinPath dir) = normalize dir ++ path := by
  induction path generalizing dir with
  | nil => rw [List.foldl_nil, List.append_nil]
  | cons name rest ih =>
    rw [List.foldl_cons, ih fun n hn => h n (List.mem_cons_of_mem _ hn),
      normalize_joinPath (h name List.mem_cons_self), List.append_assoc, List.singleton_append]

end Paths

/-! ## Places where files can be written -/

/-- Nothing is at the path or below it but directories without files at the path itself, and no file
is on the way to it. -/
structure Vacant (d : Directory) (base : List String) : Prop where
  files_apart : ∀ f ∈ d.files, ¬ f.1 <+: base ∧ ¬ base <+: f.1
  directories : ∀ q ∈ d.directories, base <+: q → q = base

/-- Files can be written at the paths below `base`: no file is on the way to one of them, and
neither a file nor a directory is at one of them or below. -/
structure Takes (d : Directory) (base : List String) (paths : List (List String)) : Prop where
  files_not_above : ∀ f ∈ d.files, ∀ p ∈ paths, ¬ f.1 <+: base ++ p
  files_not_below : ∀ f ∈ d.files, ∀ p ∈ paths, ¬ base ++ p <+: f.1
  directories_not_below : ∀ q ∈ d.directories, ∀ p ∈ paths, ¬ base ++ p <+: q

/-- No path leads to another or through it. -/
def Apart (paths : List (List String)) : Prop :=
  paths.Pairwise fun p q => ¬ p <+: q ∧ ¬ q <+: p

section Writing
variable {d : Directory} {base path : List String} {paths : List (List String)}

theorem Vacant.takes (h : d.Vacant base) (hpaths : ∀ p ∈ paths, p ≠ []) : d.Takes base paths where
  files_not_above := by
    intro f hf p hp hprefix
    obtain ⟨habove, hbelow⟩ := h.files_apart f hf
    rcases List.prefix_or_prefix_of_prefix hprefix (List.prefix_append base p) with hb | hb
    · exact habove hb
    · exact hbelow hb
  files_not_below := by
    intro f hf p hp hprefix
    exact (h.files_apart f hf).2 ((List.prefix_append base p).trans hprefix)
  directories_not_below := by
    intro q hq p hp hprefix
    obtain rfl := h.directories q hq ((List.prefix_append base p).trans hprefix)
    have hlength := hprefix.length_le
    rw [List.length_append] at hlength
    exact hpaths p hp (List.length_eq_zero_iff.1 (by omega))

/-- The directory of the first file can be made. -/
theorem Takes.makeDirectory (h : d.Takes base (path :: paths)) :
    d.makeDirectory (base ++ path.dropLast) =
      ({ d with directories := d.directories ++ [base ++ path.dropLast] }, true) := by
  have hfree : d.isBlocked (base ++ path.dropLast) = false := by
    refine List.any_eq_false.2 fun f hf hprefix => ?_
    refine h.files_not_above f hf path List.mem_cons_self ?_
    exact (List.isPrefixOf_iff_prefix.1 hprefix).trans
      ((List.prefix_append_right_inj base).2 (List.dropLast_prefix path))
  unfold Directory.makeDirectory
  rw [hfree]
  rfl

/-- The first file can be written into it. -/
theorem Takes.writeFile (h : d.Takes base (path :: paths)) (hpath : path ≠ []) (content : Content) :
    ({ d with directories := d.directories ++ [base ++ path.dropLast] } : Directory).writeFile
        (base ++ path) content =
      (⟨d.files ++ [(base ++ path, content)], d.directories ++ [base ++ path.dropLast]⟩, true) := by
  have hmem : path ∈ path :: paths := List.mem_cons_self
  have hshort : ¬ base ++ path <+: base ++ path.dropLast := by
    intro hprefix
    have hlength := hprefix.length_le
    have hpos := List.length_pos_iff.2 hpath
    simp only [List.length_append, List.length_dropLast] at hlength
    omega
  have hfree : ({ d with directories := d.directories ++ [base ++ path.dropLast] } :
      Directory).isDirectory (base ++ path) = false := by
    unfold isDirectory
    simp only [Bool.or_eq_false_iff, List.any_append, List.any_eq_false, List.any_cons,
      List.any_nil, Bool.or_false, List.isPrefixOf_iff_prefix, Bool.and_eq_true, not_and]
    refine ⟨⟨by simp [hpath], fun q hq => h.directories_not_below q hq path hmem, ?_⟩,
      fun f hf hprefix => absurd hprefix (h.files_not_below f hf path hmem)⟩
    exact Bool.eq_false_iff.2 fun hprefix => hshort (List.isPrefixOf_iff_prefix.1 hprefix)
  have hmade : ({ d with directories := d.directories ++ [base ++ path.dropLast] } :
      Directory).isDirectory (base ++ path).dropLast = true := by
    rw [List.dropLast_append_of_ne_nil hpath]
    unfold isDirectory
    simp
  have hothers : d.files.filter (·.1 != base ++ path) = d.files := by
    refine List.filter_eq_self.2 fun f hf => bne_iff_ne.2 fun he => ?_
    exact h.files_not_above f hf path hmem (he ▸ List.prefix_rfl)
  unfold Directory.writeFile
  rw [hfree, hmade, hothers]
  rfl

/-- The other files can be written then. -/
theorem Takes.tail (h : d.Takes base (path :: paths)) (hapart : Apart (path :: paths))
    (content : Content) :
    Takes ⟨d.files ++ [(base ++ path, content)], d.directories ++ [base ++ path.dropLast]⟩ base
      paths := by
  have hapart : ∀ {p}, p ∈ paths → ¬ path <+: p ∧ ¬ p <+: path := fun hp =>
    List.rel_of_pairwise_cons hapart hp
  constructor
  · intro f hf p hp hprefix
    rcases List.mem_append.1 hf with hf | hf
    · exact h.files_not_above f hf p (List.mem_cons_of_mem _ hp) hprefix
    · rw [List.mem_singleton.1 hf] at hprefix
      exact (hapart hp).1 ((List.prefix_append_right_inj base).1 hprefix)
  · intro f hf p hp hprefix
    rcases List.mem_append.1 hf with hf | hf
    · exact h.files_not_below f hf p (List.mem_cons_of_mem _ hp) hprefix
    · rw [List.mem_singleton.1 hf] at hprefix
      exact (hapart hp).2 ((List.prefix_append_right_inj base).1 hprefix)
  · intro q hq p hp hprefix
    rcases List.mem_append.1 hq with hq | hq
    · exact h.directories_not_below q hq p (List.mem_cons_of_mem _ hp) hprefix
    · rw [List.mem_singleton.1 hq] at hprefix
      have hshort := (List.prefix_append_right_inj base).1 hprefix
      exact (hapart hp).2 (hshort.trans (List.dropLast_prefix path))

end Writing

theorem run_makeDirectory (d : Directory) (path : String) :
    (storage.makeDirectory path).run d = (d.makeDirectory (normalize path)).swap :=
  rfl

theorem run_writeFile (d : Directory) (path : String) (content : Content) :
    (storage.writeFile path content).run d = (d.writeFile (normalize path) content).swap :=
  rfl

end Directory

namespace Export

open Directory (Plain Takes Apart normalize)

/-- One file is written after the other. -/
theorem run_writeAll_cons {dir : String} {e : Entry} {d d₁ d₂ : Directory} (es : List Entry)
    (hplain : ∀ name ∈ e.path, Plain name)
    (hmade : d.makeDirectory (normalize dir ++ e.path.dropLast) = (d₁, true))
    (hwritten : d₁.writeFile (normalize dir ++ e.path) e.content = (d₂, true)) :
    (writeAll Directory.storage dir (e :: es)).run d =
      (writeAll Directory.storage dir es).run d₂ := by
  rw [← Directory.normalize_foldl_joinPath
    (fun name hname => hplain name ((List.dropLast_sublist _).subset hname))] at hmade
  rw [← Directory.normalize_foldl_joinPath hplain] at hwritten
  have hdirectory : (Directory.storage.makeDirectory (e.path.dropLast.foldl joinPath dir)).run d =
      (true, d₁) := by
    rw [Directory.run_makeDirectory, hmade]
    rfl
  have hfile : (Directory.storage.writeFile (e.path.foldl joinPath dir) e.content).run d₁ =
      (true, d₂) := by
    rw [Directory.run_writeFile, hwritten]
    rfl
  rw [writeAll, StateT.run_bind, hdirectory]
  show (bind _ _ : StateM Directory Bool).run d₁ = _
  rw [StateT.run_bind, hfile]
  rfl

/-- **All files are written**, each at its path below the directory, and nothing else changes. -/
theorem run_writeAll {dir : String} {entries : List Entry} {d : Directory}
    (htakes : d.Takes (normalize dir) (entries.map (·.path)))
    (hpaths : ∀ e ∈ entries, e.path ≠ [] ∧ ∀ name ∈ e.path, Plain name)
    (hapart : Apart (entries.map (·.path))) :
    ∃ d', (writeAll Directory.storage dir entries).run d = (true, d') ∧
      d'.files = d.files ++ entries.map fun e => (normalize dir ++ e.path, e.content) := by
  induction entries generalizing d with
  | nil => exact ⟨d, rfl, (List.append_nil _).symm⟩
  | cons e es ih =>
    obtain ⟨hpath, hplain⟩ := hpaths e List.mem_cons_self
    obtain ⟨d', hrun, hfiles⟩ := ih (htakes.tail hapart e.content)
      (fun e' he' => hpaths e' (List.mem_cons_of_mem _ he')) (List.Pairwise.of_cons hapart)
    refine ⟨d', ?_, ?_⟩
    · rw [run_writeAll_cons es hplain htakes.makeDirectory (htakes.writeFile hpath e.content), hrun]
    · rw [hfiles, List.append_assoc]
      rfl

end Export

end LiveHls
