import LiveHls.Proofs.Export.Storing
import LiveHls.Proofs.Playlist.Listed
import LiveHls.Proofs.Rendition.Immutable
import Mathlib.Data.List.Induction
import Mathlib.Data.List.Nodup

/-!
# The files of an export

* `Export.File` : what an export writes a file for, with its path (`File.path`), the read that it
  answers (`File.answer?`) and the URI by which a playlist lists it (`File.uri`, `File.playlist`);
  `path_eq_of_prefix` : no file is in the way of another, `follow_uri` : the URI leads to the file;
* `Plan.Writes` : a plan that writes some files, with their answers, and counts them;
* `renditionFiles` : the files of what is closed in a rendition; `Probed.writes_partsPlan`,
  `Probed.writes_segmentPlan`, `Probed.writes_renditionPlan` : probing finds just these.
-/

namespace LiveHls

/-! ## What is answered at once -/

namespace Segment

/-- The number of closed parts. -/
def closedCount (s : Segment) : Nat := (s.parts.filter (·.isClosed)).length

theorem closedCount_le (s : Segment) : s.closedCount ≤ s.parts.length := List.length_filter_le ..

/-- The closed parts are those in front. -/
theorem Coherent.lt_closedCount_iff {s : Segment} (hs : s.Coherent) {f : Nat} :
    f < s.closedCount ↔ ∃ p, s.part? f = some p ∧ p.isClosed = true := by
  constructor
  · intro hf
    refine ⟨_, List.prefix_iff_getElem?.1 hs.closedParts_prefix_parts f hf, ?_⟩
    exact (List.mem_filter.1 (List.getElem_mem hf)).2
  · rintro ⟨p, hp, hc⟩
    exact (List.getElem?_eq_some_iff.1 (hs.getElem?_closedParts hp hc)).1

end Segment

namespace Rendition

section Reading
variable {r : Rendition} {t : Segment} {s f : Nat}

theorem readNow_of_found {read : Read} {result : Except Fault Body}
    (h : r.lookup read = .found result) : r.readNow read = result := by
  unfold readNow
  rw [h]

theorem readNow_of_awaits (hopen : r.closed = false) {read : Read} {what : Awaited}
    (h : r.lookup read = .awaits what) :
    r.readNow read = .error (.error (.timeout read.label)) := by
  unfold readNow
  rw [h, hopen]
  rfl

theorem Coherent.readNow_part_of_lt (hr : r.Coherent) (ht : t ∈ r.live) (hf : f < t.closedCount)
    (hin : r.readNow (.part t.id f) ≠ .error .durationOverflow) :
    ∃ bytes, r.readNow (.part t.id f) = .ok (.media bytes) := by
  obtain ⟨p, hp, hc⟩ := (hr.segment_coherent t ht).lt_closedCount_iff.1 hf
  have hread : r.readNow (.part t.id f) = r.media p.packets (sequenceNumber t.id f) := by
    apply readNow_of_found
    simp only [lookup, lookupPart, partAnswer, hr.segment?_eq_some_iff.2 ⟨ht, rfl⟩, hp, hc, if_true]
  rw [hread] at hin ⊢
  exact (r.media_cases ..).resolve_left hin

/-- A part that is not closed is waited for or missing. -/
theorem Coherent.readNow_part_cases (hr : r.Coherent) (hopen : r.closed = false) (s f : Nat) :
    r.readNow (.part s f) = .error (.error (.timeout "fragment")) ∨
    (∃ kind name, r.readNow (.part s f) = .error (.error (.notFound kind name))) ∨
    ∃ t ∈ r.live, t.id = s ∧ f < t.closedCount := by
  have h := r.lookup_part s f
  generalize hl : r.lookup (.part s f) = l at h
  cases h with
  | dropped => exact Or.inr (Or.inl ⟨_, _, readNow_of_found hl⟩)
  | absent => exact Or.inr (Or.inl ⟨_, _, readNow_of_found hl⟩)
  | awaited => exact Or.inl (readNow_of_awaits hopen hl)
  | @served t p hs hp hc =>
    obtain ⟨ht, hid⟩ := hr.segment?_eq_some_iff.1 hs
    exact Or.inr (Or.inr ⟨t, ht, hid, (hr.segment_coherent t ht).lt_closedCount_iff.2 ⟨p, hp, hc⟩⟩)

theorem Coherent.readNow_segment_of_closed (hr : r.Coherent) (ht : t ∈ r.live)
    (hc : t.isClosed = true) (hin : r.readNow (.segment t.id) ≠ .error .durationOverflow) :
    ∃ bytes, r.readNow (.segment t.id) = .ok (.media bytes) := by
  have hread : r.readNow (.segment t.id) = r.media t.packets (sequenceNumber t.id 0) := by
    apply readNow_of_found
    simp only [lookup, lookupSegment, segmentAnswer, hr.segment?_eq_some_iff.2 ⟨ht, rfl⟩, hc,
      if_true]
  rw [hread] at hin ⊢
  exact (r.media_cases ..).resolve_left hin

theorem Coherent.readNow_segment_of_open (hr : r.Coherent) (hopen : r.closed = false)
    (ht : t ∈ r.live) (hc : t.isClosed = false) :
    r.readNow (.segment t.id) = .error (.error (.timeout "segment")) := by
  have hwaits : r.lookup (.segment t.id) = .awaits (.segment t.id) := by
    simp only [lookup, lookupSegment, segmentAnswer, hr.segment?_eq_some_iff.2 ⟨ht, rfl⟩, hc,
      Bool.false_eq_true, if_false]
  exact readNow_of_awaits hopen hwaits

theorem Coherent.readNow_segment_of_dropped (hr : r.Coherent) (hs : ∀ t ∈ r.live, t.id ≠ s) :
    r.readNow (.segment s) = .error (.error (.notFound "segment" (toString s))) := by
  have hnone : r.segment? s = none := by
    rw [hr.segment?_eq_none_iff]
    exact fun hid => (List.mem_map.1 hid).elim fun t ht => hs t ht.1 ht.2
  apply readNow_of_found
  simp only [lookup, lookupSegment, segmentAnswer, hnone, segmentMissing]

theorem readNow_eq_overflow_iff (r : Rendition) (read : Read) :
    r.readNow read = .error .durationOverflow ↔
      r.lookup read = .found (.error .durationOverflow) := by
  unfold readNow
  cases r.lookup read with
  | found result => exact ⟨congrArg Lookup.found, Lookup.found.inj⟩
  | awaits what => exact ⟨nofun, nofun⟩

/-- No read breaks down but one of a closed segment or a closed part. -/
theorem Coherent.readNow_ne_overflow (hr : r.Coherent)
    (hsegment : ∀ t ∈ r.live, t.isClosed = true →
      r.readNow (.segment t.id) ≠ .error .durationOverflow)
    (hpart : ∀ t ∈ r.live, ∀ f < t.closedCount,
      r.readNow (.part t.id f) ≠ .error .durationOverflow) (read : Read) :
    r.readNow read ≠ .error .durationOverflow := by
  simp only [ne_eq, readNow_eq_overflow_iff] at hsegment hpart ⊢
  cases read with
  | playlist segment part =>
    rcases r.lookup_playlist_cases segment part with h | ⟨what, h⟩ <;> rw [h] <;> nofun
  | segment s =>
    have h := r.lookup_segment s
    generalize hl : r.lookup (.segment s) = l at h
    cases h with
    | dropped => nofun
    | awaited => nofun
    | served hs hc =>
      obtain ⟨ht, rfl⟩ := hr.segment?_eq_some_iff.1 hs
      exact hl ▸ hsegment _ ht hc
  | part s f =>
    have h := r.lookup_part s f
    generalize hl : r.lookup (.part s f) = l at h
    cases h with
    | dropped => nofun
    | absent => nofun
    | awaited => nofun
    | @served t p hs hp hc =>
      obtain ⟨ht, rfl⟩ := hr.segment?_eq_some_iff.1 hs
      exact hl ▸ hpart t ht f ((hr.segment_coherent t ht).lt_closedCount_iff.2 ⟨p, hp, hc⟩)

end Reading

end Rendition

namespace Export

open Directory (Plain Apart)

/-! ## Files -/

/-- What an export writes a file for. -/
inductive File where
  | master
  | index (rendition : Nat)
  | initialization (rendition : Nat)
  | segment (rendition id : Nat)
  | part (rendition segment id : Nat)
deriving DecidableEq

/-- The answer of a read as the content of a file. -/
def contentOf? : Except Fault Body → Option Content
  | .ok (.media bytes) => some (.data bytes)
  | .ok (.playlist lines) => some (.text (Playlist.text lines))
  | .error _ => none

namespace File

def path (writerId : UInt32) : File → List String
  | master => [masterFile]
  | index i => [toString writerId.toNat, toString i, Playlist.indexFile]
  | initialization i => [toString writerId.toNat, toString i, Playlist.initializationFile]
  | segment i s => [toString writerId.toNat, toString i, "segment", toString s, Playlist.mediaFile]
  | part i s f =>
    [toString writerId.toNat, toString i, "fragment", toString s, toString f, Playlist.mediaFile]

/-- What is read at this moment where the file comes from, if anything. -/
def answer? (c : Catalog) : File → Option Content
  | master => some (.text c.master)
  | index i => (c.renditionAt i).toOption.map fun r => .text (Playlist.text r.manifest)
  | initialization i => (c.renditionAt i).toOption.map fun r => .data r.initialization
  | segment i s => (c.renditionAt i).toOption.bind fun r => contentOf? (r.readNow (.segment s))
  | part i s f => (c.renditionAt i).toOption.bind fun r => contentOf? (r.readNow (.part s f))

/-- The playlist that lists the file. -/
def playlist : File → File
  | master | index _ => master
  | initialization i | segment i _ | part i _ _ => index i

/-- The URI by which it does. -/
def uri (writerId : UInt32) : File → String
  | master => masterFile
  | index i => Catalog.indexUri writerId i
  | initialization _ => Playlist.initializationFile
  | segment _ s => Playlist.segmentUri s
  | part _ s f => Playlist.partUri s f

/-! ### Paths -/

section Paths
variable {w : UInt32} {f g : File}

theorem plain_toString (n : Nat) : Plain (toString n) := by
  have hdigits : ∀ {name : String}, (∃ c ∈ name.toList, c.isDigit = false) → toString n ≠ name := by
    rintro name ⟨c, hc, hdigit⟩ rfl
    rw [Playlist.isDigit_of_mem_toString hc] at hdigit
    cases hdigit
  refine ⟨fun he => ?_, hdigits ⟨'.', by decide⟩, hdigits ⟨'.', by decide⟩,
    Playlist.slash_notMem_toString n⟩
  have hnil : Nat.toDigits 10 n = [] := by rw [← Playlist.toList_toString, he]; rfl
  exact Nat.toDigits_ne_nil hnil

theorem plain_names : Plain masterFile ∧ Plain Playlist.indexFile ∧
    Plain Playlist.initializationFile ∧ Plain Playlist.mediaFile ∧ Plain "segment" ∧
    Plain "fragment" := by
  refine ⟨?_, ?_, ?_, ?_, ?_, ?_⟩ <;> exact ⟨by decide, by decide, by decide, by decide⟩

theorem plain_of_mem_path : ∀ name ∈ f.path w, Plain name := by
  obtain ⟨hmaster, hindex, hinitialization, hmedia, hsegment, hfragment⟩ := plain_names
  cases f <;> simp only [path, List.forall_mem_cons, plain_toString, hmaster, hindex,
    hinitialization, hmedia, hsegment, hfragment, true_and, List.not_mem_nil, false_imp_iff,
    implies_true]

theorem path_ne_nil : f.path w ≠ [] := by cases f <;> exact List.cons_ne_nil _ _

theorem toString_ne_masterFile (n : Nat) : toString n ≠ masterFile := by
  intro he
  have hdigit : 'm'.isDigit = true :=
    Playlist.isDigit_of_mem_toString (n := n) (he ▸ (by decide : 'm' ∈ masterFile.toList))
  exact absurd hdigit (by decide)

/-- No file lies on the way to another. -/
theorem path_eq_of_prefix (h : f.path w <+: g.path w) : f = g := by
  have hmaster := toString_ne_masterFile w.toNat
  cases f <;> cases g <;>
    simp only [path, List.cons_prefix_cons, Playlist.indexFile, Playlist.initializationFile,
      Playlist.mediaFile, String.reduceEq, Playlist.toString_inj, hmaster, hmaster.symm, false_and,
      and_false, true_and, and_true, List.nil_prefix, List.prefix_nil, reduceCtorEq] at h
  all_goals simp only [h]

/-- **The URI of a file leads from its playlist to the file.** -/
theorem follow_uri (w : UInt32) (f : File) :
    Directory.follow (f.playlist.path w).dropLast (f.uri w) = f.path w := by
  obtain ⟨hmaster, hindex, hinitialization, hmedia, hsegment, hfragment⟩ := plain_names
  have hsegment' : "segment/" = "segment" ++ "/" := by decide
  have hfragment' : "fragment/" = "fragment" ++ "/" := by decide
  cases f with
  | master => exact hmaster.follow_eq []
  | index i =>
    simp only [uri, Catalog.indexUri, Directory.follow_append, (plain_toString _).follow_eq,
      hindex.follow_eq]
    rfl
  | initialization i => exact hinitialization.follow_eq _
  | segment i s =>
    simp only [uri, Playlist.segmentUri, hsegment', Directory.follow_append, hsegment.follow_eq,
      (plain_toString _).follow_eq, hmedia.follow_eq]
    rfl
  | part i s f =>
    simp only [uri, Playlist.partUri, hfragment', Directory.follow_append, hfragment.follow_eq,
      (plain_toString _).follow_eq, hmedia.follow_eq]
    rfl

end Paths

end File

/-! ## Plans -/

def Summary.of (files : List File) : Summary where
  renditions := files.countP fun | .index _ => true | _ => false
  segments := files.countP fun | .segment .. => true | _ => false
  parts := files.countP fun | .part .. => true | _ => false

/-- A file with its answer, if there is one. -/
def File.entry? (c : Catalog) (f : File) : Option Entry :=
  (f.answer? c).map fun content => ⟨f.path c.writerId, content⟩

/-- A plan that writes these files, each with its answer, counts them, and comes to its end. -/
structure Plan.Writes (c : Catalog) (p : Plan) (files : List File) : Prop where
  entries_eq : files.map (File.entry? c) = p.entries.map some
  summary_eq : p.summary = .of files
  fault_eq : p.fault = none

section Plans
variable {c : Catalog} {p q : Plan} {files others : List File} {f : File}

theorem Plan.writes_empty (c : Catalog) : Plan.empty.Writes c [] := ⟨rfl, rfl, rfl⟩

theorem Plan.Writes.andThen (hp : p.Writes c files) (hq : q.Writes c others) :
    (p.andThen q).Writes c (files ++ others) := by
  unfold Plan.andThen
  rw [hp.fault_eq]
  refine ⟨?_, ?_, hq.fault_eq⟩
  · show _ = (p.entries ++ q.entries).map some
    rw [List.map_append, List.map_append, hp.entries_eq, hq.entries_eq]
  · simp only [hp.summary_eq, hq.summary_eq, Summary.of, List.countP_append]
    rfl

theorem Plan.Writes.sequence {α : Type} {xs : List α} {plan : α → Plan} {files : α → List File}
    (h : ∀ x ∈ xs, (plan x).Writes c (files x)) :
    (Plan.sequence (xs.map plan)).Writes c (xs.flatMap files) := by
  induction xs using List.reverseRecOn with
  | nil => exact Plan.writes_empty c
  | append_singleton xs x ih =>
    unfold Plan.sequence at ih ⊢
    rw [List.map_append, List.map_singleton, List.foldl_concat, List.flatMap_append,
      List.flatMap_singleton]
    exact (ih fun x' hx' => h x' (List.mem_append_left _ hx')).andThen
      (h x (List.mem_append_right _ (List.mem_singleton_self x)))

/-! ### What is written -/

/-- A plan that writes files has an answer for each. -/
theorem Plan.Writes.isSome_answer? (h : p.Writes c files)
    (hf : f ∈ files) : (f.answer? c).isSome = true := by
  have hentry := List.mem_map_of_mem (f := File.entry? c) hf
  rw [h.entries_eq] at hentry
  obtain ⟨e, -, he⟩ := List.mem_map.1 hentry
  have hsome : (f.entry? c).isSome = true := by rw [← he]; rfl
  rwa [File.entry?, Option.isSome_map] at hsome

theorem File.entry?_eq_some_iff {e : Entry} :
    f.entry? c = some e ↔ e.path = f.path c.writerId ∧ f.answer? c = some e.content := by
  unfold entry?
  rw [Option.map_eq_some_iff]
  constructor
  · rintro ⟨content, hcontent, rfl⟩
    exact ⟨rfl, hcontent⟩
  · rintro ⟨hpath, hcontent⟩
    exact ⟨e.content, hcontent, by rw [← hpath]⟩

theorem Plan.Writes.mem_entries_iff (h : p.Writes c files) {e : Entry} : e ∈ p.entries ↔
      ∃ f ∈ files, e.path = f.path c.writerId ∧ f.answer? c = some e.content := by
  have hsome : e ∈ p.entries ↔ some e ∈ p.entries.map some := by simp
  rw [hsome, ← h.entries_eq, List.mem_map]
  simp only [File.entry?_eq_some_iff]

theorem Plan.Writes.paths_eq (h : p.Writes c files) :
    p.entries.map (·.path) = files.map (·.path c.writerId) := by
  have hpaths := congrArg (List.map (Option.map Entry.path)) h.entries_eq
  rw [List.map_map, List.map_map] at hpaths
  refine List.map_injective_iff.2 (fun _ _ => Option.some.inj) ?_
  rw [List.map_map, List.map_map]
  refine hpaths.symm.trans (List.map_congr_left fun f hf => ?_)
  obtain ⟨content, hcontent⟩ := Option.isSome_iff_exists.1 (h.isSome_answer? hf)
  simp [File.entry?, hcontent]

theorem Plan.Writes.countP_eq (h : p.Writes c files) (kind : String) :
    p.entries.countP (·.path[2]? == some kind) =
      files.countP fun f => (f.path c.writerId)[2]? == some kind := by
  have hpaths := congrArg (List.countP fun path : List String => path[2]? == some kind) h.paths_eq
  rw [List.countP_map, List.countP_map] at hpaths
  exact hpaths

end Plans

/-! ## Files of a rendition -/

/-- The files of a segment: its own if it is closed, and one for each closed part. -/
def segmentFiles (i : Nat) (t : Segment) : List File :=
  (if t.isClosed then [.segment i t.id] else []) ++ (List.range t.closedCount).map (.part i t.id)

def renditionFiles (i : Nat) (r : Rendition) : List File :=
  .index i :: .initialization i :: r.live.flatMap (segmentFiles i)

section Renditions
variable {i : Nat} {r : Rendition} {t : Segment} {g : File}

theorem mem_segmentFiles_iff : g ∈ segmentFiles i t ↔
    (t.isClosed = true ∧ g = .segment i t.id) ∨ ∃ f < t.closedCount, g = .part i t.id f := by
  unfold segmentFiles
  rw [List.mem_append, List.mem_map]
  simp only [List.mem_range, eq_comm (a := g)]
  refine or_congr_left ?_
  cases t.isClosed <;> simp [eq_comm]

theorem mem_renditionFiles_iff :
    g ∈ renditionFiles i r ↔ g = .index i ∨ g = .initialization i ∨ ∃ t ∈ r.live,
      (t.isClosed = true ∧ g = .segment i t.id) ∨ ∃ f < t.closedCount, g = .part i t.id f := by
  simp only [renditionFiles, List.mem_cons, List.mem_flatMap, mem_segmentFiles_iff]

/-- The position of the rendition that a file is of. -/
def File.position? : File → Option Nat
  | .master => none
  | .index i | .initialization i | .segment i _ | .part i _ _ => some i

theorem position?_of_mem (h : g ∈ renditionFiles i r) :
    g.position? = some i := by
  rcases mem_renditionFiles_iff.1 h with rfl | rfl | ⟨t, -, ⟨-, rfl⟩ | ⟨f, -, rfl⟩⟩ <;> rfl

theorem nodup_segmentFiles (i : Nat) (t : Segment) : (segmentFiles i t).Nodup := by
  unfold segmentFiles
  refine List.nodup_append.2
    ⟨?_, List.Nodup.map (fun _ _ h => (File.part.inj h).2.2) List.nodup_range, ?_⟩
  · split
    · exact List.nodup_singleton _
    · exact List.nodup_nil
  · rintro a ha b hb rfl
    obtain ⟨f, -, rfl⟩ := List.mem_map.1 hb
    split at ha
    · cases List.mem_singleton.1 ha
    · cases ha

theorem nodup_renditionFiles (hr : r.Coherent) :
    (renditionFiles i r).Nodup := by
  have hids : r.live.Pairwise (·.id < ·.id) := by
    have hids := hr.liveIds_eq ▸ List.pairwise_lt_range'
    exact List.pairwise_map.1 hids
  have hmedia : (r.live.flatMap (segmentFiles i)).Nodup := by
    refine List.nodup_flatMap.2 ⟨fun t _ => nodup_segmentFiles i t, hids.imp ?_⟩
    intro t t' hlt f hf hf'
    refine Nat.ne_of_lt hlt ?_
    rcases mem_segmentFiles_iff.1 hf with ⟨-, rfl⟩ | ⟨f, -, rfl⟩ <;>
      rcases mem_segmentFiles_iff.1 hf' with ⟨-, he⟩ | ⟨f', -, he⟩
    · exact (File.segment.inj he).2
    · cases he
    · cases he
    · exact (File.part.inj he).2.1
  have hother : ∀ f ∈ r.live.flatMap (segmentFiles i), f ≠ .index i ∧ f ≠ .initialization i := by
    intro f hf
    obtain ⟨t, -, hf⟩ := List.mem_flatMap.1 hf
    rcases mem_segmentFiles_iff.1 hf with ⟨-, rfl⟩ | ⟨f, -, rfl⟩ <;> exact ⟨nofun, nofun⟩
  refine List.nodup_cons.2 ⟨fun h => ?_, List.nodup_cons.2 ⟨fun h => (hother _ h).2 rfl, hmedia⟩⟩
  exact (List.mem_cons.1 h).elim nofun fun h => (hother _ h).1 rfl

end Renditions

/-! ## Probing -/

/-- A rendition that answers every read at once, with what it has or that it is not there yet. -/
structure Probed (c : Catalog) (i : Nat) (r : Rendition) : Prop where
  renditionAt_eq : c.renditionAt i = .ok r
  coherent : r.Coherent
  is_open : r.closed = false
  in_range : ∀ read, r.readNow read ≠ .error .durationOverflow

section Probing
variable {c : Catalog} {i : Nat} {r r' : Rendition} {t : Segment}

theorem Probed.eq (h : Probed c i r) (h' : Probed c i r') : r = r' :=
  Except.ok.inj (h.renditionAt_eq.symm.trans h'.renditionAt_eq)

theorem Probed.answer?_segment (h : Probed c i r) (s : Nat) :
    (File.segment i s).answer? c = contentOf? (r.readNow (.segment s)) := by
  rw [File.answer?, h.renditionAt_eq]
  rfl

theorem Probed.answer?_part (h : Probed c i r) (s f : Nat) :
    (File.part i s f).answer? c = contentOf? (r.readNow (.part s f)) := by
  rw [File.answer?, h.renditionAt_eq]
  rfl

/-- **Probing parts** finds those that are closed. -/
theorem Probed.writes_partsPlan (h : Probed c i r) (ht : t ∈ r.live) (bound first : Nat)
    (hbound : t.closedCount < first + bound) :
    (partsPlan r [toString c.writerId.toNat, toString i] t.id bound first).Writes c
      ((List.range' first (t.closedCount - first)).map (.part i t.id)) := by
  induction bound generalizing first with
  | zero =>
    rw [Nat.sub_eq_zero_of_le (by omega)]
    exact Plan.writes_empty c
  | succ bound ih =>
    unfold partsPlan
    by_cases hfirst : first < t.closedCount
    · obtain ⟨bytes, hbytes⟩ := h.coherent.readNow_part_of_lt ht hfirst (h.in_range _)
      have hcount : t.closedCount - first = t.closedCount - (first + 1) + 1 := by omega
      rw [hbytes, hcount, List.range'_succ, List.map_cons]
      refine Plan.Writes.andThen (q := partsPlan r _ t.id bound (first + 1))
        (⟨?_, rfl, rfl⟩ : Plan.Writes c _ [.part i t.id first]) (ih _ (by omega))
      rw [List.map_singleton, File.entry?, h.answer?_part, hbytes]
      rfl
    · rw [Nat.sub_eq_zero_of_le (Nat.le_of_not_lt hfirst)]
      rcases h.coherent.readNow_part_cases h.is_open t.id first with
        hread | ⟨kind, name, hread⟩ | ⟨t', ht', hid, hlt⟩
      · rw [hread]
        exact Plan.writes_empty c
      · rw [hread]
        exact Plan.writes_empty c
      · rw [h.coherent.eq_of_id_eq ht' ht hid] at hlt
        exact absurd hlt hfirst

theorem Probed.writes_segmentPlan (h : Probed c i r) (ht : t ∈ r.live) :
    (segmentPlan r [toString c.writerId.toNat, toString i] t).Writes c (segmentFiles i t) := by
  have hparts := h.writes_partsPlan ht (t.parts.length + 1) 0
    (by have := t.closedCount_le; omega)
  rw [Nat.sub_zero, ← List.range_eq_range'] at hparts
  unfold segmentPlan segmentFiles
  refine Plan.Writes.andThen ?_ hparts
  cases hc : t.isClosed with
  | true =>
    obtain ⟨bytes, hbytes⟩ := h.coherent.readNow_segment_of_closed ht hc (h.in_range _)
    rw [hbytes, if_pos rfl]
    refine ⟨?_, rfl, rfl⟩
    rw [List.map_singleton, File.entry?, h.answer?_segment, hbytes]
    rfl
  | false =>
    rw [h.coherent.readNow_segment_of_open h.is_open ht hc]
    exact Plan.writes_empty c

/-- **A rendition's plan** writes its playlist, its initialization segment and what is closed. -/
theorem Probed.writes_renditionPlan (h : Probed c i r) :
    (renditionPlan c.writerId i r).Writes c (renditionFiles i r) := by
  have hlive : (Plan.sequence (r.live.map
      (segmentPlan r [toString c.writerId.toNat, toString i]))).Writes c
        (r.live.flatMap (segmentFiles i)) :=
    Plan.Writes.sequence fun t ht => h.writes_segmentPlan ht
  have hindex : File.entry? c (.index i) = some ⟨[toString c.writerId.toNat, toString i,
      Playlist.indexFile], .text (Playlist.text r.manifest)⟩ := by
    rw [File.entry?, File.answer?, h.renditionAt_eq]
    rfl
  have hinitialization : File.entry? c (.initialization i) = some ⟨[toString c.writerId.toNat,
      toString i, Playlist.initializationFile], .data r.initialization⟩ := by
    rw [File.entry?, File.answer?, h.renditionAt_eq]
    rfl
  dsimp only [renditionPlan, renditionFiles]
  generalize Plan.sequence _ = media at hlive ⊢
  obtain ⟨entries, summary, fault⟩ := media
  obtain ⟨hentries, hsummary, hfault⟩ := hlive
  cases hfault
  refine ⟨?_, ?_, rfl⟩
  · rw [List.map_cons, List.map_cons, hindex, hinitialization, hentries]
    show _ = (([_, _] ++ entries) ++ []).map some
    rw [List.append_nil]
    rfl
  · obtain rfl : summary = .of _ := hsummary
    simp [Plan.andThen, Plan.ofEntries, Summary.of, Summary.none]

end Probing

end Export

end LiveHls
