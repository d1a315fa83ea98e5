import LiveHls.Proofs.Catalog.InRange
import LiveHls.Proofs.Export.Files

/-!
# An export is complete and closed under its playlists

* `Export.Idle` : a catalog whose renditions answer every read at once, with what they have or that
  it is not there yet; `idle_applyAll` : commands in range leave one;
* `Export.files` : the files of a catalog; `Idle.writes_plan` : an idle one is exported as these,
  `Idle.mem_files_iff` : they are what is answered, `Idle.mem_listedUris_iff` : and what the
  playlists list;
* `Complete` : what an export has written; `run_complete` : an export into an empty directory is
  complete.
-/

namespace LiveHls

open Playlist (listedUris)
open Rendition (cameraFrame shortest)
open Catalog (new reachable_applyAll coherent_applyAll)

/-! ## What a playlist lists -/

/-- The URIs in the playlist of a rendition are those of its initialization segment, of its closed
segments and of its closed parts. -/
theorem Rendition.Coherent.mem_listedUris_iff {r : Rendition} (hr : r.Coherent) {uri : String} :
    uri ∈ listedUris (Playlist.text r.manifest) ↔
      uri = Playlist.initializationFile ∨ ∃ t ∈ r.live,
        (t.isClosed = true ∧ uri = Playlist.segmentUri t.id) ∨
          ∃ f < t.closedCount, uri = Playlist.partUri t.id f := by
  rw [Playlist.listedUris_text, List.mem_filterMap]
  constructor
  · rintro ⟨l, hl, huri⟩
    cases l with
    | initialization => exact Or.inl (Option.some.inj huri).symm
    | segment s =>
      obtain ⟨t, ht, hlisted⟩ := hr.segment_mem_manifest_iff.1 hl
      obtain ⟨hc, rfl⟩ := Segment.segment_mem_listing.1 hlisted
      exact Or.inr ⟨t, ht, Or.inl ⟨hc, (Option.some.inj huri).symm⟩⟩
    | part s f duration independent =>
      obtain ⟨t, ht, hlisted⟩ := hr.part_mem_manifest_iff.1 hl
      obtain ⟨rfl, p, hp, hc, hid, -⟩ := Segment.part_mem_listing.1 hlisted
      have ht' := hr.segment_coherent t ht
      have hf := ht'.lt_closedCount_iff.2 ⟨p, ht'.part?_eq_some_iff.2 ⟨hp, hid⟩, hc⟩
      exact Or.inr ⟨t, ht, Or.inr ⟨f, hf, (Option.some.inj huri).symm⟩⟩
    | _ => cases huri
  · rintro (rfl | ⟨t, ht, ⟨hc, rfl⟩ | ⟨f, hf, rfl⟩⟩)
    · refine ⟨.initialization, ?_, rfl⟩
      rw [hr.manifest_eq_listings]
      simp [Playlist.header]
    · exact ⟨.segment t.id, hr.segment_mem_manifest_iff.2
        ⟨t, ht, Segment.segment_mem_listing.2 ⟨hc, rfl⟩⟩, rfl⟩
    · have ht' := hr.segment_coherent t ht
      obtain ⟨p, hp, hc⟩ := ht'.lt_closedCount_iff.1 hf
      obtain ⟨hmem, hid⟩ := ht'.part?_eq_some_iff.1 hp
      refine ⟨.part t.id f p.duration p.independent, hr.part_mem_manifest_iff.2 ⟨t, ht, ?_⟩, rfl⟩
      exact Segment.part_mem_listing.2 ⟨rfl, p, hmem, hc, hid, rfl, rfl⟩

namespace Export

open Directory (Plain Apart)

/-! ## Idle catalogs -/

/-- A catalog that lists what it has at each position, and whose renditions answer every read at
once. -/
structure Idle (c : Catalog) : Prop where
  probed : ∀ i < c.size, ∃ r, Probed c i r
  lt_size : ∀ i r, c.renditionAt i = .ok r → i < c.size
  listedUris_master : listedUris c.master = (List.range c.size).map (Catalog.indexUri c.writerId)

/-- **Commands in range leave an idle catalog** if all that they leave can be rendered. -/
theorem idle_applyAll {writerId : UInt32} {options : Options}
    {commands : List TimedCommand} (hin : (new writerId options).InRange commands)
    (hread : ∀ i r, ((new writerId options).applyAll commands).renditionAt i = .ok r →
      ∀ read, r.readNow read ≠ .error .durationOverflow) :
    Idle ((new writerId options).applyAll commands) := by
  have hreachable := reachable_applyAll writerId options commands
  have hcoherent := coherent_applyAll hin
  generalize (new writerId options).applyAll commands = c at hreachable hcoherent hread ⊢
  refine ⟨fun i hi => ?_, fun i r hr => ?_, hreachable.listed.listedUris_master⟩
  · obtain ⟨url, r, -, hr, hat⟩ := hreachable.listed.renditionAt_of_lt hi
    refine ⟨r, hat, hcoherent url r hr, ?_, hread i r hat⟩
    obtain ⟨h, hu, hh⟩ := Option.bind_eq_some_iff.1 hr
    exact (hreachable.tended.open_iff hh).2 ⟨url, hu⟩
  · rcases Nat.lt_or_ge i c.size with hi | hi
    · exact hi
    · rw [Catalog.renditionAt_of_le hi] at hr
      cases hr

/-! ## The files of a catalog -/

/-- The files at a position. -/
def filesAt (c : Catalog) (i : Nat) : List File :=
  match c.renditionAt i with
  | .ok r => renditionFiles i r
  | .error _ => []

def files (c : Catalog) : List File := .master :: (List.range c.size).flatMap (filesAt c)

section Files
variable {c : Catalog} {f g : File}

theorem Probed.filesAt_eq {i : Nat} {r : Rendition} (h : Probed c i r) :
    filesAt c i = renditionFiles i r := by
  unfold filesAt
  rw [h.renditionAt_eq]

/-- **An idle catalog is exported as its files.** -/
theorem Idle.writes_plan (hc : Idle c) : (plan c).Writes c (files c) := by
  have hmaster : (Plan.ofEntries [⟨[masterFile], .text c.master⟩]).Writes c [.master] :=
    ⟨rfl, rfl, rfl⟩
  refine hmaster.andThen (Plan.Writes.sequence fun i hi => ?_)
  obtain ⟨r, hr⟩ := hc.probed i (List.mem_range.1 hi)
  rw [hr.filesAt_eq, hr.renditionAt_eq]
  exact hr.writes_renditionPlan

theorem Idle.mem_files (hc : Idle c) :
    g ∈ files c ↔ g = .master ∨ ∃ i r, Probed c i r ∧ g ∈ renditionFiles i r := by
  unfold files
  rw [List.mem_cons, List.mem_flatMap]
  refine or_congr_right ⟨?_, ?_⟩
  · rintro ⟨i, hi, hg⟩
    obtain ⟨r, hr⟩ := hc.probed i (List.mem_range.1 hi)
    exact ⟨i, r, hr, hr.filesAt_eq ▸ hg⟩
  · rintro ⟨i, r, hr, hg⟩
    exact ⟨i, List.mem_range.2 (hc.lt_size i r hr.renditionAt_eq), hr.filesAt_eq ▸ hg⟩

/-- **The files are what is answered.** -/
theorem Idle.mem_files_iff (hc : Idle c) : g ∈ files c ↔ (g.answer? c).isSome = true := by
  refine ⟨hc.writes_plan.isSome_answer?, fun h => hc.mem_files.2 ?_⟩
  have hprobed : ∀ {i : Nat}, (c.renditionAt i).toOption.isSome = true → ∃ r, Probed c i r := by
    intro i hi
    cases hr : c.renditionAt i with
    | ok r => exact hc.probed i (hc.lt_size i r hr)
    | error e =>
      rw [hr] at hi
      cases hi
  cases g with
  | master => exact Or.inl rfl
  | index i =>
    obtain ⟨r, hr⟩ := hprobed (i := i) (by rwa [File.answer?, Option.isSome_map] at h)
    exact Or.inr ⟨i, r, hr, List.mem_cons_self⟩
  | initialization i =>
    obtain ⟨r, hr⟩ := hprobed (i := i) (by rwa [File.answer?, Option.isSome_map] at h)
    exact Or.inr ⟨i, r, hr, List.mem_cons_of_mem _ List.mem_cons_self⟩
  | segment i s =>
    obtain ⟨r, hr⟩ := hprobed (i := i) (Option.isSome_of_isSome_bind h)
    rw [hr.answer?_segment] at h
    refine Or.inr ⟨i, r, hr, mem_renditionFiles_iff.2 (Or.inr (Or.inr ?_))⟩
    by_cases hlive : ∃ t ∈ r.live, t.id = s
    · obtain ⟨t, ht, rfl⟩ := hlive
      cases hclosed : t.isClosed with
      | true => exact ⟨t, ht, Or.inl ⟨hclosed, rfl⟩⟩
      | false =>
        rw [hr.coherent.readNow_segment_of_open hr.is_open ht hclosed] at h
        cases h
    · rw [hr.coherent.readNow_segment_of_dropped fun t ht hid => hlive ⟨t, ht, hid⟩] at h
      cases h
  | part i s f =>
    obtain ⟨r, hr⟩ := hprobed (i := i) (Option.isSome_of_isSome_bind h)
    rw [hr.answer?_part] at h
    refine Or.inr ⟨i, r, hr, mem_renditionFiles_iff.2 (Or.inr (Or.inr ?_))⟩
    rcases hr.coherent.readNow_part_cases hr.is_open s f with
      hread | ⟨kind, name, hread⟩ | ⟨t, ht, rfl, hf⟩
    · rw [hread] at h
      cases h
    · rw [hread] at h
      cases h
    · exact ⟨t, ht, Or.inr ⟨f, hf, rfl⟩⟩

/-! ## No file twice -/

theorem position?_of_mem_filesAt {i : Nat} (h : f ∈ filesAt c i) : f.position? = some i := by
  unfold filesAt at h
  split at h
  · exact position?_of_mem h
  · cases h

theorem Idle.nodup_files (hc : Idle c) : (files c).Nodup := by
  refine List.nodup_cons.2 ⟨fun h => ?_, List.nodup_flatMap.2 ⟨fun i hi => ?_, ?_⟩⟩
  · obtain ⟨i, -, hi⟩ := List.mem_flatMap.1 h
    cases position?_of_mem_filesAt hi
  · obtain ⟨r, hr⟩ := hc.probed i (List.mem_range.1 hi)
    rw [hr.filesAt_eq]
    exact nodup_renditionFiles hr.coherent
  · refine List.nodup_range.imp fun hij f hf hf' => hij ?_
    exact Option.some.inj ((position?_of_mem_filesAt hf).symm.trans (position?_of_mem_filesAt hf'))

/-! ## Playlists -/

/-- Only playlists are texts. -/
theorem Idle.text_cases (hc : Idle c) {text : String} (h : f.answer? c = some (.text text)) :
    f = .master ∧ text = c.master ∨
      ∃ i r, f = .index i ∧ Probed c i r ∧ text = Playlist.text r.manifest := by
  rcases hc.mem_files.1 (hc.mem_files_iff.2 (Option.isSome_of_eq_some h)) with rfl | ⟨i, r, hr, hf⟩
  · cases h
    exact Or.inl ⟨rfl, rfl⟩
  · rcases mem_renditionFiles_iff.1 hf with rfl | rfl | ⟨t, ht, ⟨hclosed, rfl⟩ | ⟨f, hlt, rfl⟩⟩
    · rw [File.answer?, hr.renditionAt_eq] at h
      cases h
      exact Or.inr ⟨i, r, rfl, hr, rfl⟩
    · rw [File.answer?, hr.renditionAt_eq] at h
      cases h
    · obtain ⟨bytes, hbytes⟩ := hr.coherent.readNow_segment_of_closed ht hclosed (hr.in_range _)
      rw [hr.answer?_segment, hbytes] at h
      cases h
    · obtain ⟨bytes, hbytes⟩ := hr.coherent.readNow_part_of_lt ht hlt (hr.in_range _)
      rw [hr.answer?_part, hbytes] at h
      cases h

/-- The playlist that lists a file is there. -/
theorem Idle.exists_text (hc : Idle c) (hf : f ∈ files c) :
    ∃ text, f.playlist.answer? c = some (.text text) := by
  rcases hc.mem_files.1 hf with rfl | ⟨i, r, hr, hf⟩
  · exact ⟨_, rfl⟩
  · have hindex : (File.index i).answer? c = some (.text (Playlist.text r.manifest)) := by
      rw [File.answer?, hr.renditionAt_eq]
      rfl
    rcases mem_renditionFiles_iff.1 hf with rfl | rfl | ⟨t, -, ⟨-, rfl⟩ | ⟨f, -, rfl⟩⟩
    · exact ⟨_, rfl⟩
    all_goals exact ⟨_, hindex⟩

/-- **The files are what the playlists list**, each in its playlist. -/
theorem Idle.mem_listedUris_iff (hc : Idle c) {text uri : String}
    (h : f.answer? c = some (.text text)) :
    uri ∈ listedUris text ↔
      ∃ g ∈ files c, g ≠ .master ∧ g.playlist = f ∧ g.uri c.writerId = uri := by
  rcases hc.text_cases h with ⟨rfl, rfl⟩ | ⟨i, r, rfl, hr, rfl⟩
  · rw [hc.listedUris_master, List.mem_map]
    constructor
    · rintro ⟨i, hi, rfl⟩
      obtain ⟨r, hr⟩ := hc.probed i (List.mem_range.1 hi)
      exact ⟨.index i, hc.mem_files.2 (Or.inr ⟨i, r, hr, List.mem_cons_self⟩), nofun, rfl, rfl⟩
    · rintro ⟨g, hg, hne, hplaylist, rfl⟩
      rcases hc.mem_files.1 hg with rfl | ⟨i, r, hr, hg⟩
      · exact absurd rfl hne
      · rcases mem_renditionFiles_iff.1 hg with rfl | rfl | ⟨t, -, ⟨-, rfl⟩ | ⟨f, -, rfl⟩⟩
        · exact ⟨i, List.mem_range.2 (hc.lt_size i r hr.renditionAt_eq), rfl⟩
        all_goals cases hplaylist
  · rw [hr.coherent.mem_listedUris_iff]
    have hlisted : ∀ {g}, g ∈ renditionFiles i r → g ∈ files c := fun hg =>
      hc.mem_files.2 (Or.inr ⟨i, r, hr, hg⟩)
    constructor
    · rintro (rfl | ⟨t, ht, ⟨hclosed, rfl⟩ | ⟨f, hf, rfl⟩⟩)
      · refine ⟨.initialization i, hlisted ?_, nofun, rfl, rfl⟩
        exact mem_renditionFiles_iff.2 (Or.inr (Or.inl rfl))
      · refine ⟨.segment i t.id, hlisted ?_, nofun, rfl, rfl⟩
        exact mem_renditionFiles_iff.2 (Or.inr (Or.inr ⟨t, ht, Or.inl ⟨hclosed, rfl⟩⟩))
      · refine ⟨.part i t.id f, hlisted ?_, nofun, rfl, rfl⟩
        exact mem_renditionFiles_iff.2 (Or.inr (Or.inr ⟨t, ht, Or.inr ⟨f, hf, rfl⟩⟩))
    · rintro ⟨g, hg, hne, hplaylist, rfl⟩
      rcases hc.mem_files.1 hg with rfl | ⟨j, r', hr', hg⟩
      · exact absurd rfl hne
      · rcases mem_renditionFiles_iff.1 hg with rfl | rfl | ⟨t, ht, ⟨hclosed, rfl⟩ | ⟨f, hf, rfl⟩⟩
        · cases hplaylist
        all_goals
          cases hplaylist
          obtain rfl := hr.eq hr'
        · exact Or.inl rfl
        · exact Or.inr ⟨t, ht, Or.inl ⟨hclosed, rfl⟩⟩
        · exact Or.inr ⟨t, ht, Or.inr ⟨f, hf, rfl⟩⟩

end Files

/-! ## Exports -/

/-- What an export of a catalog has written, and what it reports. -/
structure Complete (c : Catalog) (entries : List Entry) (summary : Summary) : Prop where
  paths_nodup : (entries.map (·.path)).Nodup
  /-- There is a file for everything that is answered at this moment, with the answer. -/
  mem_iff : ∀ e, e ∈ entries ↔
    ∃ f : File, e.path = f.path c.writerId ∧ f.answer? c = some e.content
  /-- Every URI of a playlist but that of a preload hint leads to a file. -/
  written_of_listed : ∀ e ∈ entries, ∀ text, e.content = .text text → ∀ uri ∈ listedUris text,
    ∃ e' ∈ entries, e'.path = Directory.follow e.path.dropLast uri
  /-- Every file but the master playlist is where such a URI leads. -/
  listed_of_written : ∀ e ∈ entries, e.path ≠ [masterFile] →
    ∃ e' ∈ entries, ∃ text, e'.content = .text text ∧ ∃ uri ∈ listedUris text,
      e.path = Directory.follow e'.path.dropLast uri
  /-- Behind writer and position a path says what the file is. -/
  renditions_eq : summary.renditions = entries.countP (·.path[2]? == some Playlist.indexFile)
  segments_eq : summary.segments = entries.countP (·.path[2]? == some "segment")
  parts_eq : summary.parts = entries.countP (·.path[2]? == some "fragment")

section Exports
variable {c : Catalog}

theorem Idle.complete (hc : Idle c) : Complete c (plan c).entries (plan c).summary := by
  have hw := hc.writes_plan
  have hsummary := hw.summary_eq
  refine {
    paths_nodup := ?_
    mem_iff := fun e => ?_
    written_of_listed := ?_
    listed_of_written := ?_
    renditions_eq := ?_
    segments_eq := ?_
    parts_eq := ?_ }
  · rw [hw.paths_eq]
    exact hc.nodup_files.map fun f g h =>
      File.path_eq_of_prefix (w := c.writerId) (h ▸ List.prefix_rfl)
  · rw [hw.mem_entries_iff]
    refine exists_congr fun f => and_iff_right_of_imp fun h => ?_
    exact hc.mem_files_iff.2 (Option.isSome_of_eq_some h.2)
  · intro e he text htext uri huri
    obtain ⟨f, -, hpath, hanswer⟩ := hw.mem_entries_iff.1 he
    obtain ⟨g, hg, -, rfl, rfl⟩ := (hc.mem_listedUris_iff (htext ▸ hanswer)).1 huri
    obtain ⟨content, hcontent⟩ := Option.isSome_iff_exists.1 (hc.mem_files_iff.1 hg)
    refine ⟨⟨g.path c.writerId, content⟩, hw.mem_entries_iff.2 ⟨g, hg, rfl, hcontent⟩, ?_⟩
    rw [hpath, File.follow_uri]
  · intro e he hne
    obtain ⟨g, hg, hpath, -⟩ := hw.mem_entries_iff.1 he
    obtain ⟨text, htext⟩ := hc.exists_text hg
    have hmaster : g ≠ .master := by
      rintro rfl
      exact hne hpath
    have hplaylist := hc.mem_files_iff.2 (Option.isSome_of_eq_some htext)
    refine ⟨⟨g.playlist.path c.writerId, .text text⟩,
      hw.mem_entries_iff.2 ⟨g.playlist, hplaylist, rfl, htext⟩, text, rfl, g.uri c.writerId,
      (hc.mem_listedUris_iff htext).2 ⟨g, hg, hmaster, rfl, rfl⟩, ?_⟩
    rw [hpath, File.follow_uri]
  · rw [hsummary, hw.countP_eq]
    exact List.countP_congr fun f _ => by cases f <;> exact Iff.rfl
  · rw [hsummary, hw.countP_eq]
    exact List.countP_congr fun f _ => by cases f <;> exact Iff.rfl
  · rw [hsummary, hw.countP_eq]
    exact List.countP_congr fun f _ => by cases f <;> exact Iff.rfl

/-- A plan that can be written is written. -/
theorem run_of_writeAll {dir : String} {d d' : Directory}
    (hwritten : (writeAll Directory.storage dir (plan c).entries).run d = (true, d'))
    (hfault : (plan c).fault = none) :
    (run Directory.storage dir c).run d = (.ok (plan c).summary, d') := by
  simp only [run, hfault, StateT.run_bind, hwritten]
  rfl

/-- No file of a plan lies on the way to another. -/
theorem Idle.apart_paths (hc : Idle c) : Apart ((plan c).entries.map (·.path)) := by
  rw [hc.writes_plan.paths_eq]
  refine List.pairwise_map.2 (hc.nodup_files.imp fun hne => ⟨fun h => ?_, fun h => ?_⟩)
  · exact hne (File.path_eq_of_prefix h)
  · exact hne (File.path_eq_of_prefix h).symm

end Exports

/-- **An export is complete and closed under its playlists.** Take commands in which no sum of
durations leaves its range, neither when they are applied nor when what they leave is read. An export
to where nothing is yet then succeeds: it writes one file for everything that is answered at that
moment, which is just what its playlists list apart from preload hints, and counts what it wrote. -/
theorem run_complete {writerId : UInt32} {options : Options} {commands : List TimedCommand}
    (hin : (new writerId options).InRange commands)
    (hread : ∀ i r, ((new writerId options).applyAll commands).renditionAt i = .ok r →
      ∀ read, r.readNow read ≠ .error .durationOverflow)
    {dir : String} {d : Directory} (hvacant : d.Vacant (Directory.normalize dir)) :
    let c := (new writerId options).applyAll commands
    ∃ entries summary d', (run Directory.storage dir c).run d = (.ok summary, d') ∧
      d'.files = d.files ++ entries.map (fun e => (Directory.normalize dir ++ e.path, e.content)) ∧
      Complete c entries summary := by
  intro c
  have hc : Idle c := idle_applyAll hin hread
  have hpaths : ∀ e ∈ (plan c).entries, e.path ≠ [] ∧ ∀ name ∈ e.path, Plain name := by
    intro e he
    obtain ⟨f, -, hpath, -⟩ := hc.writes_plan.mem_entries_iff.1 he
    rw [hpath]
    exact ⟨File.path_ne_nil, File.plain_of_mem_path⟩
  have htakes : d.Takes (Directory.normalize dir) ((plan c).entries.map (·.path)) := by
    refine hvacant.takes fun path hpath => ?_
    obtain ⟨e, he, rfl⟩ := List.mem_map.1 hpath
    exact (hpaths e he).1
  obtain ⟨d', hwritten, hfiles⟩ := run_writeAll htakes hpaths hc.apart_paths
  exact ⟨_, _, d', run_of_writeAll hwritten hc.writes_plan.fault_eq, hfiles, hc.complete⟩

/-! ### Two frames -/

/-- A segment is retained besides the current one. -/
def twoSegments : Options := { shortest with segmentCount := 2 }

/-- Two frames of a camera. -/
def twoFrames : List TimedCommand :=
  [⟨.packet (cameraFrame true), ⟨0, 0⟩⟩, ⟨.packet (cameraFrame false), ⟨0, 0⟩⟩]

/-- The first segment has closed with its two parts, and they are written. -/
theorem run_complete_of_twoFrames :
    let c := (new 7 twoSegments).applyAll twoFrames
    ∃ entries summary d', (run Directory.storage "out" c).run .empty = (.ok summary, d') ∧
      Complete c entries summary ∧
      (∃ bytes, (["out", "7", "0", "segment", "0", "cubic.m4s"], .data bytes) ∈ d'.files) ∧
      ∃ bytes, (["out", "7", "0", "fragment", "0", "1", "cubic.m4s"], .data bytes) ∈ d'.files := by
  intro c
  have proceeds : ∀ {result : Except Fault Unit}, result = .ok () →
      result ≠ .error .durationOverflow := by
    rintro _ rfl
    nofun
  have hin : (new 7 twoSegments).InRange twoFrames := ⟨proceeds rfl, proceeds rfl, trivial⟩
  obtain ⟨r, s, t, whole, first, second, hurls, hr, hlive, hs, ht, hsCount, htCount, hsegment,
      hfirst, hsecond⟩ : ∃ r s t whole first second, c.urls = ["camera"] ∧
        c.renditionOf? "camera" = some r ∧ r.live = [s, t] ∧ s.id = 0 ∧ t.isClosed = false ∧
        s.closedCount = 2 ∧ t.closedCount = 0 ∧ r.readNow (.segment 0) = .ok (.media whole) ∧
        r.readNow (.part 0 0) = .ok (.media first) ∧
        r.readNow (.part 0 1) = .ok (.media second) :=
    ⟨_, _, _, _, _, _, rfl, rfl, rfl, rfl, rfl, rfl, rfl, rfl, rfl, rfl⟩
  have hreachable := reachable_applyAll 7 twoSegments twoFrames
  have horder : c.order = ["camera"] :=
    List.perm_singleton.1 (hurls ▸ hreachable.listed.order_perm)
  have hat : c.renditionAt 0 = .ok r := by
    have hfirst : (["camera"][0]?).bind c.renditionOf? = some r := hr
    rw [Catalog.renditionAt_eq, horder, hfirst]
  have hreads : ∀ read, r.readNow read ≠ .error .durationOverflow := by
    have served : ∀ {result : Except Fault Body} {bytes : Bytes}, result = .ok (.media bytes) →
        result ≠ .error .durationOverflow := by
      rintro _ _ rfl
      nofun
    refine (coherent_applyAll hin "camera" r hr).readNow_ne_overflow ?_ ?_
    · rw [hlive, List.forall_mem_cons, List.forall_mem_singleton]
      refine ⟨fun _ => hs ▸ served hsegment, fun hclosed => ?_⟩
      rw [ht] at hclosed
      cases hclosed
    · rw [hlive, List.forall_mem_cons, List.forall_mem_singleton, hsCount, htCount, hs]
      refine ⟨fun f hf => ?_, nofun⟩
      obtain rfl | rfl : f = 0 ∨ f = 1 := by omega
      · exact served hfirst
      · exact served hsecond
  have hread : ∀ i r', c.renditionAt i = .ok r' →
      ∀ read, r'.readNow read ≠ .error .durationOverflow := by
    intro i r' hr'
    cases i with
    | zero =>
      cases hat.symm.trans hr'
      exact hreads
    | succ i =>
      rw [Catalog.renditionAt_eq, horder] at hr'
      cases hr'
  have hout : Directory.normalize "out" = ["out"] :=
    Plain.follow_eq ⟨by decide, by decide, by decide, by decide⟩ []
  have hvacant : Directory.empty.Vacant (Directory.normalize "out") := ⟨nofun, nofun⟩
  obtain ⟨entries, summary, d', hrun, hfiles, hcomplete⟩ := run_complete hin hread hvacant
  have written : ∀ {f : File} {content : Content}, f.answer? c = some content →
      ("out" :: f.path 7, content) ∈ d'.files := by
    intro f content hanswer
    rw [hfiles, hout]
    exact List.mem_map_of_mem ((hcomplete.mem_iff ⟨f.path 7, content⟩).2 ⟨f, rfl, hanswer⟩)
  refine ⟨entries, summary, d', hrun, hcomplete, ⟨whole, ?_⟩, ⟨second, ?_⟩⟩
  · exact written (f := .segment 0 0) (by
      rw [File.answer?, hat]
      exact congrArg contentOf? hsegment)
  · exact written (f := .part 0 0 1) (by
      rw [File.answer?, hat]
      exact congrArg contentOf? hsecond)

end Export

end LiveHls
