import LiveHls.Proofs.Catalog.Contribution
import LiveHls.Proofs.Playlist.Listed

/-!
# Commands in range

Renditions are what their packets make them as long as no sum of durations leaves its range.

* `Catalog.InRange` : commands none of which breaks down;
* `Catalog.Coherent` : every source that has a rendition has a coherent one (`Coherent.apply`, one
  command; `coherent_applyAll`, all of them);
* `Listed.listedUris_master` : the master playlist lists the URI of each position.
-/

namespace LiveHls

open Rendition (new?)

namespace Catalog

/-- Commands none of which breaks down. -/
def InRange (c : Catalog) : List TimedCommand → Prop
  | [] => True
  | a :: rest =>
    (a.command.apply a.time c).2 ≠ .error .durationOverflow ∧
      InRange (a.command.apply a.time c).1 rest

/-- A catalog in which every source that has a rendition has a coherent one. -/
def Coherent (c : Catalog) : Prop := ∀ url r, c.renditionOf? url = some r → r.Coherent

section Commands
variable {c : Catalog} {x : Packet} {now : Instant}

/-- A rendition made by routing is new. -/
theorem Coherent.route (h : c.Coherent) (hc : c.Distinct) (x : Packet) (now : Instant) :
    (c.route x now).1.Coherent := by
  intro url r hr
  have hsource := congrArg Source.rendition? ((hc.route x now).2.2.1 url)
  have hrouted := hsource.symm.trans hr
  split at hrouted
  · unfold Source.route at hrouted
    split at hrouted
    · exact h url r hrouted
    · cases hn : new? ((c.source url).announced url x) c.options now with
      | error e =>
        rw [hn] at hrouted
        cases hrouted
      | ok r₀ =>
        rw [hn] at hrouted
        cases hrouted
        exact Rendition.coherent_of_new? hn
  · exact h url r hrouted

/-- A packet that does not break down is written in range. -/
theorem Coherent.write (h : c.Coherent) (hc : c.Distinct)
    (hin : (c.write x now).2 ≠ .error .durationOverflow) : (c.write x now).1.Coherent := by
  have hrouted := h.route hc x now
  obtain ⟨hd, -, -, hanswer⟩ := hc.route x now
  rcases c.write_cases x now with ⟨e, -, hwrite⟩ | ⟨i, hok, hwrite⟩
  · rw [hwrite]
    exact hrouted
  · rw [hok] at hanswer
    rw [hwrite] at hin ⊢
    intro url r hr
    have hsource := congrArg Source.rendition? ((hd.writeTo hanswer x now).2.2 url)
    have hwritten := hsource.symm.trans hr
    split at hwritten
    · obtain ⟨r₀, hr₀, rfl⟩ := Option.map_eq_some_iff.1 hwritten
      have hcoherent := hrouted x.source r₀ hr₀
      have hhandle : (c.route x now).1.rendition? i = some r₀ := by
        rw [← hr₀, renditionOf?, hanswer]
        rfl
      rw [writeTo_of_rendition? hhandle] at hin
      refine (hcoherent.write x now ?_).coherent hcoherent
      exact Bool.eq_false_iff.2 fun ho => hin (Rendition.overflows_iff.1 ho)
    · exact hrouted url r hwritten

theorem Coherent.apply (h : c.Coherent) (hc : c.Distinct) {a : TimedCommand}
    (hin : (a.command.apply a.time c).2 ≠ .error .durationOverflow) :
    (a.command.apply a.time c).1.Coherent := by
  obtain ⟨command, time⟩ := a
  cases command with
  | packet x => exact h.write hc hin
  | removeSource url =>
    intro url' r hr
    have hsource := congrArg Source.rendition? ((hc.remove url).2.2 url')
    have hremoved := hsource.symm.trans hr
    split at hremoved
    · cases hremoved
    · exact h url' r hremoved
  | segmentDuration d => exact h
  | flush ticket => exact h

theorem Distinct.apply (hc : c.Distinct) (a : TimedCommand) :
    (a.command.apply a.time c).1.Distinct := by
  obtain ⟨command, time⟩ := a
  cases command with
  | packet x => exact (hc.write x time).1
  | removeSource url => exact (hc.remove url).1
  | segmentDuration d => exact ⟨hc.handle_lt, hc.handle_inj⟩
  | flush ticket => exact hc

theorem Coherent.applyAll (h : c.Coherent) (hc : c.Distinct) {commands : List TimedCommand}
    (hin : c.InRange commands) : (c.applyAll commands).Coherent := by
  induction commands generalizing c with
  | nil => exact h
  | cons a rest ih => exact ih (h.apply hc hin.1) (hc.apply a) hin.2

end Commands

/-- **Commands in range leave coherent renditions.** -/
theorem coherent_applyAll {writerId : UInt32} {options : Options} {commands : List TimedCommand}
    (hin : (new writerId options).InRange commands) :
    ((new writerId options).applyAll commands).Coherent := by
  have hnew : (new writerId options).Coherent := fun _ r hr =>
    absurd hr (Option.some_ne_none r).symm
  exact hnew.applyAll (distinct_new writerId options) hin

/-! ## The master playlist -/

theorem reference_indexUri (writerId : UInt32) (i : Nat) :
    Playlist.Reference (indexUri writerId i) := by
  have hrest : '\n' ∉ ("/" ++ toString i ++ "/" ++ Playlist.indexFile).toList := by
    have hmarks : Playlist.Bare "/" ∧ Playlist.Bare Playlist.indexFile := by decide
    have hbare : Playlist.Bare ("/" ++ toString i ++ "/" ++ Playlist.indexFile) := by
      simp only [Playlist.bare_append, Playlist.bare_toString, hmarks, and_self]
    exact hbare.newline_notMem
  have huri : indexUri writerId i =
      toString writerId.toNat ++ ("/" ++ toString i ++ "/" ++ Playlist.indexFile) := by
    simp only [indexUri, String.append_assoc]
  rw [huri]
  exact Playlist.reference_of_number writerId.toNat hrest

/-- The master playlist lists the URI of each position. -/
theorem Listed.listedUris_master {c : Catalog} (hc : c.Listed) :
    Playlist.listedUris c.master = (List.range c.size).map (indexUri c.writerId) := by
  obtain ⟨rs, hrs, -⟩ := hc.exists_renditions
  have hlength : rs.length = c.size := by
    have := congrArg List.length hrs
    simpa [size] using this.symm
  unfold master
  rw [Playlist.listedUris_master, hc.variants_eq_map hrs, List.map_map, ← hlength,
    List.range_eq_range', ← List.zipIdx_map_snd 0 rs, List.map_map]
  · rfl
  · intro v hv
    rw [hc.variants_eq_map hrs] at hv
    obtain ⟨⟨r, i⟩, -, rfl⟩ := List.mem_map.1 hv
    exact ⟨Playlist.bare_codecs r.format, reference_indexUri c.writerId i⟩

end Catalog

end LiveHls
