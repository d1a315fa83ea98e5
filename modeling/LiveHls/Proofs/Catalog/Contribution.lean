import LiveHls.Proofs.Catalog.Handles
import LiveHls.Proofs.Catalog.History
import LiveHls.Proofs.Rendition.Failure

/-!
# What a failed command contributes

Only packets fail. What is left of one depends on how far it came: to no rendition, or to the sum of
durations that left its range.

* `Skips` : a packet that fails with an error is written to no rendition; if its format cannot be
  carried, its source loses the rendition that it had (`Distinct.skips`);
* `BreaksOff` : a packet that breaks down leaves what it changed in the current segment of its
  rendition before (`breaksOff_of_write`);
* `Contribution` : the two for any command (`Distinct.contribution`);
* `reachable_applyAll` : commands one after the other lead to a reachable catalog.
-/

namespace LiveHls

namespace Rendition

/-- A write that fails with an error leaves its rendition as it was. -/
theorem write_eq_self_of_error {r : Rendition} {x : Packet} {now : Instant} {e : Error}
    (h : (r.write x now).2 = .error (.error e)) : (r.write x now).1 = r := by
  have hfailed : (r.write x now).2 ≠ .ok () := h ▸ nofun
  rcases write_failed hfailed with ⟨e', -, hw⟩ | ⟨-, -, hw⟩ <;> rw [hw] at h ⊢
  cases h

end Rendition

namespace Catalog

section Failed
variable {c : Catalog} {x : Packet} {now : Instant} {e : Error}

theorem writeTo_of_rendition? {h : Handle} {r : Rendition} (hr : c.rendition? h = some r) :
    c.writeTo h x now = (c.modify h fun _ => (r.write x now).1, (r.write x now).2) := by
  unfold writeTo
  rw [hr]

/-- A packet that fails with an error leaves what routing it leaves. -/
theorem write_of_error (h : (c.write x now).2 = .error (.error e)) :
    (c.write x now).1 = (c.route x now).1 := by
  rcases c.write_cases x now with ⟨e', -, hwrite⟩ | ⟨i, -, hwrite⟩
  · rw [hwrite]
  · cases hr : (c.route x now).1.rendition? i with
    | none =>
      rw [hwrite, writeTo, hr]
    | some r =>
      rw [hwrite, writeTo_of_rendition? hr] at h ⊢
      rw [Rendition.write_eq_self_of_error h]
      exact modify_const hr

theorem rendition?_unregister_cases (c : Catalog) (url : String) {h : Handle} {r : Rendition}
    (hr : c.rendition? h = some r) :
    (c.unregister url).rendition? h = some r ∨ (c.unregister url).rendition? h = some r.close := by
  unfold unregister
  cases c.handle? url with
  | none => exact Or.inl hr
  | some h₀ =>
    have hmodify := c.rendition?_modify h₀ Rendition.close h
    rw [hr] at hmodify
    by_cases he : h₀ = h
    · exact Or.inr (hmodify.trans (if_pos he))
    · exact Or.inl (hmodify.trans (if_neg he))

/-- Routing does no more to a rendition than close it. -/
theorem rendition?_route_cases (c : Catalog) (x : Packet) (now : Instant) {h : Handle}
    {r : Rendition} (hr : c.rendition? h = some r) :
    (c.route x now).1.rendition? h = some r ∨ (c.route x now).1.rendition? h = some r.close := by
  rcases route_cases c x now with hroute | hroute
  · rw [hroute]
    exact Or.inl hr
  · have hrenamed := c.rendition?_unregister_cases (c.announced x).url hr
    rw [hroute, update_eq]
    cases Rendition.new? (c.announced x) c.options now with
    | error e => exact hrenamed
    | ok r₁ =>
      have hlt : h < (c.renamed (c.announced x)).renditions.length := by
        rcases hrenamed with h₁ | h₁ <;> exact (List.getElem?_eq_some_iff.1 h₁).1
      have hregister := rendition?_register r₁ hlt
      exact hrenamed.imp hregister.trans hregister.trans

/-- The packet was written to no rendition. Other sources and the options are as they were, and so
is everything if the packet's format was known. A new format that cannot be carried is remembered,
and the source has no rendition then. -/
structure Skips (c : Catalog) (x : Packet) (now : Instant) : Prop where
  unwritten : ∀ h r, c.rendition? h = some r →
    (c.write x now).1.rendition? h = some r ∨ (c.write x now).1.rendition? h = some r.close
  source_of_ne : ∀ url, url ≠ x.source → (c.write x now).1.source url = c.source url
  options_eq : (c.write x now).1.options = c.options
  eq_of_known : c.format? x.source = some (c.announced x) → (c.write x now).1 = c
  source_of_uncarried : ∀ e, c.format? x.source ≠ some (c.announced x) →
    Rendition.new? (c.announced x) c.options now = .error e →
    (c.write x now).1.source x.source = ⟨some (c.announced x), none⟩

/-- **A packet that fails with an error is skipped.** -/
theorem Distinct.skips (hc : c.Distinct) (h : (c.write x now).2 = .error (.error e)) :
    c.Skips x now := by
  obtain ⟨-, hoptions, hsource⟩ := hc.write x now
  have hroute := write_of_error h
  exact {
    unwritten := fun i r hr => by
      rw [hroute]
      exact c.rendition?_route_cases x now hr
    source_of_ne := fun url hne => (hsource url).trans (if_neg hne)
    options_eq := hoptions
    eq_of_known := fun hknown => hroute.trans (hc.route_eq_self_iff.2 hknown)
    source_of_uncarried := fun e' hnew hn => by
      have hrouted := (hc.route x now).2.2.1 x.source
      rw [if_pos rfl, Source.route, ← announced_eq, hn] at hrouted
      rw [hroute]
      exact hrouted.trans (if_neg hnew) }

/-- The packet was routed to a rendition, and changed nothing but the current segment there, as far
as the write to it came. -/
def BreaksOff (c : Catalog) (x : Packet) (now : Instant) : Prop :=
  ∃ i r, (c.route x now).2 = .ok i ∧ (c.route x now).1.rendition? i = some r ∧
    (r.current.write (Rendition.fold x)).2 = .overflow ∧
    (c.write x now).1 = (c.route x now).1.modify i fun _ =>
      { r with current := (r.current.write (Rendition.fold x)).1 }

/-- **A packet that breaks down contributes only its partial change.** -/
theorem breaksOff_of_write (h : (c.write x now).2 = .error .durationOverflow) :
    c.BreaksOff x now := by
  unfold BreaksOff
  rcases c.write_cases x now with ⟨e, -, hwrite⟩ | ⟨i, hok, hwrite⟩
  · rw [hwrite] at h
    cases h
  · cases hr : (c.route x now).1.rendition? i with
    | none =>
      rw [hwrite, writeTo, hr] at h
      cases h
    | some r =>
      rw [hwrite, writeTo_of_rendition? hr] at h ⊢
      have hfault : (r.write x now).2 = .error .durationOverflow := h
      have hfailed : (r.write x now).2 ≠ .ok () := by simp [hfault]
      rcases Rendition.write_failed hfailed with ⟨e, -, hw⟩ | ⟨-, ho, hw⟩
      · rw [hw] at h
        cases h
      · exact ⟨i, r, hok, hr, ho, by rw [hw]⟩

end Failed

/-! ## Any command -/

/-- What a command that fails leaves of the catalog. -/
structure Contribution (c : Catalog) (a : TimedCommand) : Prop where
  skips : ∀ e, (a.command.apply a.time c).2 = .error (.error e) →
    ∃ x, a.command = .packet x ∧ c.Skips x a.time
  breaksOff : (a.command.apply a.time c).2 = .error .durationOverflow →
    ∃ x, a.command = .packet x ∧ c.BreaksOff x a.time

theorem Distinct.contribution {c : Catalog} (hc : c.Distinct) (a : TimedCommand) :
    c.Contribution a := by
  obtain ⟨command, time⟩ := a
  cases command with
  | packet x => exact ⟨fun e h => ⟨x, rfl, hc.skips h⟩, fun h => ⟨x, rfl, breaksOff_of_write h⟩⟩
  | removeSource url => exact ⟨nofun, nofun⟩
  | segmentDuration d => exact ⟨nofun, nofun⟩
  | flush ticket => exact ⟨nofun, nofun⟩

/-! ## Commands one after the other -/

/-- Commands are steps of a catalog. -/
theorem reachable_applyAll (writerId : UInt32) (options : Options) (commands : List TimedCommand) :
    Reachable writerId options ((new writerId options).applyAll commands) := by
  induction commands using List.reverseRecOn with
  | nil => exact .refl
  | append_singleton commands a ih =>
    rw [applyAll_concat]
    obtain ⟨command, time⟩ := a
    cases command with
    | packet x => exact ih.tail (.write x time)
    | removeSource url => exact ih.tail (.remove url)
    | segmentDuration d => exact ih.tail (.setSegmentDuration d)
    | flush ticket => exact ih

end Catalog

end LiveHls
