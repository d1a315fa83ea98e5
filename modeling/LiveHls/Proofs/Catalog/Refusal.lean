import LiveHls.Proofs.Catalog.Order
import LiveHls.Proofs.Mp4.InitializationRoundTrip

/-!
# What a refused packet leaves of a catalog

A packet is routed before its rendition looks at it. An empty packet is refused by the rendition
only, and by then it may have replaced that rendition.

* `Catalog.Arises` : what comes of a new catalog by commands and by its end;
* `write_of_emptyPacket` : a refused empty packet leaves what routing it leaves;
* `Distinct.rendition?_route` : a packet of a new format closes the rendition that was there;
* `write_emptyPacket_eq_self_iff` : so the catalog is as before exactly if the packet announces no
  new format; `empty_packet_replaces_rendition` : a live rendition that is lost to an empty packet.
-/

namespace LiveHls

open Rendition (camera cameraVideo cameraFrame shortest)

/-- A rendition is only refused for the streams of its source. -/
theorem Rendition.new?_ne_emptyPacket (format : SourceFormat) (options : Options) (now : Instant)
    (url : String) : new? format options now ≠ .error (.emptyPacket url) := by
  unfold new?
  rcases Mp4.Muxer.ofFormat?_cases format with ⟨-, h⟩ | ⟨-, what, h⟩ | ⟨-, -, m, h, -⟩ <;>
    rw [h] <;> nofun

/-- Whether a packet is refused with an error is told before it is written. -/
theorem Rendition.refusal?_of_write {r : Rendition} {x : Packet} {now : Instant} {e : Error}
    (h : (r.write x now).2 = .error (.error e)) :
    r.refusal? x = some e ∧ (r.write x now).1 = r := by
  unfold write at h ⊢
  cases ha : r.refusal? x with
  | some e' =>
    rw [ha] at h
    cases h
    exact ⟨rfl, rfl⟩
  | none =>
    rw [ha] at h
    rcases hp : r.current.write (fold x) with ⟨s, progress⟩
    rw [hp] at h
    cases progress <;> cases h

namespace Catalog

/-! ## Runs -/

/-- A command, whatever comes of it, or the end of the catalog. -/
inductive Event (c : Catalog) : Catalog → Prop
  | step {c' : Catalog} (step : c.Step c') : Event c c'
  | close : Event c c.close

/-- What comes of a new catalog by any number of commands, before and after its end. -/
def Arises (writerId : UInt32) (options : Options) : Catalog → Prop :=
  Relation.ReflTransGen Event (new writerId options)

section Refusal
variable {c : Catalog} {x : Packet} {now : Instant} {url : String}

theorem Distinct.event {c' : Catalog} (hc : c.Distinct) (h : c.Event c') : c'.Distinct := by
  cases h with
  | step hstep =>
    cases hstep with
    | route x now => exact (hc.route x now).1
    | write x now => exact (hc.write x now).1
    | remove url => exact (hc.remove url).1
    | setSegmentDuration d => exact ⟨hc.handle_lt, hc.handle_inj⟩
  | close =>
    -- closing changes renditions only, one after the other
    exact List.foldlRecOn (motive := Distinct) c.registered _ hc fun d hd p _ => hd.modify p.2 _

theorem Arises.distinct {writerId : UInt32} {options : Options} (h : Arises writerId options c) :
    c.Distinct := by
  induction h with
  | refl => exact distinct_new writerId options
  | tail _ hevent ih => exact ih.event hevent

/-! ## Routing -/

theorem route_ne_emptyPacket : (c.route x now).2 ≠ .error (.emptyPacket url) := by
  by_cases hknown : c.format? x.source = some (c.announced x)
  · simp only [route, if_pos hknown]
    cases c.handle? x.source <;> nofun
  · rw [show c.route x now = c.update (c.announced x) now from if_neg hknown, update_eq]
    cases hn : Rendition.new? (c.announced x) c.options now with
    | ok r => nofun
    | error e =>
      intro he
      cases he
      exact Rendition.new?_ne_emptyPacket _ _ _ url hn

/-- After routing the source has the format that the packet announces. -/
theorem Distinct.format?_route (hc : c.Distinct) (x : Packet) (now : Instant) :
    (c.route x now).1.format? x.source = some (c.announced x) := by
  have hsource := congrArg Source.format? ((hc.route x now).2.2.1 x.source)
  rw [if_pos rfl] at hsource
  refine hsource.trans ?_
  unfold Source.route
  split
  · rename_i hknown
    exact hknown
  · rfl

/-- **Routing leaves a catalog as it was** exactly if the packet announces no new format. -/
theorem Distinct.route_eq_self_iff (hc : c.Distinct) :
    (c.route x now).1 = c ↔ c.format? x.source = some (c.announced x) := by
  constructor
  · intro h
    rw [← hc.format?_route x now, h]
  · intro hknown
    simp only [Catalog.route, if_pos hknown]
    cases c.handle? x.source <;> rfl

theorem rendition?_unregister {h : Handle} (hu : c.handle? url = some h) :
    (c.unregister url).rendition? h = (c.rendition? h).map Rendition.close := by
  simp only [unregister, hu]
  show (c.renditions.modify h Rendition.close)[h]? = _
  rw [List.getElem?_modify]
  simp [rendition?]

theorem rendition?_register (r : Rendition) {h : Handle} (hlt : h < c.renditions.length) :
    (c.register r).rendition? h = c.rendition? h :=
  List.getElem?_append_left hlt

/-- **A packet of a new format** closes the rendition that its source had. -/
theorem Distinct.rendition?_route (hc : c.Distinct)
    (hnew : c.format? x.source ≠ some (c.announced x)) {h : Handle}
    (hu : c.handle? x.source = some h) :
    (c.route x now).1.rendition? h = (c.rendition? h).map Rendition.close := by
  have hroute : c.route x now = c.update (c.announced x) now := if_neg hnew
  have hrenamed : (c.renamed (c.announced x)).rendition? h =
      (c.rendition? h).map Rendition.close := by
    rw [← rendition?_unregister hu, ← url_announced c x]
    rfl
  rw [hroute, update_eq]
  cases Rendition.new? (c.announced x) c.options now with
  | error e => exact hrenamed
  | ok r =>
    refine (rendition?_register r ?_).trans hrenamed
    obtain ⟨r₀, hr₀⟩ : ∃ r₀, c.rendition? h = some r₀ :=
      ⟨_, List.getElem?_eq_getElem (hc.handle_lt hu)⟩
    rw [hr₀] at hrenamed
    exact (List.getElem?_eq_some_iff.1 hrenamed).1

/-! ## Empty packets -/

theorem modify_const {h : Handle} {r : Rendition} (hr : c.rendition? h = some r) :
    (c.modify h fun _ => r) = c := by
  have hsame : c.renditions.modify h (fun _ => r) = c.renditions := by
    refine List.ext_getElem? fun i => ?_
    rw [List.getElem?_modify]
    by_cases hi : h = i
    · obtain rfl := hi
      have hr : c.renditions[h]? = some r := hr
      rw [hr]
      simp
    · simp [hi]
  rw [modify, hsame]

/-- **A refused empty packet leaves what routing it leaves**: it was routed to a rendition, which
has refused it. -/
theorem write_of_emptyPacket (h : (c.write x now).2 = .error (.error (.emptyPacket url))) :
    ∃ handle r, c.route x now = ((c.write x now).1, .ok handle) ∧
      (c.write x now).1.rendition? handle = some r ∧ r.refusal? x = some (.emptyPacket url) := by
  rcases hp : c.route x now with ⟨c', answer⟩
  cases answer with
  | error e =>
    rw [Catalog.write, hp] at h
    cases h
    have hne : (c.route x now).2 ≠ .error (.emptyPacket url) := route_ne_emptyPacket
    rw [hp] at hne
    exact absurd rfl hne
  | ok handle =>
    have hwrite : c.write x now = c'.writeTo handle x now := by rw [Catalog.write, hp]
    rw [hwrite] at h ⊢
    unfold writeTo at h ⊢
    cases hr : c'.rendition? handle with
    | none =>
      rw [hr] at h
      cases h
    | some r =>
      rw [hr] at h
      obtain ⟨hrefusal, hsame⟩ := Rendition.refusal?_of_write h
      simp only [hsame, modify_const hr]
      exact ⟨handle, r, rfl, hr, hrefusal⟩

/-- **Exactly when a refused empty packet leaves a catalog as it was**: it announces the format that
is known of its source. Otherwise the source has a new rendition without packets, and the one that
it had is closed. No other source changes. -/
theorem write_emptyPacket_eq_self_iff {writerId : UInt32} {options : Options}
    (hc : Arises writerId options c)
    (h : (c.write x now).2 = .error (.error (.emptyPacket url))) :
    ((c.write x now).1 = c ↔ c.format? x.source = some (c.announced x)) ∧
    (c.format? x.source ≠ some (c.announced x) →
      (∃ r, Rendition.new? (c.announced x) c.options now = .ok r ∧
        (c.write x now).1.source x.source = ⟨some (c.announced x), some r⟩) ∧
      ∀ old, c.handle? x.source = some old →
        (c.write x now).1.rendition? old = (c.rendition? old).map Rendition.close) ∧
    ∀ other, other ≠ x.source → (c.write x now).1.source other = c.source other := by
  have hd := hc.distinct
  obtain ⟨handle, r, hroute, hr, hrefusal⟩ := write_of_emptyPacket h
  have hsame : (c.write x now).1 = (c.route x now).1 := by rw [hroute]
  obtain ⟨-, -, hsource, hanswer⟩ := hd.route x now
  rw [hsame]
  refine ⟨hd.route_eq_self_iff, fun hnew => ⟨?_, fun old hu => hd.rendition?_route hnew hu⟩,
    fun other hne => (hsource other).trans (if_neg hne)⟩
  have hmade : (c.route x now).1.source x.source =
      ⟨some (c.announced x), (Rendition.new? (c.announced x) c.options now).toOption⟩ := by
    rw [hsource x.source, if_pos rfl]
    exact if_neg hnew
  -- the packet was routed to a rendition, so one could be made
  have hsome : (c.route x now).1.renditionOf? x.source = some r := by
    rw [hroute] at hanswer ⊢
    rw [renditionOf?, hanswer]
    exact hr
  have hmake := congrArg Source.rendition? hmade
  rw [show ((c.route x now).1.source x.source).rendition? = some r from hsome] at hmake
  cases hn : Rendition.new? (c.announced x) c.options now with
  | error e =>
    rw [hn] at hmake
    cases hmake
  | ok r₀ => exact ⟨r₀, rfl, by rw [hmade, hn]; rfl⟩

end Refusal

/-! ### Empty frames -/

/-- A catalog with one camera. -/
def oneCamera : Catalog := ((new 0 shortest).write (cameraFrame true) ⟨0, 0⟩).1

/-- A frame without bytes, of a picture half as wide and half as high. -/
def emptySmallerFrame : Packet :=
  { cameraFrame true with
    payload := []
    medium := .video { cameraVideo with width := 320, height := 180 } true }

/-- The frame is refused, and yet the camera's rendition is closed and another one is listed. -/
theorem empty_packet_replaces_rendition : Reachable 0 shortest oneCamera ∧
    (oneCamera.write emptySmallerFrame ⟨0, 0⟩).2 = .error (.error (.emptyPacket "camera")) ∧
    (oneCamera.write emptySmallerFrame ⟨0, 0⟩).1 ≠ oneCamera ∧
    (oneCamera.rendition? 0).map (·.closed) = some false ∧
    ((oneCamera.write emptySmallerFrame ⟨0, 0⟩).1.rendition? 0).map (·.closed) = some true ∧
    oneCamera.variants.map (·.resolution) = [some (640, 360)] ∧
    (oneCamera.write emptySmallerFrame ⟨0, 0⟩).1.variants.map (·.resolution) =
      [some (320, 180)] := by
  refine ⟨.single (.write _ _), rfl, fun h => ?_, rfl, rfl, by decide +kernel, by decide +kernel⟩
  have hformat := congrArg (fun c : Catalog => c.resolutionOf "camera") h
  exact absurd hformat (by decide)

/-- An empty frame of the format that is known leaves the catalog as it was. -/
theorem write_emptyPacket_eq_self_of_oneCamera :
    Arises 0 shortest oneCamera ∧
    (oneCamera.write { cameraFrame true with payload := [] } ⟨0, 0⟩).2 =
      .error (.error (.emptyPacket "camera")) ∧
    (oneCamera.write { cameraFrame true with payload := [] } ⟨0, 0⟩).1 = oneCamera := by
  have hc : Arises 0 shortest oneCamera := .single (.step (.write _ _))
  exact ⟨hc, rfl, (write_emptyPacket_eq_self_iff hc rfl).1.2 rfl⟩

end Catalog
end LiveHls
