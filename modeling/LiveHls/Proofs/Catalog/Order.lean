import LiveHls.Proofs.Catalog.Sources
import LiveHls.Proofs.Playlist.Uris

/-!
# The master playlist lists the renditions in their order

* `Catalog.Step`, `Catalog.Reachable` : the commands of a catalog, also those that fail, and what
  comes of a new catalog by them;
* `Catalog.Listed` : the order has exactly the registered sources, by resolution, and the master
  playlist describes the renditions that they lead to;
* `listed_refresh` : renewing the master playlist restores it, `Listed.step` : every command keeps
  it;
* `indexed_of_reachable` : what that says of positions, resolutions, formats and the text.
-/

namespace LiveHls

open Rendition (camera cameraVideo cameraFrame shortest)

/-! ## Lists -/

/-- What a partial function makes of members that it is defined at, each with its position. -/
theorem filterMap_zipIdx_of_map_some {α β γ : Type} {f : α → Option β} (g : β → Nat → γ)
    {xs : List α} {ys : List β} (h : xs.map f = ys.map some) (start : Nat) :
    ((xs.zipIdx start).filterMap fun (a, i) => (f a).map (g · i)) =
      (ys.zipIdx start).map fun (b, i) => g b i := by
  induction xs generalizing ys start with
  | nil =>
    obtain rfl : ys = [] := by simpa using h.symm
    rfl
  | cons a xs ih =>
    cases ys with
    | nil => cases h
    | cons b ys =>
      obtain ⟨hb, hrest⟩ := List.cons.inj h
      have hhead : (f a).map (g · start) = some (g b start) := by rw [hb]; rfl
      rw [List.zipIdx_cons, List.zipIdx_cons, List.map_cons, ← ih hrest]
      exact List.filterMap_cons_some hhead

theorem exists_map_some {α β : Type} {f : α → Option β} {xs : List α}
    (h : ∀ a ∈ xs, (f a).isSome = true) : ∃ ys : List β, xs.map f = ys.map some := by
  induction xs with
  | nil => exact ⟨[], rfl⟩
  | cons a xs ih =>
    obtain ⟨b, hb⟩ := Option.isSome_iff_exists.1 (h a List.mem_cons_self)
    obtain ⟨ys, hys⟩ := ih fun a' ha' => h a' (List.mem_cons_of_mem _ ha')
    exact ⟨b :: ys, by rw [List.map_cons, List.map_cons, hb, hys]⟩

/-! ## Formats -/

/-- Writing never changes the format of a rendition, whatever becomes of the packet. -/
theorem Rendition.format_write (r : Rendition) (x : Packet) (now : Instant) :
    (r.write x now).1.format = r.format := by
  unfold write
  cases r.refusal? x with
  | some e => rfl
  | none =>
    rcases r.current.write (fold x) with ⟨s, progress⟩
    cases progress <;> rfl

namespace Source

/-- The rendition of a source has the format that is known of the source. -/
def Agrees (s : Source) : Prop := ∀ r, s.rendition? = some r → s.format? = some r.format

theorem agrees_absent : absent.Agrees := fun r hr => absurd hr (Option.some_ne_none r).symm

theorem Agrees.route {s : Source} (h : s.Agrees) (url : String) (options : Options) (x : Packet)
    (now : Instant) : (s.route url options x now).Agrees := by
  unfold Source.route
  split
  · exact h
  · intro r hr
    cases hn : Rendition.new? (s.announced url x) options now with
    | error e =>
      rw [hn] at hr
      cases hr
    | ok r₀ =>
      rw [hn] at hr
      cases hr
      exact congrArg some (Rendition.new?_eq_ok hn).2.1.symm

theorem Agrees.write {s : Source} (h : s.Agrees) (url : String) (options : Options) (x : Packet)
    (now : Instant) : (s.write url options x now).Agrees := by
  intro r hr
  obtain ⟨r₀, h₀, rfl⟩ := Option.map_eq_some_iff.1 hr
  rw [Rendition.format_write]
  exact h.route url options x now r₀ h₀

end Source

namespace Catalog

/-! ## Runs -/

/-- A command, whatever comes of it. -/
inductive Step (c : Catalog) : Catalog → Prop
  | route (x : Packet) (now : Instant) : Step c (c.route x now).1
  | write (x : Packet) (now : Instant) : Step c (c.write x now).1
  | remove (url : String) : Step c (c.remove url).1
  | setSegmentDuration (d : Duration) : Step c (c.setSegmentDuration d)

/-- What comes of a new catalog by any number of commands. -/
def Reachable (writerId : UInt32) (options : Options) : Catalog → Prop :=
  Relation.ReflTransGen Step (new writerId options)

/-! ## The invariant -/

/-- The sources that have a rendition. -/
def urls (c : Catalog) : List String := c.registered.map (·.1)

/-- A catalog whose order has exactly the registered sources, by resolution, and whose master
playlist describes their renditions. -/
structure Listed (c : Catalog) : Prop where
  distinct : c.Distinct
  nodup : c.urls.Nodup
  agrees : ∀ url, (c.source url).Agrees
  order_perm : c.order.Perm c.urls
  order_sorted : (c.order.map c.resolutionOf).Pairwise (· ≤ ·)
  variants_eq : c.variants = c.listVariants

section Listing
variable {c : Catalog}

theorem listing_perm (previous urls : List String) (resolution : String → Nat) :
    (listing previous urls resolution).Perm urls :=
  (List.mergeSort_perm ..).trans (List.mergeSort_perm ..)

theorem pairwise_listing (previous urls : List String) (resolution : String → Nat) :
    ((listing previous urls resolution).map resolution).Pairwise (· ≤ ·) := by
  have h := @List.pairwise_mergeSort _ (fun a b => decide (resolution a ≤ resolution b))
    (fun a b d hab hbd => by simp only [decide_eq_true_eq] at *; omega)
    (fun a b => by simp only [Bool.or_eq_true, decide_eq_true_eq]; omega)
    (urls.mergeSort fun a b => previous.idxOf a ≤ previous.idxOf b)
  rw [List.pairwise_map]
  exact h.imp fun hab => of_decide_eq_true hab

theorem mem_urls_iff {url : String} : url ∈ c.urls ↔ (c.handle? url).isSome = true := by
  unfold urls handle?
  rw [List.lookup_isSome_iff, List.mem_map]
  exact exists_congr fun p => and_congr_right fun _ => by rw [beq_iff_eq, eq_comm]

theorem Distinct.isSome_renditionOf? (hc : c.Distinct) (url : String) :
    (c.renditionOf? url).isSome = (c.handle? url).isSome := by
  unfold renditionOf?
  cases hh : c.handle? url with
  | none => rfl
  | some h =>
    show (c.renditions[h]?).isSome = true
    rw [List.getElem?_eq_getElem (hc.handle_lt hh)]
    rfl

/-- **Renewing the master playlist** brings order and playlist up to date. -/
theorem listed_refresh (hc : c.Distinct) (hk : c.urls.Nodup)
    (ha : ∀ url, (c.source url).Agrees) : c.refresh.Listed where
  distinct := hc.refresh
  nodup := hk
  agrees := ha
  order_perm := listing_perm ..
  order_sorted := pairwise_listing ..
  variants_eq := rfl

theorem listed_new (writerId : UInt32) (options : Options) : (new writerId options).Listed where
  distinct := distinct_new writerId options
  nodup := List.nodup_nil
  agrees := by
    intro url
    rw [source_new]
    exact Source.agrees_absent
  order_perm := .nil
  order_sorted := .nil
  variants_eq := rfl

/-! ### Commands -/

theorem urls_unregister (c : Catalog) (url : String) :
    (c.unregister url).urls.Sublist c.urls := by
  unfold unregister
  cases c.handle? url with
  | none => exact .refl _
  | some h => exact List.filter_sublist.map _

theorem nodup_register (hk : c.urls.Nodup) {r : Rendition} (hr : c.handle? r.format.url = none) :
    (c.register r).urls.Nodup := by
  have hnew : r.format.url ∉ c.urls := by
    rw [mem_urls_iff, hr]
    nofun
  have hurls : (c.register r).urls = c.urls ++ [r.format.url] := by
    simp [urls, register]
  rw [hurls, List.nodup_append]
  refine ⟨hk, List.pairwise_singleton .., fun a ha b hb hab => hnew ?_⟩
  rw [← List.mem_singleton.1 hb, ← hab]
  exact ha

theorem Listed.update (hc : c.Listed) (format : SourceFormat) (now : Instant)
    (ha : ∀ url, ((c.update format now).1.source url).Agrees) : (c.update format now).1.Listed := by
  have hd := hc.distinct.renamed format
  have hk : (c.renamed format).urls.Nodup := (urls_unregister c format.url).nodup hc.nodup
  rw [update_eq] at ha ⊢
  cases hn : Rendition.new? format c.options now with
  | error e =>
    rw [hn] at ha
    exact listed_refresh hd hk ha
  | ok r =>
    rw [hn] at ha
    have hurl : r.format.url = format.url := congrArg _ (Rendition.new?_eq_ok hn).2.1
    have hnone : (c.renamed format).handle? r.format.url = none := by
      rw [handle?_renamed, hurl, if_pos rfl]
    exact listed_refresh (hd.register r) (nodup_register hk hnone) ha

/-- A packet of a known format changes nothing. -/
theorem route_cases (c : Catalog) (x : Packet) (now : Instant) :
    (c.route x now).1 = c ∨ c.route x now = c.update (c.announced x) now := by
  by_cases hk : c.format? x.source = some (c.announced x)
  · left
    unfold route
    simp only [if_pos hk]
    cases c.handle? x.source <;> rfl
  · exact Or.inr (if_neg hk)

theorem Listed.route (hc : c.Listed) (x : Packet) (now : Instant) : (c.route x now).1.Listed := by
  have ha : ∀ url, ((c.route x now).1.source url).Agrees := by
    intro url
    rw [(hc.distinct.route x now).2.2.1 url]
    split
    · exact (hc.agrees url).route url c.options x now
    · exact hc.agrees url
  rcases route_cases c x now with hroute | hroute
  · rw [hroute]
    exact hc
  · rw [hroute] at ha ⊢
    exact hc.update _ now ha

/-- The master playlist does not depend on what is written to the renditions. -/
theorem listVariants_modify (c : Catalog) (h : Handle) {f : Rendition → Rendition}
    (hf : ∀ r, c.rendition? h = some r → (f r).format = r.format) :
    (c.modify h f).listVariants = c.listVariants := by
  have hvariant : ∀ url uri, ((c.modify h f).renditionOf? url).map (·.variant uri) =
      (c.renditionOf? url).map (·.variant uri) := by
    intro url uri
    show (((c.handle? url).bind fun h' => (c.renditions.modify h f)[h']?)).map _ =
      ((c.handle? url).bind fun h' => c.renditions[h']?).map _
    cases c.handle? url with
    | none => rfl
    | some h' =>
      rw [Option.bind_some, Option.bind_some, List.getElem?_modify]
      cases hr : c.renditions[h']? with
      | none => rfl
      | some r =>
        show some (Rendition.variant (if h = h' then f r else r) uri) = some (r.variant uri)
        split
        · rename_i he
          have hformat := hf r (he ▸ hr)
          simp only [Rendition.variant, hformat]
        · rfl
  exact List.filterMap_congr fun (url, index) _ => hvariant url (indexUri c.writerId index)

theorem Listed.modify (hc : c.Listed) (h : Handle) {f : Rendition → Rendition}
    (hf : ∀ r, c.rendition? h = some r → (f r).format = r.format)
    (ha : ∀ url, ((c.modify h f).source url).Agrees) : (c.modify h f).Listed where
  distinct := hc.distinct.modify h f
  nodup := hc.nodup
  agrees := ha
  order_perm := hc.order_perm
  order_sorted := hc.order_sorted
  variants_eq := hc.variants_eq.trans (listVariants_modify c h hf).symm

theorem Listed.writeTo (hc : c.Listed) (h : Handle) (x : Packet) (now : Instant)
    (ha : ∀ url, ((c.writeTo h x now).1.source url).Agrees) : (c.writeTo h x now).1.Listed := by
  cases hr : c.rendition? h with
  | none =>
    rw [show (c.writeTo h x now).1 = c by rw [Catalog.writeTo, hr]]
    exact hc
  | some r =>
    rw [show (c.writeTo h x now).1 = c.modify h fun _ => (r.write x now).1 by
      rw [Catalog.writeTo, hr]] at ha ⊢
    refine hc.modify h (fun r₁ hr₁ => ?_) ha
    obtain rfl : r = r₁ := Option.some.inj (hr.symm.trans hr₁)
    exact r.format_write x now

theorem Listed.write (hc : c.Listed) (x : Packet) (now : Instant) : (c.write x now).1.Listed := by
  have ha : ∀ url, ((c.write x now).1.source url).Agrees := by
    intro url
    rw [(hc.distinct.write x now).2.2 url]
    split
    · exact (hc.agrees url).write url c.options x now
    · exact hc.agrees url
  have hroute := hc.route x now
  rcases hp : c.route x now with ⟨c', answer⟩
  rw [hp] at hroute
  cases answer with
  | error e =>
    rw [show c.write x now = (c', .error (.error e)) by rw [Catalog.write, hp]]
    exact hroute
  | ok h =>
    rw [show c.write x now = c'.writeTo h x now by rw [Catalog.write, hp]] at ha ⊢
    exact hroute.writeTo h x now ha

/-- A source that is not known has no rendition, so there is nothing to remove. -/
theorem Listed.remove_of_unknown (hc : c.Listed) {url : String} (hu : c.format? url = none) :
    c.remove url = (c, false) := by
  have hformats : c.forget url = c := by
    have hall : c.formats.filter (·.url != url) = c.formats := by
      refine List.filter_eq_self.2 fun format hf => ?_
      simpa using List.find?_eq_none.1 hu format hf
    rw [forget, hall]
  have hhandle : c.handle? url = none := by
    rw [← Option.not_isSome_iff_eq_none, ← hc.distinct.isSome_renditionOf?]
    intro hsome
    obtain ⟨r, hr⟩ := Option.isSome_iff_exists.1 hsome
    have hformat : c.format? url = some r.format := hc.agrees url r hr
    rw [hu] at hformat
    cases hformat
  have hunregister : c.unregister url = c := by
    unfold unregister
    rw [hhandle]
  unfold remove
  rw [hu, hformats, hunregister]
  rfl

theorem Listed.remove (hc : c.Listed) (url : String) : (c.remove url).1.Listed := by
  have ha : ∀ url', ((c.remove url).1.source url').Agrees := by
    intro url'
    rw [(hc.distinct.remove url).2.2 url']
    split
    · exact Source.agrees_absent
    · exact hc.agrees url'
  cases hu : c.format? url with
  | none =>
    rw [hc.remove_of_unknown hu]
    exact hc
  | some format =>
    rw [show (c.remove url).1 = ((c.forget url).unregister url).refresh by
      unfold Catalog.remove; rw [hu]; rfl] at ha ⊢
    have hf : (c.forget url).Distinct := ⟨hc.distinct.handle_lt, hc.distinct.handle_inj⟩
    exact listed_refresh (hf.unregister url) ((urls_unregister (c.forget url) url).nodup hc.nodup) ha

/-- **Every command keeps the order and the master playlist in step with the sources.** -/
theorem Listed.step {c' : Catalog} (hc : c.Listed) (h : c.Step c') : c'.Listed := by
  cases h with
  | route x now => exact hc.route x now
  | write x now => exact hc.write x now
  | remove url => exact hc.remove url
  | setSegmentDuration d =>
    exact ⟨⟨hc.distinct.handle_lt, hc.distinct.handle_inj⟩, hc.nodup, hc.agrees, hc.order_perm,
      hc.order_sorted, hc.variants_eq⟩

theorem Reachable.listed {writerId : UInt32} {options : Options} (h : Reachable writerId options c) :
    c.Listed := by
  induction h with
  | refl => exact listed_new writerId options
  | tail _ hstep ih => exact ih.step hstep

/-! ### The writer's number -/

theorem writerId_unregister (c : Catalog) (url : String) :
    (c.unregister url).writerId = c.writerId := by
  unfold unregister
  cases c.handle? url <;> rfl

theorem writerId_route (c : Catalog) (x : Packet) (now : Instant) :
    (c.route x now).1.writerId = c.writerId := by
  have hupdate : ∀ format, (c.update format now).1.writerId = c.writerId := by
    intro format
    rw [update_eq]
    cases Rendition.new? format c.options now <;> exact writerId_unregister c format.url
  rcases route_cases c x now with hroute | hroute
  · rw [hroute]
  · rw [hroute]
    exact hupdate _

theorem writerId_write (c : Catalog) (x : Packet) (now : Instant) :
    (c.write x now).1.writerId = c.writerId := by
  rw [← writerId_route c x now]
  unfold write
  rcases c.route x now with ⟨c', answer⟩
  cases answer with
  | error e => rfl
  | ok h =>
    show (c'.writeTo h x now).1.writerId = c'.writerId
    unfold writeTo
    cases c'.rendition? h <;> rfl

theorem Step.writerId_eq {c' : Catalog} (h : c.Step c') : c'.writerId = c.writerId := by
  cases h with
  | route x now => exact writerId_route c x now
  | write x now => exact writerId_write c x now
  | remove url =>
    unfold Catalog.remove
    cases (c.format? url).isSome <;> exact writerId_unregister (c.forget url) url
  | setSegmentDuration d => rfl

theorem Reachable.writerId_eq {writerId : UInt32} {options : Options}
    (h : Reachable writerId options c) : c.writerId = writerId := by
  induction h with
  | refl => rfl
  | tail _ hstep ih => exact hstep.writerId_eq.trans ih

/-! ### Positions -/

theorem Listed.isSome_of_mem_order (hc : c.Listed) {url : String} :
    url ∈ c.order ↔ (c.renditionOf? url).isSome = true := by
  rw [hc.order_perm.mem_iff, mem_urls_iff, hc.distinct.isSome_renditionOf?]

theorem renditionAt_eq (c : Catalog) (i : Nat) :
    c.renditionAt i = match (c.order[i]?).bind c.renditionOf? with
      | some r => .ok r
      | none => .error (.notFound "rendition" (toString i)) := by
  have hassoc : ((c.order[i]?).bind c.handle?).bind c.rendition? =
      (c.order[i]?).bind c.renditionOf? := Option.bind_assoc ..
  unfold renditionAt
  rewrite [hassoc]
  rfl

theorem Listed.renditionAt_of_lt (hc : c.Listed) {i : Nat} (hi : i < c.size) :
    ∃ url r, c.order[i]? = some url ∧ c.renditionOf? url = some r ∧ c.renditionAt i = .ok r := by
  obtain ⟨r, hr⟩ := Option.isSome_iff_exists.1
    (hc.isSome_of_mem_order.1 (List.getElem_mem (l := c.order) hi))
  refine ⟨_, r, List.getElem?_eq_getElem hi, hr, ?_⟩
  rw [renditionAt_eq, List.getElem?_eq_getElem hi, Option.bind_some, hr]

theorem renditionAt_of_le {i : Nat} (hi : c.size ≤ i) :
    c.renditionAt i = .error (.notFound "rendition" (toString i)) := by
  rw [renditionAt_eq, List.getElem?_eq_none hi, Option.bind_none]

/-- The renditions in the order of their sources. -/
theorem Listed.exists_renditions (hc : c.Listed) : ∃ rs : List Rendition,
    c.order.map c.renditionOf? = rs.map some ∧ ∀ i r, rs[i]? = some r → c.renditionAt i = .ok r := by
  obtain ⟨rs, hrs⟩ := exists_map_some fun url hu => hc.isSome_of_mem_order.1 hu
  refine ⟨rs, hrs, fun i r hr => ?_⟩
  have hi := congrArg (·[i]?) hrs
  simp only [List.getElem?_map, hr, Option.map_some] at hi
  obtain ⟨url, hu, hof⟩ := Option.map_eq_some_iff.1 hi
  rw [renditionAt_eq, hu, Option.bind_some, hof]

theorem Listed.variants_eq_map (hc : c.Listed) {rs : List Rendition}
    (hrs : c.order.map c.renditionOf? = rs.map some) :
    c.variants = rs.zipIdx.map fun (r, i) => r.variant (indexUri c.writerId i) :=
  hc.variants_eq.trans
    (filterMap_zipIdx_of_map_some (fun (r : Rendition) i => r.variant (indexUri c.writerId i)) hrs 0)

theorem Listed.master_eq (hc : c.Listed) {rs : List Rendition}
    (hrs : c.order.map c.renditionOf? = rs.map some) :
    c.master = Playlist.masterHeader ++ String.join (rs.mapIdx fun i r =>
      (r.variant (indexUri c.writerId i)).text) := by
  unfold master Playlist.master
  rw [hc.variants_eq_map hrs, List.map_map, List.mapIdx_eq_zipIdx_map]
  rfl

theorem indexUri_inj {writerId : UInt32} {i j : Nat} (h : indexUri writerId i = indexUri writerId j) :
    i = j := by
  have hchars := congrArg String.toList h
  simp only [indexUri, String.toList_append, List.append_assoc] at hchars
  have hback := List.append_cancel_left (List.append_cancel_left hchars)
  exact Playlist.toString_inj.1 (String.toList_inj.1 (List.append_cancel_right hback))

end Listing

/-! ## The order and the master playlist -/

/-- A catalog whose positions, sources and master playlist lead to the same renditions. -/
structure Indexed (writerId : UInt32) (c : Catalog) : Prop where
  nodup : c.order.Nodup
  mem_order_iff : ∀ url, url ∈ c.order ↔ (c.renditionOf? url).isSome = true
  /-- The sources stand by the number of pixels of their stored formats, 0 without video. -/
  order_sorted : c.order.Pairwise fun a b => c.resolutionOf a ≤ c.resolutionOf b
  /-- A source with a rendition has a stored format, which is the rendition's own. -/
  format_eq : ∀ url r, c.renditionOf? url = some r → c.format? url = some r.format
  renditionAt_of_lt : ∀ i < c.size, ∃ url r, c.order[i]? = some url ∧
    c.renditionOf? url = some r ∧ c.renditionAt i = .ok r
  renditionAt_of_le : ∀ i, c.size ≤ i →
    c.renditionAt i = .error (.notFound "rendition" (toString i))
  /-- Behind its header the master playlist has for each position the line of the rendition there
  and the URI of the position. -/
  master_eq : ∃ rs : List Rendition, rs.length = c.size ∧
    (∀ i r, rs[i]? = some r → c.renditionAt i = .ok r) ∧
    c.master = "#EXTM3U\n#EXT-X-VERSION:7\n" ++ String.join (rs.mapIdx fun i r =>
      (r.variant (indexUri writerId i)).streamInf ++ "\n" ++ indexUri writerId i ++ "\n")
  indexUri_inj : ∀ i j, indexUri writerId i = indexUri writerId j → i = j

/-- **The master playlist lists the renditions in their order.** After any commands, also such that
fail, the order has every source with a rendition once, by resolution, and the URI of each position
leads to the rendition that the line before it describes. -/
theorem indexed_of_reachable {writerId : UInt32} {options : Options} {c : Catalog}
    (h : Reachable writerId options c) : c.Indexed writerId := by
  have hc := h.listed
  obtain ⟨rs, hrs, hat⟩ := hc.exists_renditions
  have hlength : rs.length = c.order.length := by
    have := congrArg List.length hrs
    simpa using this.symm
  refine {
    nodup := hc.order_perm.nodup_iff.2 hc.nodup
    mem_order_iff := fun url => hc.isSome_of_mem_order
    order_sorted := List.pairwise_map.1 hc.order_sorted
    format_eq := hc.agrees
    renditionAt_of_lt := fun _ => hc.renditionAt_of_lt
    renditionAt_of_le := fun _ => renditionAt_of_le
    master_eq := ⟨rs, hlength, hat, ?_⟩
    indexUri_inj := fun i j => indexUri_inj }
  rw [hc.master_eq hrs, h.writerId_eq]
  rfl

/-! ### A camera, a smaller one and a source that cannot be carried -/

def doorFrame : Packet :=
  let format : VideoFormat := ⟨.h264, 320, 180, 25, 0, []⟩
  ⟨.zero, .ofMillis 40, [0], "door", 0, .video format true⟩

def radioFrame : Packet :=
  ⟨.zero, .ofMillis 40, [0], "radio", 0, .audio ⟨.opus, 48000, 2, 0, []⟩⟩

/-- A camera is written to, a smaller one is routed, and the radio fails. -/
def threeSources : Catalog :=
  let c := ((new 7 shortest).write (cameraFrame true) ⟨0, 0⟩).1
  let c := (c.route doorFrame ⟨0, 0⟩).1
  (c.write radioFrame ⟨0, 0⟩).1

/-- The radio is known but cannot be carried, so it has no position. The cameras have one each, the
smaller one in front. -/
theorem indexed_threeSources : Reachable 7 shortest threeSources ∧ threeSources.Indexed 7 ∧
    (threeSources.format? "radio").isSome = true ∧ "radio" ∉ threeSources.order ∧
    "camera" ∈ threeSources.order ∧ "door" ∈ threeSources.order ∧
    threeSources.resolutionOf "door" < threeSources.resolutionOf "camera" := by
  have h : Reachable 7 shortest threeSources :=
    ((Relation.ReflTransGen.refl.tail (.write (cameraFrame true) ⟨0, 0⟩)).tail
      (.route doorFrame ⟨0, 0⟩)).tail (.write radioFrame ⟨0, 0⟩)
  have hindexed := indexed_of_reachable h
  refine ⟨h, hindexed, rfl, ?_, ?_, ?_, by decide⟩
  · rw [hindexed.mem_order_iff]
    exact Bool.false_ne_true
  · rw [hindexed.mem_order_iff]
    rfl
  · rw [hindexed.mem_order_iff]
    rfl

end Catalog
end LiveHls
