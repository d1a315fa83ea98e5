import LiveHls.Proofs.Catalog.Handles

/-!
# The order of the master playlist does not depend on the register's

A register yields its sources in an order of its own choice, another one each time. The order of the
master playlist starts from that choice and is sorted twice, by the previous order and then by
resolution, and both times equals keep their places.

* `listing_eq_of_perm` : the choice does not matter if at most one source was not listed before;
* `idxOf_listing_lt` : of two sources of equal resolution the one listed first before stays first;
* `Operation.applyBy` : a command with the choice that the register makes at its renewal;
  `Operation.applyBy_eq_apply` : what comes of it does not depend on the choice;
* `Stable` : an operation keeps the relative order of equal resolutions and puts a new source last
  among them (`stable_applyBy`);
* `order_independent_of_shuffle` : so for whole runs, whatever the register chooses.
-/

namespace LiveHls

open Rendition (camera cameraVideo cameraFrame shortest)

/-! ## Places in a list without duplicates -/

theorem idxOf_lt_of_pair_sublist {xs : List String} {a b : String} (hn : xs.Nodup)
    (h : [a, b].Sublist xs) : xs.idxOf a < xs.idxOf b := by
  induction xs with
  | nil => cases h
  | cons x xs ih =>
    obtain ⟨hx, hxs⟩ := List.nodup_cons.1 hn
    have hb : b ≠ x := by
      rintro rfl
      cases h with
      | cons _ h => exact hx (h.subset (by simp))
      | cons_cons _ h => exact hx (h.subset (by simp))
    rw [List.idxOf_cons_ne _ hb.symm]
    cases h with
    | cons _ h =>
      have ha : a ≠ x := fun he => hx (he ▸ h.subset (by simp))
      rw [List.idxOf_cons_ne _ ha.symm]
      exact Nat.succ_lt_succ (ih hxs h)
    | cons_cons _ h =>
      rw [List.idxOf_cons_self]
      exact Nat.succ_pos _

theorem pair_sublist_of_idxOf_lt {xs : List String} {a b : String} (hb : b ∈ xs)
    (h : xs.idxOf a < xs.idxOf b) : [a, b].Sublist xs := by
  induction xs with
  | nil => cases hb
  | cons x xs ih =>
    have hbx : b ≠ x := by
      rintro rfl
      rw [List.idxOf_cons_self] at h
      exact absurd h (Nat.not_lt_zero _)
    have hbxs : b ∈ xs := (List.mem_cons.1 hb).resolve_left hbx
    by_cases hax : a = x
    · subst hax
      exact (List.singleton_sublist.2 hbxs).cons_cons a
    · rw [List.idxOf_cons_ne _ (Ne.symm hax), List.idxOf_cons_ne _ hbx.symm] at h
      exact (ih hbxs (Nat.lt_of_succ_lt_succ h)).cons x

namespace Catalog

/-! ## Sorting by previous place and resolution -/

section Listing
variable {previous urls urls' : List String} {resolution : String → Nat} {a b : String}

/-- The sources by their previous place; those that had none come last. -/
def byPlace (previous urls : List String) : List String :=
  urls.mergeSort fun a b => previous.idxOf a ≤ previous.idxOf b

theorem listing_eq (previous urls : List String) (resolution : String → Nat) :
    listing previous urls resolution =
      (byPlace previous urls).mergeSort fun a b => resolution a ≤ resolution b :=
  rfl

theorem byPlace_perm (previous urls : List String) : (byPlace previous urls).Perm urls :=
  List.mergeSort_perm ..

theorem pairwise_byPlace (previous urls : List String) :
    (byPlace previous urls).Pairwise fun a b => previous.idxOf a ≤ previous.idxOf b := by
  have h := @List.pairwise_mergeSort _ (fun a b => decide (previous.idxOf a ≤ previous.idxOf b))
    (fun a b d hab hbd => by simp only [decide_eq_true_eq] at *; omega)
    (fun a b => by simp only [Bool.or_eq_true, decide_eq_true_eq]; omega) urls
  exact h.imp fun hab => of_decide_eq_true hab

/-- At most one of the sources has no previous place. -/
def AtMostOneNew (previous urls : List String) : Prop :=
  ∀ a ∈ urls, ∀ b ∈ urls, a ∉ previous → b ∉ previous → a = b

/-- Sources with the same previous place are the same. -/
theorem AtMostOneNew.eq_of_idxOf_eq (h : AtMostOneNew previous urls) (ha : a ∈ urls) (hb : b ∈ urls)
    (hidx : previous.idxOf a = previous.idxOf b) : a = b := by
  by_cases hmem : a ∈ previous
  · exact (List.idxOf_inj hmem).1 hidx
  · have hbm : b ∉ previous := by
      rwa [← List.idxOf_lt_length_iff, ← hidx, List.idxOf_lt_length_iff]
    exact h a ha b hb hmem hbm

/-- **The order of the register does not matter** to the order of the playlist. -/
theorem listing_eq_of_perm (hp : urls.Perm urls') (h : AtMostOneNew previous urls) :
    listing previous urls resolution = listing previous urls' resolution := by
  have hsorted : byPlace previous urls = byPlace previous urls' := by
    refine List.Perm.eq_of_pairwise (fun a b ha hb hab hba => ?_) (pairwise_byPlace previous urls)
      (pairwise_byPlace previous urls')
      ((byPlace_perm ..).trans (hp.trans (byPlace_perm ..).symm))
    refine h.eq_of_idxOf_eq ((byPlace_perm ..).mem_iff.1 ha) ?_ (Nat.le_antisymm hab hba)
    exact hp.mem_iff.2 ((byPlace_perm ..).mem_iff.1 hb)
  rw [listing_eq, listing_eq, hsorted]

/-- **Of two sources of equal resolution** the one with the smaller previous place comes first. -/
theorem idxOf_listing_lt (hn : urls.Nodup) (ha : a ∈ urls) (hb : b ∈ urls)
    (hres : resolution a = resolution b) (hlt : previous.idxOf a < previous.idxOf b) :
    (listing previous urls resolution).idxOf a < (listing previous urls resolution).idxOf b := by
  have hplace : [a, b].Sublist (byPlace previous urls) := by
    have hb' : b ∈ byPlace previous urls := (byPlace_perm ..).mem_iff.2 hb
    have ha' : a ∈ byPlace previous urls := (byPlace_perm ..).mem_iff.2 ha
    rcases Nat.lt_trichotomy ((byPlace previous urls).idxOf a) ((byPlace previous urls).idxOf b)
      with h | h | h
    · exact pair_sublist_of_idxOf_lt hb' h
    · rw [(List.idxOf_inj ha').1 h] at hlt
      exact absurd hlt (Nat.lt_irrefl _)
    · have hpair := (pairwise_byPlace previous urls).sublist (pair_sublist_of_idxOf_lt ha' h)
      have hle := List.rel_of_pairwise_cons hpair (List.mem_singleton_self a)
      exact absurd hlt (Nat.not_lt_of_le hle)
  have hsorted : [a, b].Sublist (listing previous urls resolution) := by
    refine List.pair_sublist_mergeSort ?_ ?_ (decide_eq_true (Nat.le_of_eq hres)) hplace
    · intro a b d hab hbd
      simp only [decide_eq_true_eq] at *
      omega
    · intro a b
      simp only [Bool.or_eq_true, decide_eq_true_eq]
      omega
  exact idxOf_lt_of_pair_sublist ((listing_perm ..).nodup_iff.2 hn) hsorted

end Listing

/-! ## Stable operations -/

/-- From `c` to `c'` two sources that were listed and still are, and have equal resolutions then,
keep their relative order; and a source that is newly listed comes after all others of its
resolution. -/
structure Stable (c c' : Catalog) : Prop where
  idxOf_lt_iff : ∀ a b, a ∈ c.order → b ∈ c.order → a ∈ c'.order → b ∈ c'.order →
    c'.resolutionOf a = c'.resolutionOf b →
    (c'.order.idxOf a < c'.order.idxOf b ↔ c.order.idxOf a < c.order.idxOf b)
  idxOf_lt_of_new : ∀ a b, a ∉ c.order → a ∈ c'.order → b ∈ c'.order → b ≠ a →
    c'.resolutionOf b = c'.resolutionOf a → c'.order.idxOf b < c'.order.idxOf a

section Operations
variable {c c' : Catalog} {urls : List String}

theorem stable_of_order_eq (h : c'.order = c.order) : c.Stable c' where
  idxOf_lt_iff a b _ _ _ _ _ := by rw [h]
  idxOf_lt_of_new a b hnew ha := absurd (h ▸ ha) hnew

theorem stable_refreshFrom (horder : c'.order = c.order) (hn : urls.Nodup)
    (hone : AtMostOneNew c.order urls) : c.Stable (c'.refreshFrom urls) := by
  have hlisting : (c'.refreshFrom urls).order = listing c.order urls c'.resolutionOf := by
    rw [← horder]
    rfl
  have hmem : ∀ a, a ∈ listing c.order urls c'.resolutionOf ↔ a ∈ urls := fun a =>
    (listing_perm ..).mem_iff
  have hresolution : (c'.refreshFrom urls).resolutionOf = c'.resolutionOf := rfl
  constructor
  · intro a b ha hb ha' hb' hres
    rw [hlisting, hmem] at ha' hb'
    rw [hresolution] at hres
    rw [hlisting]
    constructor
    · intro hlt
      rcases Nat.lt_trichotomy (c.order.idxOf a) (c.order.idxOf b) with h | h | h
      · exact h
      · rw [(List.idxOf_inj ha).1 h] at hlt
        exact absurd hlt (Nat.lt_irrefl _)
      · exact absurd hlt (Nat.lt_asymm (idxOf_listing_lt hn hb' ha' hres.symm h))
    · exact idxOf_listing_lt hn ha' hb' hres
  · intro a b hnew ha' hb' hne hres
    rw [hlisting, hmem] at ha' hb'
    rw [hresolution] at hres
    rw [hlisting]
    refine idxOf_listing_lt hn hb' ha' hres ?_
    -- `a` has no previous place, so every other source has one
    have hb : b ∈ c.order := Decidable.byContradiction fun hb => hne (hone b hb' a ha' hb hnew)
    rw [List.idxOf_eq_length hnew]
    exact List.idxOf_lt_length_iff.2 hb

theorem Stable.trans_same {c'' : Catalog} (h : c.Stable c') (horder : c''.order = c'.order)
    (hformats : c''.formats = c'.formats) : c.Stable c'' := by
  have hresolution : c''.resolutionOf = c'.resolutionOf := by
    funext url
    unfold resolutionOf format?
    rw [hformats]
  constructor
  · rw [horder, hresolution]
    exact h.idxOf_lt_iff
  · rw [horder, hresolution]
    exact h.idxOf_lt_of_new

end Operations

end Catalog

/-! ## The register's choices -/

/-- The orders in which a register may yield its sources. -/
structure Shuffle where
  order : List String → List String
  perm : ∀ urls, (order urls).Perm urls

namespace Catalog

/-- The renewal of order and master playlist, with the register's choice. -/
def refreshBy (s : Shuffle) (c : Catalog) : Catalog := c.refreshFrom (s.order c.urls)

def updateBy (s : Shuffle) (c : Catalog) (format : SourceFormat) (now : Instant) :
    Catalog × Except Error Handle :=
  match Rendition.new? format c.options now with
  | .ok r =>
    (((c.renamed format).register r).refreshBy s, .ok (c.renamed format).renditions.length)
  | .error e => ((c.renamed format).refreshBy s, .error e)

def routeBy (s : Shuffle) (c : Catalog) (x : Packet) (now : Instant) :
    Catalog × Except Error Handle :=
  if c.format? x.source = some (c.announced x) then c.route x now
  else c.updateBy s (c.announced x) now

/-- The packet is written to the rendition that it was routed to, if there is one. -/
def writeRouted (x : Packet) (now : Instant) :
    Catalog × Except Error Handle → Catalog × Except Fault Unit
  | (c, .error e) => (c, .error (.error e))
  | (c, .ok h) => c.writeTo h x now

def writeBy (s : Shuffle) (c : Catalog) (x : Packet) (now : Instant) : Catalog × Except Fault Unit :=
  writeRouted x now (c.routeBy s x now)

def removeBy (s : Shuffle) (c : Catalog) (url : String) : Catalog :=
  let removed := (c.forget url).unregister url
  if (c.format? url).isSome then removed.refreshBy s else removed

/-- What can be done to a catalog. -/
inductive Operation where
  | route (x : Packet) (now : Instant)
  | write (x : Packet) (now : Instant)
  | remove (url : String)
  | setSegmentDuration (d : Duration)
  | close

namespace Operation

def apply (c : Catalog) : Operation → Catalog
  | route x now => (c.route x now).1
  | write x now => (c.write x now).1
  | remove url => (c.remove url).1
  | setSegmentDuration d => c.setSegmentDuration d
  | close => c.close

/-- The operation, with the register's choice at its renewal. -/
def applyBy (s : Shuffle) (c : Catalog) : Operation → Catalog
  | route x now => (c.routeBy s x now).1
  | write x now => (c.writeBy s x now).1
  | remove url => c.removeBy s url
  | setSegmentDuration d => c.setSegmentDuration d
  | close => c.close

end Operation

/-- `d` is `c` with other sources on the register, at most one of them new, before its order and
master playlist are renewed. -/
structure Renewable (c d : Catalog) : Prop where
  order_eq : d.order = c.order
  nodup : d.urls.Nodup
  atMostOneNew : AtMostOneNew c.order d.urls

section Choices
variable {c d : Catalog} (s : Shuffle)

/-- **The renewal does not depend on the register's choice.** -/
theorem Renewable.refreshBy_eq (h : c.Renewable d) : d.refreshBy s = d.refresh := by
  have horder : listing d.order (s.order d.urls) d.resolutionOf =
      listing d.order d.urls d.resolutionOf := by
    rw [h.order_eq]
    refine (listing_eq_of_perm (s.perm d.urls).symm h.atMostOneNew).symm
  show d.refreshFrom (s.order d.urls) = d.refreshFrom d.urls
  unfold refreshFrom
  rw [horder]

theorem Renewable.stable (h : c.Renewable d) : c.Stable d.refresh :=
  stable_refreshFrom h.order_eq h.nodup h.atMostOneNew

theorem order_unregister (c : Catalog) (url : String) : (c.unregister url).order = c.order := by
  unfold unregister
  cases c.handle? url <;> rfl

/-- A register that only loses sources. -/
theorem Listed.renewable_of_sublist (hc : c.Listed) (horder : d.order = c.order)
    (hsublist : d.urls.Sublist c.urls) : c.Renewable d where
  order_eq := horder
  nodup := hsublist.nodup hc.nodup
  atMostOneNew := by
    intro a ha b _ hna
    exact absurd (hc.order_perm.mem_iff.2 (hsublist.subset ha)) hna

theorem Listed.renewable_register (hc : c.Listed) {format : SourceFormat} {r : Rendition}
    (hr : r.format.url = format.url) : c.Renewable ((c.renamed format).register r) where
  order_eq := order_unregister c format.url
  nodup := by
    refine nodup_register ((urls_unregister c format.url).nodup hc.nodup) ?_
    exact (handle?_renamed c format _).trans (if_pos hr)
  atMostOneNew := by
    have hurls : ((c.renamed format).register r).urls = (c.unregister format.url).urls ++
        [r.format.url] := by simp [urls, register, renamed, forget]
    -- only the source of the new rendition can be missing from the order
    have hnew : ∀ a ∈ ((c.renamed format).register r).urls, a ∉ c.order → a = r.format.url := by
      intro a ha hnot
      rw [hurls, List.mem_append, List.mem_singleton] at ha
      refine ha.resolve_left fun hold => hnot ?_
      exact hc.order_perm.mem_iff.2 ((urls_unregister c format.url).subset hold)
    intro a ha b hb hna hnb
    rw [hnew a ha hna, hnew b hb hnb]

/-- The renewal at the end of an update. -/
theorem Listed.update_cases (hc : c.Listed) (format : SourceFormat) (now : Instant) :
    ∃ d answer, c.Renewable d ∧ c.update format now = (d.refresh, answer) ∧
      c.updateBy s format now = (d.refreshBy s, answer) := by
  unfold updateBy
  rw [update_eq]
  cases hn : Rendition.new? format c.options now with
  | error e =>
    exact ⟨c.renamed format, _, hc.renewable_of_sublist (order_unregister c format.url)
      (urls_unregister c format.url), rfl, rfl⟩
  | ok r =>
    have hurl : r.format.url = format.url := congrArg _ (Rendition.new?_eq_ok hn).2.1
    exact ⟨_, _, hc.renewable_register hurl, rfl, rfl⟩

theorem Listed.routeBy_eq (hc : c.Listed) (x : Packet) (now : Instant) :
    c.routeBy s x now = c.route x now := by
  unfold routeBy
  split
  · rfl
  · rename_i hnew
    obtain ⟨d, answer, hd, hupdate, hby⟩ := hc.update_cases s (c.announced x) now
    rw [hby, hd.refreshBy_eq, ← hupdate]
    exact (if_neg hnew).symm

theorem Listed.stable_route (hc : c.Listed) (x : Packet) (now : Instant) :
    c.Stable (c.route x now).1 := by
  rcases route_cases c x now with hroute | hroute
  · rw [hroute]
    exact stable_of_order_eq rfl
  · obtain ⟨d, answer, hd, hupdate, -⟩ :=
      hc.update_cases ⟨id, fun _ => .refl _⟩ (c.announced x) now
    rw [hroute, hupdate]
    exact hd.stable

theorem order_writeTo (c : Catalog) (h : Handle) (x : Packet) (now : Instant) :
    (c.writeTo h x now).1.order = c.order ∧ (c.writeTo h x now).1.formats = c.formats := by
  unfold writeTo
  cases c.rendition? h <;> exact ⟨rfl, rfl⟩

theorem Listed.stable_write (hc : c.Listed) (x : Packet) (now : Instant) :
    c.Stable (c.write x now).1 := by
  have hroute := hc.stable_route x now
  unfold Catalog.write
  generalize c.route x now = p at hroute
  rcases p with ⟨c', e | h⟩
  · exact hroute
  · exact hroute.trans_same (order_writeTo c' h x now).1 (order_writeTo c' h x now).2

theorem Listed.remove_cases (hc : c.Listed) (url : String) :
    ((c.remove url).1.order = c.order ∧ c.removeBy s url = (c.remove url).1) ∨
    ∃ d, c.Renewable d ∧ (c.remove url).1 = d.refresh ∧ c.removeBy s url = d.refreshBy s := by
  have hd : c.Renewable ((c.forget url).unregister url) :=
    hc.renewable_of_sublist (order_unregister (c.forget url) url)
      (urls_unregister (c.forget url) url)
  unfold removeBy Catalog.remove
  cases (c.format? url).isSome
  · exact Or.inl ⟨order_unregister (c.forget url) url, rfl⟩
  · exact Or.inr ⟨_, hd, rfl, rfl⟩

theorem close_cases (c : Catalog) : c.close.order = c.order ∧ c.close.formats = c.formats :=
  List.foldlRecOn (motive := fun d : Catalog => d.order = c.order ∧ d.formats = c.formats)
    c.registered _ ⟨rfl, rfl⟩ fun _ hd _ _ => hd

/-- **What comes of an operation does not depend on the register's choice.** -/
theorem Operation.applyBy_eq_apply (hc : c.Listed) (op : Operation) :
    op.applyBy s c = op.apply c := by
  cases op with
  | route x now => exact congrArg Prod.fst (hc.routeBy_eq s x now)
  | write x now =>
    have hwrite : c.writeBy s x now = c.write x now :=
      congrArg (writeRouted x now) (hc.routeBy_eq s x now)
    exact congrArg Prod.fst hwrite
  | remove url =>
    rcases hc.remove_cases s url with ⟨-, hby⟩ | ⟨d, hd, hremove, hby⟩
    · exact hby
    · exact hby.trans ((hd.refreshBy_eq s).trans hremove.symm)
  | setSegmentDuration d => rfl
  | close => rfl

/-- **Operations are stable.** -/
theorem Operation.stable_apply (hc : c.Listed) (op : Operation) : c.Stable (op.apply c) := by
  cases op with
  | route x now => exact hc.stable_route x now
  | write x now => exact hc.stable_write x now
  | remove url =>
    rcases hc.remove_cases ⟨id, fun _ => .refl _⟩ url with ⟨horder, -⟩ | ⟨d, hd, hremove, -⟩
    · exact stable_of_order_eq horder
    · show c.Stable (c.remove url).1
      rw [hremove]
      exact hd.stable
  | setSegmentDuration d => exact stable_of_order_eq rfl
  | close => exact stable_of_order_eq c.close_cases.1

/-! ## Runs -/

theorem Listed.close (hc : c.Listed) : c.close.Listed := by
  refine List.foldlRecOn (motive := Listed) c.registered _ hc fun d hd p _ => ?_
  refine hd.modify p.2 (fun _ _ => rfl) fun url r hr => ?_
  -- a closed rendition has the format that it had
  obtain ⟨h, hu, hr⟩ := Option.bind_eq_some_iff.1 hr
  rw [rendition?_modify] at hr
  have hof : ∀ r₀, d.rendition? h = some r₀ → d.format? url = some r₀.format := fun r₀ hr₀ =>
    hd.agrees url r₀ (Option.bind_eq_some_iff.2 ⟨h, hu, hr₀⟩)
  split at hr
  · obtain ⟨r₀, hr₀, rfl⟩ := Option.map_eq_some_iff.1 hr
    exact hof r₀ hr₀
  · exact hof r hr

theorem Listed.apply (hc : c.Listed) (op : Operation) : (op.apply c).Listed := by
  cases op with
  | route x now => exact hc.route x now
  | write x now => exact hc.write x now
  | remove url => exact hc.remove url
  | setSegmentDuration d => exact hc.step (.setSegmentDuration d)
  | close => exact hc.close

end Choices

/-- Operations one after the other, each with the register's choice at its renewal. -/
def runBy (c : Catalog) (run : List (Operation × Shuffle)) : Catalog :=
  run.foldl (fun c p => p.1.applyBy p.2 c) c

theorem Listed.runBy_eq {c : Catalog} (hc : c.Listed) (run : List (Operation × Shuffle)) :
    (c.runBy run).Listed ∧ c.runBy run = (run.map (·.1)).foldl Operation.apply c := by
  unfold runBy
  induction run generalizing c with
  | nil => exact ⟨hc, rfl⟩
  | cons p rest ih =>
    rw [List.foldl_cons, List.map_cons, List.foldl_cons, p.1.applyBy_eq_apply p.2 hc]
    exact ih (hc.apply p.1)

/-- **The order of the master playlist does not depend on the register's choices.** Two runs of the
same operations, also such that fail, in which the register yields its sources in any orders at any
renewal, have the same order and the same master playlist. At each further operation, whatever the
register chooses, sources that stay listed and have equal resolutions keep their relative order, and
one that is newly listed comes after all others of its resolution. -/
theorem order_independent_of_shuffle (writerId : UInt32) (options : Options)
    (xs ys : List (Operation × Shuffle)) (h : xs.map (·.1) = ys.map (·.1)) :
    let c := (new writerId options).runBy xs
    let d := (new writerId options).runBy ys
    c.order = d.order ∧ c.master = d.master ∧ ∀ op s, c.Stable (Operation.applyBy s c op) := by
  intro c d
  have hnew := listed_new writerId options
  obtain ⟨hc, hxs⟩ := hnew.runBy_eq xs
  have hsame : c = d := hxs.trans (h ▸ (hnew.runBy_eq ys).2.symm)
  refine ⟨congrArg order hsame, congrArg master hsame, fun op s => ?_⟩
  rw [op.applyBy_eq_apply s hc]
  exact op.stable_apply hc

/-! ### A register that turns its sources round -/

def reversal : Shuffle := ⟨List.reverse, List.reverse_perm⟩

/-- The camera shrinks to the size of the door, and the radio comes last. -/
def fourOperations : List Operation :=
  [.write (cameraFrame true) ⟨0, 0⟩, .route doorFrame ⟨0, 0⟩, .write emptySmallerFrame ⟨0, 0⟩,
    .write radioTune ⟨0, 0⟩]

/-- The two runs yield the three sources in different orders and list them in the same one. -/
theorem order_independent_of_reversal :
    let c := (new 7 shortest).runBy (fourOperations.map (·, ⟨id, fun _ => .refl _⟩))
    let d := (new 7 shortest).runBy (fourOperations.map (·, reversal))
    c.urls = ["door", "camera", "radio"] ∧ reversal.order d.urls ≠ c.urls ∧
      c.order = d.order ∧ c.master = d.master ∧
      c.Stable (Operation.applyBy reversal c (.remove "radio")) := by
  intro c d
  obtain ⟨horder, hmaster, hstable⟩ := order_independent_of_shuffle 7 shortest
    (fourOperations.map (·, ⟨id, fun _ => .refl _⟩)) (fourOperations.map (·, reversal)) rfl
  have hurls : d.urls = ["door", "camera", "radio"] := rfl
  refine ⟨rfl, ?_, horder, hmaster, hstable (.remove "radio") reversal⟩
  rw [hurls]
  decide

end Catalog

end LiveHls
