import LiveHls.Catalog
import LiveHls.Proofs.Rendition.Ring

/-!
# Each source of a catalog on its own

* `Source` : what a catalog holds of one source, its format and its rendition; `Source.write` : what
  one packet makes of it;
* `Catalog.Distinct` : different sources have different renditions; every command keeps it;
* `Distinct.write`, `Distinct.remove` : a command changes the source that it names as `Source` says,
  and no other.
-/

namespace LiveHls

/-! ## One source -/

/-- The options of renditions that are made once the segment duration is `d`. -/
def Options.withSegmentDuration (o : Options) (d : Duration) : Options :=
  { o with
    segmentDuration := d
    partDuration := if d < o.partDuration then d else o.partDuration }

/-- The format with the packet's stream in it. -/
def SourceFormat.announce (known : SourceFormat) (x : Packet) : SourceFormat :=
  match x.medium with
  | .video format _ => { known with video := some format }
  | .audio format => { known with audio := some format }

@[simp] theorem SourceFormat.url_announce (known : SourceFormat) (x : Packet) :
    (known.announce x).url = known.url := by
  unfold announce
  cases x.medium <;> rfl

/-- A packet makes a stream known, so it changes a format of which none is known. -/
theorem SourceFormat.announce_unknown_ne (url : String) (x : Packet) :
    (unknown url).announce x ≠ unknown url := by
  unfold announce unknown
  cases x.medium <;> simp

/-- What a catalog holds of one source. -/
structure Source where
  format? : Option SourceFormat
  rendition? : Option Rendition

namespace Source

def absent : Source := ⟨none, none⟩

/-- The format of the source that is named `url`, with the packet's stream in it. -/
def announced (url : String) (s : Source) (x : Packet) : SourceFormat :=
  (s.format?.getD (.unknown url)).announce x

/-- A packet that announces a new format replaces the rendition, if the format can be carried. -/
def route (url : String) (s : Source) (options : Options) (x : Packet) (now : Instant) : Source :=
  if s.format? = some (s.announced url x) then s
  else ⟨some (s.announced url x), (Rendition.new? (s.announced url x) options now).toOption⟩

/-- A packet is written to the rendition that it is routed to, if there is one. -/
def write (url : String) (s : Source) (options : Options) (x : Packet) (now : Instant) : Source :=
  let s := s.route url options x now
  { s with rendition? := s.rendition?.map fun r => (r.write x now).1 }

end Source

/-! ## The sources of a catalog -/

theorem lookup_filter_ne {β : Type} (xs : List (String × β)) (url url' : String) :
    (xs.filter (·.1 != url)).lookup url' = if url' = url then none else xs.lookup url' := by
  induction xs with
  | nil => simp
  | cons x xs ih =>
    obtain ⟨key, b⟩ := x
    by_cases hk : key = url
    · subst hk
      rw [List.filter_cons_of_neg (by simp), ih, List.lookup_cons]
      split
      · rfl
      · rename_i hne
        rw [beq_false_of_ne hne]
    · rw [List.filter_cons_of_pos (by simpa using hk), List.lookup_cons, List.lookup_cons, ih]
      by_cases hu : url' = key
      · subst hu
        simp [hk]
      · rw [beq_false_of_ne hu]

namespace Catalog

/-- What the catalog holds of the source. -/
def source (c : Catalog) (url : String) : Source := ⟨c.format? url, c.renditionOf? url⟩

/-- Every registered source has a rendition, and different sources have different ones. -/
structure Distinct (c : Catalog) : Prop where
  handle_lt : ∀ {url h}, c.handle? url = some h → h < c.renditions.length
  handle_inj : ∀ {url url' h}, c.handle? url = some h → c.handle? url' = some h → url = url'

theorem distinct_new (writerId : UInt32) (options : Options) : (new writerId options).Distinct :=
  ⟨nofun, nofun⟩

theorem source_new (writerId : UInt32) (options : Options) (url : String) :
    (new writerId options).source url = .absent := rfl

/-- Renewing the master playlist leaves every source as it is. -/
theorem Distinct.refresh {c : Catalog} (hc : c.Distinct) : c.refresh.Distinct :=
  ⟨hc.handle_lt, hc.handle_inj⟩

@[simp] theorem source_refresh (c : Catalog) (url : String) : c.refresh.source url = c.source url :=
  rfl

theorem url_of_format? {c : Catalog} {url : String} {format : SourceFormat}
    (h : c.format? url = some format) : format.url = url := by
  simpa using List.find?_some h

theorem announced_eq (c : Catalog) (x : Packet) :
    c.announced x = (c.source x.source).announced x.source x := rfl

@[simp] theorem url_announced (c : Catalog) (x : Packet) : (c.announced x).url = x.source := by
  rw [announced_eq, Source.announced, SourceFormat.url_announce]
  cases h : (c.source x.source).format? with
  | none => rfl
  | some format => exact url_of_format? h

/-! ### Renditions that change -/

section Changes
variable {c : Catalog}

theorem Distinct.modify (hc : c.Distinct) (h : Handle) (f : Rendition → Rendition) :
    (c.modify h f).Distinct where
  handle_lt := by
    intro url h' hu
    rw [Catalog.modify, List.length_modify]
    exact hc.handle_lt hu
  handle_inj := hc.handle_inj

/-- A change of one source's rendition is no change of another's. -/
theorem Distinct.renditionOf?_modify (hc : c.Distinct) {url : String} {h : Handle}
    (hu : c.handle? url = some h) (f : Rendition → Rendition) (url' : String) :
    (c.modify h f).renditionOf? url' =
      if url' = url then (c.renditionOf? url).map f else c.renditionOf? url' := by
  have hmodify : (c.modify h f).renditionOf? url' =
      (c.handle? url').bind fun h' => (c.renditions.modify h f)[h']? := rfl
  have hold : ∀ u, c.renditionOf? u = (c.handle? u).bind fun h' => c.renditions[h']? := fun _ => rfl
  rw [hmodify, hold, hold]
  by_cases he : url' = url
  · rw [if_pos he, he, hu, Option.bind_some, Option.bind_some, List.getElem?_modify]
    simp
  · rw [if_neg he]
    cases hh : c.handle? url' with
    | none => rfl
    | some h' =>
      have hne : h ≠ h' := fun heq => he (hc.handle_inj hh (heq ▸ hu))
      rw [Option.bind_some, Option.bind_some, List.getElem?_modify]
      simp [hne]

theorem format?_forget (c : Catalog) (url url' : String) :
    (c.forget url).format? url' = if url' = url then none else c.format? url' := by
  unfold forget format?
  rw [List.find?_filter]
  split
  · rename_i h
    subst h
    rw [List.find?_eq_none]
    simp
  · rename_i h
    congr 1
    funext format
    cases hf : format.url == url' with
    | false => simp
    | true =>
      rw [beq_iff_eq] at hf
      simpa [hf] using h

theorem handle?_unregister (c : Catalog) (url url' : String) :
    (c.unregister url).handle? url' = if url' = url then none else c.handle? url' := by
  cases h : c.handle? url with
  | none =>
    simp only [unregister, h]
    split
    · rename_i he
      rw [he, h]
    · rfl
  | some i =>
    simp only [unregister, h]
    exact lookup_filter_ne _ _ _

theorem Distinct.unregister (hc : c.Distinct) (url : String) : (c.unregister url).Distinct where
  handle_lt := by
    intro url' i hu
    rw [handle?_unregister] at hu
    split at hu
    · cases hu
    · have hlength : (c.unregister url).renditions.length = c.renditions.length := by
        unfold Catalog.unregister
        cases c.handle? url with
        | none => rfl
        | some h => exact List.length_modify ..
      rw [hlength]
      exact hc.handle_lt hu
  handle_inj := by
    intro url₁ url₂ i h₁ h₂
    rw [handle?_unregister] at h₁ h₂
    split at h₁
    · cases h₁
    · split at h₂
      · cases h₂
      · exact hc.handle_inj h₁ h₂

theorem Distinct.renditionOf?_unregister (hc : c.Distinct) (url url' : String) :
    (c.unregister url).renditionOf? url' = if url' = url then none else c.renditionOf? url' := by
  by_cases he : url' = url
  · have hnone : (c.unregister url).handle? url' = none := by
      rw [handle?_unregister, if_pos he]
    rw [if_pos he, Catalog.renditionOf?, hnone, Option.bind_none]
  · rw [if_neg he]
    cases hu : c.handle? url with
    | none => simp only [Catalog.unregister, hu]
    | some h =>
      -- the register loses only `url`, and the rendition that is closed is its own
      have hmodified := hc.renditionOf?_modify hu Rendition.close url'
      rw [if_neg he] at hmodified
      have hhandle := handle?_unregister c url url'
      rw [if_neg he] at hhandle
      rw [← hmodified]
      unfold Catalog.renditionOf?
      rw [hhandle]
      simp only [Catalog.unregister, hu]
      rfl

theorem handle?_register (c : Catalog) (r : Rendition) (url : String) :
    (c.register r).handle? url =
      (c.handle? url).or (if url = r.format.url then some c.renditions.length else none) := by
  unfold register handle?
  rw [List.lookup_append, List.lookup_cons]
  by_cases h : url = r.format.url
  · rw [if_pos h, beq_iff_eq.2 h]
  · rw [if_neg h, beq_false_of_ne h]
    rfl

/-- A handle is an old one, or it is the next one and belongs to the source of the new rendition. -/
theorem handle?_register_cases {r : Rendition} {url : String} {h : Handle}
    (hu : (c.register r).handle? url = some h) :
    c.handle? url = some h ∨ url = r.format.url ∧ h = c.renditions.length := by
  rw [handle?_register] at hu
  cases hk : c.handle? url with
  | some i =>
    rw [hk, Option.some_or] at hu
    exact Or.inl hu
  | none =>
    rw [hk, Option.none_or] at hu
    split at hu
    · rename_i he
      cases hu
      exact Or.inr ⟨he, rfl⟩
    · cases hu

theorem Distinct.register (hc : c.Distinct) (r : Rendition) : (c.register r).Distinct where
  handle_lt := by
    intro url h hu
    have hlength : (c.register r).renditions.length = c.renditions.length + 1 := by
      simp [Catalog.register]
    rw [hlength]
    rcases handle?_register_cases hu with hold | ⟨-, rfl⟩
    · exact Nat.lt_succ_of_lt (hc.handle_lt hold)
    · exact Nat.lt_succ_self _
  handle_inj := by
    intro url₁ url₂ h h₁ h₂
    rcases handle?_register_cases h₁ with hold₁ | ⟨rfl, hnew₁⟩ <;>
      rcases handle?_register_cases h₂ with hold₂ | ⟨rfl, hnew₂⟩
    · exact hc.handle_inj hold₁ hold₂
    · exact absurd (hc.handle_lt hold₁) (by rw [hnew₂]; exact Nat.lt_irrefl _)
    · exact absurd (hc.handle_lt hold₂) (by rw [hnew₁]; exact Nat.lt_irrefl _)
    · rfl

theorem Distinct.renditionOf?_register (hc : c.Distinct) (r : Rendition)
    (hr : c.handle? r.format.url = none) (url : String) :
    (c.register r).renditionOf? url =
      if url = r.format.url then some r else c.renditionOf? url := by
  have hregister : (c.register r).renditionOf? url =
      ((c.register r).handle? url).bind fun h => (c.renditions ++ [r])[h]? := rfl
  have hold : c.renditionOf? url = (c.handle? url).bind fun h => c.renditions[h]? := rfl
  rw [hregister, hold, handle?_register]
  split
  · rename_i he
    rw [he, hr, Option.none_or, Option.bind_some, List.getElem?_concat_length]
  · rw [Option.or_none]
    cases hh : c.handle? url with
    | none => rfl
    | some h =>
      rw [Option.bind_some, Option.bind_some, List.getElem?_append_left (hc.handle_lt hh)]

/-! ### Commands -/

/-- The catalog that has forgotten the source and knows its new format. -/
def renamed (c : Catalog) (format : SourceFormat) : Catalog :=
  let c := (c.unregister format.url).forget format.url
  { c with formats := c.formats ++ [format] }

theorem Distinct.renamed (hc : c.Distinct) (format : SourceFormat) : (c.renamed format).Distinct :=
  ⟨(hc.unregister format.url).handle_lt, (hc.unregister format.url).handle_inj⟩

theorem handle?_renamed (c : Catalog) (format : SourceFormat) (url : String) :
    (c.renamed format).handle? url = if url = format.url then none else c.handle? url :=
  handle?_unregister c format.url url

theorem options_unregister (c : Catalog) (url : String) :
    (c.unregister url).options = c.options := by
  unfold unregister
  cases c.handle? url <;> rfl

theorem format?_unregister (c : Catalog) (url url' : String) :
    (c.unregister url).format? url' = c.format? url' := by
  unfold unregister
  cases c.handle? url <;> rfl

theorem Distinct.source_renamed (hc : c.Distinct) (format : SourceFormat) (url : String) :
    (c.renamed format).source url =
      if url = format.url then ⟨some format, none⟩ else c.source url := by
  have hformat : (c.renamed format).format? url =
      (((c.unregister format.url).forget format.url).format? url).or
        ([format].find? (·.url == url)) := List.find?_append
  have hrendition : (c.renamed format).renditionOf? url =
      (c.unregister format.url).renditionOf? url := rfl
  unfold source
  rw [hformat, hrendition, format?_forget, format?_unregister, hc.renditionOf?_unregister]
  split
  · rename_i he
    simp [he]
  · rename_i he
    rw [List.find?_cons_of_neg (by simpa using Ne.symm he), List.find?_nil, Option.or_none]

theorem options_renamed (c : Catalog) (format : SourceFormat) :
    (c.renamed format).options = c.options :=
  options_unregister c format.url

theorem update_eq (c : Catalog) (format : SourceFormat) (now : Instant) :
    c.update format now =
      match Rendition.new? format c.options now with
      | .ok r => (((c.renamed format).register r).refresh, .ok (c.renamed format).renditions.length)
      | .error e => ((c.renamed format).refresh, .error e) := by
  rw [← options_renamed c format]
  rfl

theorem Distinct.source_register (hc : c.Distinct) (r : Rendition)
    (hr : c.handle? r.format.url = none) (url : String) :
    (c.register r).source url =
      if url = r.format.url then { c.source url with rendition? := some r } else c.source url := by
  have hformat : (c.register r).format? url = c.format? url := rfl
  unfold source
  rw [hformat, hc.renditionOf?_register r hr]
  split <;> rfl

/-- **All that an update does.** The source has the new format, and a rendition if one can be made;
the answer is its handle. -/
theorem Distinct.update (hc : c.Distinct) (format : SourceFormat) (now : Instant) :
    (c.update format now).1.Distinct ∧ (c.update format now).1.options = c.options ∧
    (∀ url, (c.update format now).1.source url =
      if url = format.url then ⟨some format, (Rendition.new? format c.options now).toOption⟩
      else c.source url) ∧
    match (c.update format now).2 with
    | .ok h => (c.update format now).1.handle? format.url = some h
    | .error e => Rendition.new? format c.options now = .error e := by
  have hd := hc.renamed format
  have ho := options_renamed c format
  rw [update_eq]
  cases hn : Rendition.new? format c.options now with
  | error e => exact ⟨hd.refresh, ho, hc.source_renamed format, rfl⟩
  | ok r =>
    have hurl : r.format.url = format.url := congrArg _ (Rendition.new?_eq_ok hn).2.1
    have hnone : (c.renamed format).handle? r.format.url = none := by
      rw [handle?_renamed, hurl, if_pos rfl]
    refine ⟨(hd.register r).refresh, ho, fun url => ?_, ?_⟩
    · simp only [source_refresh]
      rw [hd.source_register r hnone, hc.source_renamed, hurl]
      split <;> rfl
    · show ((c.renamed format).register r).handle? format.url = _
      rw [handle?_register, handle?_renamed, if_pos rfl, hurl, if_pos rfl, Option.none_or]

theorem Distinct.writeTo (hc : c.Distinct) {url : String} {h : Handle}
    (hu : c.handle? url = some h) (x : Packet) (now : Instant) :
    (c.writeTo h x now).1.Distinct ∧ (c.writeTo h x now).1.options = c.options ∧
    ∀ url', (c.writeTo h x now).1.source url' =
      if url' = url then
        { c.source url with rendition? := (c.renditionOf? url).map fun r => (r.write x now).1 }
      else c.source url' := by
  obtain ⟨r, hr⟩ : ∃ r, c.rendition? h = some r := ⟨_, List.getElem?_eq_getElem (hc.handle_lt hu)⟩
  have hof : c.renditionOf? url = c.rendition? h := by
    rw [renditionOf?, hu, Option.bind_some]
  have hw : (c.writeTo h x now).1 = c.modify h fun _ => (r.write x now).1 := by
    unfold Catalog.writeTo
    rw [hr]
  rw [hw]
  refine ⟨hc.modify _ _, rfl, fun url' => ?_⟩
  have hformat : ∀ f, (c.modify h f).format? url' = c.format? url' := fun _ => rfl
  unfold source
  rw [hformat, hc.renditionOf?_modify hu, hof, hr]
  split
  · rename_i he
    rw [he]
    rfl
  · rfl

/-- **All that routing does.** The packet's source changes as `Source.route` says and no other does;
the answer is the handle of its rendition, or it has none. -/
theorem Distinct.route (hc : c.Distinct) (x : Packet) (now : Instant) :
    (c.route x now).1.Distinct ∧ (c.route x now).1.options = c.options ∧
    (∀ url, (c.route x now).1.source url =
      if url = x.source then (c.source url).route url c.options x now else c.source url) ∧
    match (c.route x now).2 with
    | .ok h => (c.route x now).1.handle? x.source = some h
    | .error _ => (c.route x now).1.renditionOf? x.source = none := by
  have hformat : (c.source x.source).format? = c.format? x.source := rfl
  by_cases hk : c.format? x.source = some (c.announced x)
  · have hsource : (c.source x.source).route x.source c.options x now = c.source x.source := by
      rw [Source.route, ← announced_eq, hformat, if_pos hk]
    have hroute : (c.route x now).1 = c ∧ match (c.route x now).2 with
        | .ok h => c.handle? x.source = some h
        | .error _ => c.renditionOf? x.source = none := by
      unfold Catalog.route
      simp only [if_pos hk]
      cases hh : c.handle? x.source with
      | none => exact ⟨rfl, by rw [renditionOf?, hh, Option.bind_none]⟩
      | some h => exact ⟨rfl, rfl⟩
    rw [hroute.1]
    refine ⟨hc, rfl, fun url => ?_, hroute.2⟩
    split
    · rename_i he
      rw [he, hsource]
    · rfl
  · have hsource : (c.source x.source).route x.source c.options x now =
        ⟨some (c.announced x), (Rendition.new? (c.announced x) c.options now).toOption⟩ := by
      rw [Source.route, ← announced_eq, hformat, if_neg hk]
    have hroute : c.route x now = c.update (c.announced x) now := if_neg hk
    obtain ⟨hd, ho, hs, hanswer⟩ := hc.update (c.announced x) now
    rw [url_announced] at hs hanswer
    rw [hroute]
    refine ⟨hd, ho, fun url => ?_, ?_⟩
    · rw [hs url]
      split
      · rename_i he
        rw [he, hsource]
      · rfl
    · cases hp : (c.update (c.announced x) now).2 with
      | ok h =>
        rw [hp] at hanswer
        exact hanswer
      | error e =>
        rw [hp] at hanswer
        have hnone := congrArg Source.rendition? (hs x.source)
        rw [if_pos rfl, show Rendition.new? (c.announced x) c.options now = .error e from
          hanswer] at hnone
        exact hnone

/-- **What a packet does**: its source changes as `Source.write` says, and no other source does. -/
theorem Distinct.write (hc : c.Distinct) (x : Packet) (now : Instant) :
    (c.write x now).1.Distinct ∧ (c.write x now).1.options = c.options ∧
    ∀ url, (c.write x now).1.source url =
      if url = x.source then (c.source url).write url c.options x now else c.source url := by
  obtain ⟨hd, ho, hs, hanswer⟩ := hc.route x now
  rcases hp : c.route x now with ⟨c', answer⟩
  rw [hp] at hd ho hs hanswer
  have hwritten : (c.source x.source).write x.source c.options x now =
      { c'.source x.source with
        rendition? := (c'.renditionOf? x.source).map fun r => (r.write x now).1 } := by
    have hrouted := hs x.source
    rw [if_pos rfl] at hrouted
    rw [Source.write, ← hrouted]
    rfl
  cases answer with
  | error e =>
    have hnone : c'.renditionOf? x.source = none := hanswer
    rw [show c.write x now = (c', .error (.error e)) by rw [Catalog.write, hp]]
    refine ⟨hd, ho, fun url => ?_⟩
    by_cases he : url = x.source
    · rw [if_pos he, he, hwritten, hnone]
      show Source.mk _ _ = _
      rw [hnone]
      rfl
    · exact (hs url).trans (by rw [if_neg he, if_neg he])
  | ok h =>
    obtain ⟨hd', ho', hs'⟩ := Distinct.writeTo hd hanswer x now
    rw [show c.write x now = c'.writeTo h x now by rw [Catalog.write, hp]]
    refine ⟨hd', ho'.trans ho, fun url => ?_⟩
    rw [hs' url]
    by_cases he : url = x.source
    · rw [if_pos he, if_pos he, he, hwritten]
    · rw [if_neg he, if_neg he]
      exact (hs url).trans (if_neg he)

theorem Distinct.remove (hc : c.Distinct) (url : String) :
    (c.remove url).1.Distinct ∧ (c.remove url).1.options = c.options ∧
    ∀ url', (c.remove url).1.source url' = if url' = url then .absent else c.source url' := by
  have hf : (c.forget url).Distinct := ⟨hc.handle_lt, hc.handle_inj⟩
  have hsource : ∀ url', ((c.forget url).unregister url).source url' =
      if url' = url then .absent else c.source url' := by
    intro url'
    have hrendition : (c.forget url).renditionOf? url' = c.renditionOf? url' := rfl
    unfold source
    rw [format?_unregister, format?_forget, hf.renditionOf?_unregister, hrendition]
    split <;> rfl
  unfold Catalog.remove
  cases (c.format? url).isSome
  · exact ⟨hf.unregister url, options_unregister .., hsource⟩
  · exact ⟨(hf.unregister url).refresh, options_unregister .., hsource⟩

end Changes
end Catalog
end LiveHls
