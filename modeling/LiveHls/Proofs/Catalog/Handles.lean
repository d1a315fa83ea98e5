import LiveHls.Proofs.Catalog.Refusal
import LiveHls.Proofs.Rendition.Listing

/-!
# A rendition is open exactly while its source has it

A catalog never drops a rendition from its list: one that is replaced or removed is closed and stays
readable under its handle.

* `Reader.poll_of_closed`, `Reader.poll_ne_closed` : a closed rendition ends every reader, and an
  open one never tells a reader that it is closed;
* `Catalog.Keeps` : handles go on leading to the renditions that they led to (`keeps_step`,
  `keeps_close`);
* `Catalog.Tended` : a rendition is open exactly if some source has its handle; every command keeps
  it (`Tended.step`), and after the end nothing is open (`Tended.closed_of_close`);
* `tracked_of_reachable` : what that says of sources, handles and waiting readers.
-/

namespace LiveHls

open Rendition (camera cameraVideo cameraFrame shortest)

/-! ## Readers and the end of their rendition -/

namespace Rendition

theorem closed_write (r : Rendition) (x : Packet) (now : Instant) :
    (r.write x now).1.closed = r.closed := by
  unfold write
  cases r.refusal? x with
  | some e => rfl
  | none =>
    rcases r.current.write (fold x) with ⟨s, progress⟩
    cases progress <;> rfl

/-- No answer says that the rendition is closed; only a wait ends so. -/
theorem lookup_ne_closed (r : Rendition) (read : Read) :
    r.lookup read ≠ .found (.error (.error .closed)) := by
  have hmedia : ∀ packets sequence, r.media packets sequence ≠ .error (.error .closed) := by
    intro packets sequence
    rcases r.media_cases packets sequence with h | ⟨bytes, h⟩ <;> rw [h] <;> nofun
  cases read with
  | playlist segment part =>
    rcases r.lookup_playlist_cases segment part with h | ⟨what, h⟩ <;> rw [h] <;> nofun
  | segment id =>
    have h := r.lookup_segment id
    generalize r.lookup (.segment id) = l at h
    cases h with
    | dropped => nofun
    | awaited => nofun
    | served => exact fun he => hmedia _ _ (Lookup.found.inj he)
  | part s f =>
    have h := r.lookup_part s f
    generalize r.lookup (.part s f) = l at h
    cases h with
    | dropped => nofun
    | absent => nofun
    | awaited => nofun
    | served => exact fun he => hmedia _ _ (Lookup.found.inj he)

end Rendition

namespace Reader

section Ends
variable {r : Rendition} (w : Reader) (now : Clock)

theorem wait_of_closed (hc : r.closed = true) : ∃ result, w.wait r now = .done result := by
  unfold wait
  rw [hc]
  split <;> exact ⟨_, rfl⟩

theorem wait_ne_closed (hopen : r.closed = false) :
    w.wait r now ≠ .done (.error (.error .closed)) := by
  unfold wait
  rw [hopen, if_neg Bool.false_ne_true]
  repeat' split
  all_goals nofun

/-- **Every reader of a closed rendition ends** when it is polled. -/
theorem poll_of_closed (hc : r.closed = true) : ∃ result, w.poll r now = .done result := by
  unfold poll
  split
  · cases r.lookup w.read with
    | found result => exact ⟨result, rfl⟩
    | awaits what => exact wait_of_closed _ now hc
  · exact w.wait_of_closed now hc

/-- **No reader of an open rendition** is told that it is closed. -/
theorem poll_ne_closed (hopen : r.closed = false) :
    w.poll r now ≠ .done (.error (.error .closed)) := by
  unfold poll
  split
  · cases h : r.lookup w.read with
    | found result => exact fun he => r.lookup_ne_closed w.read (h.trans (congrArg _ (Polled.done.inj he)))
    | awaits what => exact wait_ne_closed _ now hopen
  · exact w.wait_ne_closed now hopen

theorem start_ne_closed (hopen : r.closed = false) (name : String) (read : Read)
    (deadline : Deadline) (cancelled : Bool) :
    start r now name read deadline cancelled ≠ .done (.error (.error .closed)) := by
  unfold start
  cases h : r.lookup read with
  | found result => exact fun he => r.lookup_ne_closed read (h.trans (congrArg _ (Polled.done.inj he)))
  | awaits what => exact wait_ne_closed _ now hopen

end Ends

end Reader

namespace Catalog

section Handles
variable {c c' : Catalog} {h : Handle} {r : Rendition}

/-! ## What a handle leads to -/

theorem rendition?_modify (c : Catalog) (h : Handle) (f : Rendition → Rendition) (h' : Handle) :
    (c.modify h f).rendition? h' =
      if h = h' then (c.rendition? h').map f else c.rendition? h' := by
  show (c.renditions.modify h f)[h']? = _
  rw [List.getElem?_modify]
  unfold rendition?
  split
  · rfl
  · exact Option.map_id'

/-- Every handle goes on leading to the rendition that it led to, and that one stays closed once it
is closed. -/
def Keeps (c c' : Catalog) : Prop :=
  ∀ h r, c.rendition? h = some r →
    ∃ r', c'.rendition? h = some r' ∧ r'.format = r.format ∧ (r.closed = true → r'.closed = true)

theorem Keeps.refl (c : Catalog) : c.Keeps c := fun _ r hr => ⟨r, hr, rfl, id⟩

theorem Keeps.trans {c'' : Catalog} (h₁ : c.Keeps c') (h₂ : c'.Keeps c'') : c.Keeps c'' := by
  intro h r hr
  obtain ⟨r₁, hr₁, hf₁, hc₁⟩ := h₁ h r hr
  obtain ⟨r₂, hr₂, hf₂, hc₂⟩ := h₂ h r₁ hr₁
  exact ⟨r₂, hr₂, hf₂.trans hf₁, hc₂ ∘ hc₁⟩

theorem keeps_modify (c : Catalog) (h : Handle) {f : Rendition → Rendition}
    (hf : ∀ r, c.rendition? h = some r →
      (f r).format = r.format ∧ (r.closed = true → (f r).closed = true)) :
    c.Keeps (c.modify h f) := by
  intro h' r hr
  rw [rendition?_modify]
  split
  · rename_i he
    subst he
    exact ⟨f r, by rw [hr]; rfl, hf r hr⟩
  · exact ⟨r, hr, rfl, id⟩

theorem keeps_unregister (c : Catalog) (url : String) : c.Keeps (c.unregister url) := by
  unfold unregister
  cases c.handle? url with
  | none => exact .refl c
  | some h => exact c.keeps_modify h fun _ _ => ⟨rfl, fun _ => rfl⟩

theorem keeps_register (c : Catalog) (r : Rendition) : c.Keeps (c.register r) := by
  intro h r' hr
  exact ⟨r', (rendition?_register r (List.getElem?_eq_some_iff.1 hr).1).trans hr, rfl, id⟩

theorem keeps_update (c : Catalog) (format : SourceFormat) (now : Instant) :
    c.Keeps (c.update format now).1 := by
  have hrenamed : c.Keeps (c.renamed format) := c.keeps_unregister format.url
  rw [update_eq]
  cases Rendition.new? format c.options now with
  | error e => exact hrenamed
  | ok r => exact hrenamed.trans (keeps_register _ r)

theorem keeps_route (c : Catalog) (x : Packet) (now : Instant) : c.Keeps (c.route x now).1 := by
  rcases route_cases c x now with hroute | hroute
  · rw [hroute]
    exact .refl c
  · rw [hroute]
    exact c.keeps_update _ now

theorem keeps_writeTo (c : Catalog) (h : Handle) (x : Packet) (now : Instant) :
    c.Keeps (c.writeTo h x now).1 := by
  unfold writeTo
  cases hr : c.rendition? h with
  | none => exact .refl c
  | some r =>
    refine c.keeps_modify h fun r₁ hr₁ => ?_
    obtain rfl : r = r₁ := Option.some.inj (hr.symm.trans hr₁)
    exact ⟨r.format_write x now, fun hc => (r.closed_write x now).trans hc⟩

/-- A packet is routed, and then written if it was routed to a rendition. -/
theorem write_cases (c : Catalog) (x : Packet) (now : Instant) :
    (∃ e, (c.route x now).2 = .error e ∧
      c.write x now = ((c.route x now).1, .error (.error e))) ∨
    ∃ h, (c.route x now).2 = .ok h ∧ c.write x now = (c.route x now).1.writeTo h x now := by
  unfold Catalog.write
  rcases c.route x now with ⟨c₁, e | h⟩
  · exact Or.inl ⟨e, rfl, rfl⟩
  · exact Or.inr ⟨h, rfl, rfl⟩

theorem keeps_write (c : Catalog) (x : Packet) (now : Instant) : c.Keeps (c.write x now).1 := by
  rcases c.write_cases x now with ⟨e, -, hwrite⟩ | ⟨h, -, hwrite⟩ <;> rw [hwrite]
  · exact c.keeps_route x now
  · exact (c.keeps_route x now).trans (keeps_writeTo _ h x now)

theorem keeps_step (hstep : c.Step c') : c.Keeps c' := by
  cases hstep with
  | route x now => exact c.keeps_route x now
  | write x now => exact c.keeps_write x now
  | remove url =>
    have hunregister := (c.forget url).keeps_unregister url
    unfold Catalog.remove
    cases (c.format? url).isSome <;> exact hunregister
  | setSegmentDuration d => exact .refl c

theorem keeps_of_steps (hsteps : Relation.ReflTransGen Step c c') : c.Keeps c' := by
  induction hsteps with
  | refl => exact .refl c
  | tail _ hstep ih => exact ih.trans (keeps_step hstep)

/-! ## The end of a catalog -/

theorem rendition?_foldl_close (entries : List (String × Handle)) (c : Catalog) (h : Handle) :
    (entries.foldl (fun c p => c.modify p.2 Rendition.close) c).rendition? h =
      (c.rendition? h).map fun r => if h ∈ entries.map (·.2) then r.close else r := by
  induction entries generalizing c with
  | nil => simp
  | cons p rest ih =>
    rw [List.foldl_cons, ih, rendition?_modify]
    cases c.rendition? h with
    | none => simp
    | some r =>
      by_cases hp : p.2 = h
      · simp [hp, Rendition.close]
      · simp only [if_neg hp, List.map_cons, List.mem_cons, Ne.symm hp, false_or]

/-- The end closes every rendition that some source has, and changes no other. -/
theorem rendition?_close (c : Catalog) (h : Handle) :
    c.close.rendition? h =
      (c.rendition? h).map fun r => if h ∈ c.registered.map (·.2) then r.close else r :=
  rendition?_foldl_close c.registered c h

theorem keeps_close (c : Catalog) : c.Keeps c.close := by
  intro h r hr
  rw [rendition?_close, hr]
  refine ⟨_, rfl, ?_, fun hc => ?_⟩
  · split <;> rfl
  · split
    · rfl
    · exact hc

/-! ## The register -/

/-- Some source has the rendition. -/
def Held (c : Catalog) (h : Handle) : Prop := ∃ url, c.handle? url = some h

/-- A catalog in which exactly the renditions that some source has are open. -/
structure Tended (c : Catalog) : Prop where
  distinct : c.Distinct
  open_iff : ∀ {h r}, c.rendition? h = some r → (r.closed = false ↔ c.Held h)

theorem tended_new (writerId : UInt32) (options : Options) : (new writerId options).Tended :=
  ⟨distinct_new writerId options, nofun⟩

theorem Tended.refresh (hc : c.Tended) : c.refresh.Tended := ⟨hc.distinct.refresh, hc.open_iff⟩

theorem Tended.unregister (hc : c.Tended) (url : String) : (c.unregister url).Tended := by
  refine ⟨hc.distinct.unregister url, fun {h r} hr => ?_⟩
  have hhandle := handle?_unregister c url
  unfold Held
  simp only [hhandle]
  cases hu : c.handle? url with
  | none =>
    have hsame : c.unregister url = c := by unfold Catalog.unregister; rw [hu]
    rw [hsame] at hr
    rw [hc.open_iff hr]
    refine exists_congr fun url' => ?_
    split
    · rename_i he
      rw [he, hu]
    · rfl
  | some h₀ =>
    have hmodify : (c.unregister url).rendition? h = (c.modify h₀ Rendition.close).rendition? h := by
      simp only [Catalog.unregister, hu]
      rfl
    rw [hmodify, rendition?_modify] at hr
    split at hr
    · -- the rendition was closed, and the only source that had it is off the register
      rename_i he
      subst he
      obtain ⟨r₀, -, rfl⟩ := Option.map_eq_some_iff.1 hr
      refine iff_of_false Bool.noConfusion ?_
      rintro ⟨url', hurl'⟩
      split at hurl'
      · cases hurl'
      · rename_i hne
        exact hne (hc.distinct.handle_inj hurl' hu)
    · rename_i hne
      rw [hc.open_iff hr]
      refine exists_congr fun url' => ?_
      split
      · rename_i he
        subst he
        rw [hu]
        exact iff_of_false (fun hh => hne (Option.some.inj hh)) (Option.some_ne_none h).symm
      · rfl

theorem Tended.register (hc : c.Tended) (hopen : r.closed = false)
    (hnone : c.handle? r.format.url = none) : (c.register r).Tended := by
  refine ⟨hc.distinct.register r, fun {h r'} hr => ?_⟩
  have hlength : h < c.renditions.length ∨ h = c.renditions.length := by
    have hlt : h < (c.renditions ++ [r]).length := (List.getElem?_eq_some_iff.1 hr).1
    rw [List.length_append, List.length_singleton] at hlt
    exact Nat.lt_or_eq_of_le (Nat.le_of_lt_succ hlt)
  rcases hlength with hlt | rfl
  · rw [rendition?_register r hlt] at hr
    rw [hc.open_iff hr]
    constructor
    · rintro ⟨url, hurl⟩
      exact ⟨url, by rw [handle?_register, hurl, Option.some_or]⟩
    · rintro ⟨url, hurl⟩
      rcases handle?_register_cases hurl with hold | ⟨-, he⟩
      · exact ⟨url, hold⟩
      · exact absurd he (Nat.ne_of_lt hlt)
  · obtain rfl : r = r' := Option.some.inj (List.getElem?_concat_length.symm.trans hr)
    refine iff_of_true hopen ⟨r.format.url, ?_⟩
    rw [handle?_register, hnone, Option.none_or, if_pos rfl]

theorem Tended.modify (hc : c.Tended) (h : Handle) {f : Rendition → Rendition}
    (hf : ∀ r, c.rendition? h = some r → (f r).closed = r.closed) : (c.modify h f).Tended := by
  refine ⟨hc.distinct.modify h f, fun {h' r'} hr => ?_⟩
  rw [rendition?_modify] at hr
  split at hr
  · rename_i he
    subst he
    obtain ⟨r₀, hr₀, rfl⟩ := Option.map_eq_some_iff.1 hr
    rw [hf r₀ hr₀]
    exact hc.open_iff hr₀
  · exact hc.open_iff hr

/-! ### Commands -/

theorem Tended.update (hc : c.Tended) (format : SourceFormat) (now : Instant) :
    (c.update format now).1.Tended := by
  have hrenamed : (c.renamed format).Tended :=
    ⟨hc.distinct.renamed format, (hc.unregister format.url).open_iff⟩
  rw [update_eq]
  cases hn : Rendition.new? format c.options now with
  | error e => exact hrenamed.refresh
  | ok r =>
    obtain ⟨-, hformat, -, -, -, -, -, hopen⟩ := Rendition.new?_eq_ok hn
    refine (hrenamed.register hopen ?_).refresh
    rw [handle?_renamed, hformat, if_pos rfl]

theorem Tended.route (hc : c.Tended) (x : Packet) (now : Instant) : (c.route x now).1.Tended := by
  rcases route_cases c x now with hroute | hroute
  · rw [hroute]
    exact hc
  · rw [hroute]
    exact hc.update _ now

theorem Tended.writeTo (hc : c.Tended) (h : Handle) (x : Packet) (now : Instant) :
    (c.writeTo h x now).1.Tended := by
  unfold Catalog.writeTo
  cases hr : c.rendition? h with
  | none => exact hc
  | some r =>
    refine hc.modify h fun r₁ hr₁ => ?_
    obtain rfl : r = r₁ := Option.some.inj (hr.symm.trans hr₁)
    exact r.closed_write x now

theorem Tended.write (hc : c.Tended) (x : Packet) (now : Instant) : (c.write x now).1.Tended := by
  rcases c.write_cases x now with ⟨e, -, hwrite⟩ | ⟨h, -, hwrite⟩ <;> rw [hwrite]
  · exact hc.route x now
  · exact (hc.route x now).writeTo h x now

theorem Tended.remove (hc : c.Tended) (url : String) : (c.remove url).1.Tended := by
  have hforget : (c.forget url).Tended :=
    ⟨⟨hc.distinct.handle_lt, hc.distinct.handle_inj⟩, hc.open_iff⟩
  unfold Catalog.remove
  cases (c.format? url).isSome
  · exact hforget.unregister url
  · exact (hforget.unregister url).refresh

/-- **Every command closes what it takes off the register, and nothing else.** -/
theorem Tended.step (hc : c.Tended) (hstep : c.Step c') : c'.Tended := by
  cases hstep with
  | route x now => exact hc.route x now
  | write x now => exact hc.write x now
  | remove url => exact hc.remove url
  | setSegmentDuration d =>
    exact ⟨⟨hc.distinct.handle_lt, hc.distinct.handle_inj⟩, hc.open_iff⟩

theorem Reachable.tended {writerId : UInt32} {options : Options} (h : Reachable writerId options c) :
    c.Tended := by
  induction h with
  | refl => exact tended_new writerId options
  | tail _ hstep ih => exact ih.step hstep

theorem mem_handles_of_held (hheld : c.Held h) : h ∈ c.registered.map (·.2) := by
  obtain ⟨url, hurl⟩ := hheld
  obtain ⟨before, after, hentry, -⟩ := List.lookup_eq_some_iff.1 hurl
  rw [hentry]
  simp

/-- **After the end of a catalog no rendition is open**: those that some source has are closed then,
the others have been. -/
theorem Tended.closed_of_close (hc : c.Tended) (hr : c.close.rendition? h = some r) :
    r.closed = true := by
  rw [rendition?_close] at hr
  obtain ⟨r₀, hr₀, rfl⟩ := Option.map_eq_some_iff.1 hr
  split
  · rfl
  · rename_i hnot
    refine Bool.of_not_eq_false fun hopen => hnot (mem_handles_of_held ((hc.open_iff hr₀).1 hopen))

/-- A registered handle leads to an open rendition of its source. -/
theorem Listed.rendition?_of_handle? (hc : c.Listed) {url : String} (hu : c.handle? url = some h) :
    ∃ r, c.rendition? h = some r ∧ r.format.url = url := by
  refine ⟨_, List.getElem?_eq_getElem (hc.distinct.handle_lt hu), ?_⟩
  refine url_of_format? (c := c) (hc.agrees url _ ?_)
  show (c.handle? url).bind c.rendition? = _
  rw [hu]
  exact List.getElem?_eq_getElem (hc.distinct.handle_lt hu)

/-- The rendition that some source has is that of its own source. -/
theorem Listed.held_iff (hc : c.Listed) (hr : c.rendition? h = some r) :
    c.Held h ↔ c.handle? r.format.url = some h := by
  constructor
  · rintro ⟨url, hurl⟩
    obtain ⟨r₁, hr₁, rfl⟩ := hc.rendition?_of_handle? hurl
    obtain rfl : r = r₁ := Option.some.inj (hr.symm.trans hr₁)
    exact hurl
  · exact fun hurl => ⟨_, hurl⟩

end Handles

/-! ## Open while registered -/

/-- A catalog all of whose renditions, also those that are no longer listed, are open exactly while
their source has them, and whose readers end accordingly. -/
structure Tracked (c : Catalog) : Prop where
  /-- A rendition is closed exactly if its source has another one or none. -/
  closed_iff : ∀ h r, c.rendition? h = some r →
    (r.closed = true ↔ c.handle? r.format.url ≠ some h)
  rendition?_of_handle? : ∀ url h, c.handle? url = some h →
    ∃ r, c.rendition? h = some r ∧ r.format.url = url
  /-- No rendition that was ever made is lost by later commands, or by the end. -/
  keeps : ∀ c', Relation.ReflTransGen Step c c' → c.Keeps c' ∧ c.Keeps c'.close
  /-- Whoever waits on a rendition that its source no longer has ends when polled. -/
  poll_of_replaced : ∀ h r, c.rendition? h = some r → c.handle? r.format.url ≠ some h →
    ∀ (w : Reader) now, ∃ result, w.poll r now = .done result
  /-- Whoever reads a rendition that its source has is never told that it is closed. -/
  ne_closed_of_registered : ∀ h r, c.rendition? h = some r → c.handle? r.format.url = some h →
    (∀ (w : Reader) now, w.poll r now ≠ .done (.error (.error .closed))) ∧
    ∀ now name read deadline cancelled,
      Reader.start r now name read deadline cancelled ≠ .done (.error (.error .closed))
  /-- After the end every rendition is closed, and whoever waits on one ends when polled. -/
  closed_of_close : ∀ h r, c.close.rendition? h = some r →
    r.closed = true ∧ ∀ (w : Reader) now, ∃ result, w.poll r now = .done result

/-- **A rendition is open exactly while its source has it.** After any commands, also such that fail
or break down, every rendition that was ever made is closed exactly if it is no longer the one that
its source has, be it replaced, given up because no new one could be made, or removed; at the end of
the catalog all are closed. So whoever waits on a rendition that was replaced ends, and on one that
is registered nobody is told that it is closed. -/
theorem tracked_of_reachable {writerId : UInt32} {options : Options} {c : Catalog}
    (hreach : Reachable writerId options c) : c.Tracked := by
  have hc := hreach.tended
  have hl := hreach.listed
  have hopen : ∀ {h r}, c.rendition? h = some r →
      (r.closed = false ↔ c.handle? r.format.url = some h) := fun hr =>
    (hc.open_iff hr).trans (hl.held_iff hr)
  have hclosed : ∀ h r, c.rendition? h = some r →
      (r.closed = true ↔ c.handle? r.format.url ≠ some h) := fun h r hr => by
    rw [Ne, ← hopen hr, Bool.not_eq_false]
  exact {
    closed_iff := hclosed
    rendition?_of_handle? := fun url h hu => hl.rendition?_of_handle? hu
    keeps := fun c' hsteps =>
      ⟨keeps_of_steps hsteps, (keeps_of_steps hsteps).trans c'.keeps_close⟩
    poll_of_replaced := fun h r hr hne w now => w.poll_of_closed now ((hclosed h r hr).2 hne)
    ne_closed_of_registered := fun h r hr hu =>
      ⟨fun w now => w.poll_ne_closed now ((hopen hr).2 hu),
        fun now name read deadline cancelled =>
          Reader.start_ne_closed now ((hopen hr).2 hu) name read deadline cancelled⟩
    closed_of_close := fun h r hr =>
      ⟨hc.closed_of_close hr, fun w now => w.poll_of_closed now (hc.closed_of_close hr)⟩ }

/-! ### A replaced, a removed and a failing source -/

/-- A frame of the radio that can be carried. -/
def radioTune : Packet :=
  ⟨.zero, .ofMillis 40, [0], "radio", 0, .audio ⟨.aac, 48000, 2, 0, []⟩⟩

/-- The camera's picture changes, the door is removed, and the radio is given up when its codec
changes to one that cannot be carried. Then the door comes back. -/
def fiveHandles : Catalog :=
  let c := ((new 0 shortest).write (cameraFrame true) ⟨0, 0⟩).1
  let c := (c.route doorFrame ⟨0, 0⟩).1
  let c := (c.write radioTune ⟨0, 0⟩).1
  let c := (c.write emptySmallerFrame ⟨0, 0⟩).1
  let c := (c.remove "door").1
  let c := (c.write radioFrame ⟨0, 0⟩).1
  (c.route doorFrame ⟨0, 0⟩).1

/-- Of the five renditions two are open: the camera's second and the door's second. A reader that
waits on the camera's first ends. -/
theorem tracked_fiveHandles : Reachable 0 shortest fiveHandles ∧ fiveHandles.Tracked ∧
    fiveHandles.renditions.map (·.closed) = [true, true, true, false, false] ∧
    fiveHandles.handle? "camera" = some 3 ∧ fiveHandles.handle? "door" = some 4 ∧
    fiveHandles.handle? "radio" = none ∧
    ∃ r, fiveHandles.rendition? 0 = some r ∧ fiveHandles.handle? r.format.url ≠ some 0 ∧
      ∃ result, Reader.poll ⟨"first", .segment 0, .segment 0, .never, false⟩ r 0 = .done result := by
  have h : Reachable 0 shortest fiveHandles :=
    ((((((Relation.ReflTransGen.refl.tail (.write (cameraFrame true) ⟨0, 0⟩)).tail
      (.route doorFrame ⟨0, 0⟩)).tail (.write radioTune ⟨0, 0⟩)).tail
      (.write emptySmallerFrame ⟨0, 0⟩)).tail (.remove "door")).tail
      (.write radioFrame ⟨0, 0⟩)).tail (.route doorFrame ⟨0, 0⟩)
  have htracked := tracked_of_reachable h
  obtain ⟨r, hr, hne⟩ : ∃ r, fiveHandles.rendition? 0 = some r ∧
      fiveHandles.handle? r.format.url ≠ some 0 := ⟨_, rfl, by decide⟩
  exact ⟨h, htracked, rfl, rfl, rfl, rfl, r, hr, hne, htracked.poll_of_replaced 0 r hr hne _ 0⟩

end Catalog

end LiveHls
