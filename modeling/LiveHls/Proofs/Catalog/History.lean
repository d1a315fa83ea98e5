import LiveHls.Proofs.Catalog.Sources
import LiveHls.Worker
import Mathlib.Data.List.Basic
import Mathlib.Data.List.Induction

/-!
# What a source's history makes of its rendition

* `Catalog.applyAll` : a catalog after commands in any order;
* `offers` : the packets of a source since it was last removed, each with the options in force when
  it arrived (`offers_filter`: commands about other sources leave no trace in them);
* `Source.ofOffers` : what offers make of a source; it is what the catalog holds of it
  (`source_applyAll`);
* `LastChange` : the last packet that changed the format of its source;
* `renditionOf?_applyAll` : a source's rendition is a new one, made at the last change with the
  options of that time, into which the packets from there on were written.
-/

namespace LiveHls

open Rendition (Arrival camera cameraVideo cameraFrame shortest)

/-- A command and the time of day at which it is applied. -/
structure TimedCommand where
  command : Command
  time : Instant

/-- A packet that comes to a catalog, with the options in force then. -/
structure Offer extends Arrival where
  options : Options

/-- The options in force, and the packets of one source since it was last removed. -/
structure Offers where
  options : Options
  packets : List Offer

/-- The offers of the source `url` after one more command. -/
def Offers.after (url : String) (o : Offers) (c : TimedCommand) : Offers :=
  match c.command with
  | .packet x =>
    if x.source = url then { o with packets := o.packets ++ [⟨⟨x, c.time⟩, o.options⟩] } else o
  | .removeSource other => if other = url then { o with packets := [] } else o
  | .segmentDuration d => { o with options := o.options.withSegmentDuration d }
  | .flush _ => o

/-- The packets of the source since it was last removed, oldest first. -/
def offers (url : String) (options : Options) (commands : List TimedCommand) : List Offer :=
  (commands.foldl (Offers.after url) ⟨options, []⟩).packets

/-- Whether a command can matter to the source: its own packets and removals, and new options. -/
def TimedCommand.concerns (url : String) (c : TimedCommand) : Bool :=
  match c.command with
  | .packet x => x.source == url
  | .removeSource other => other == url
  | .segmentDuration _ => true
  | .flush _ => false

theorem Offers.after_of_not_concerns {url : String} {c : TimedCommand}
    (h : c.concerns url = false) (o : Offers) : o.after url c = o := by
  unfold TimedCommand.concerns at h
  unfold Offers.after
  split at h <;> simp_all

/-- **Commands about other sources leave no trace.** -/
theorem offers_filter (url : String) (options : Options) (commands : List TimedCommand) :
    offers url options (commands.filter (·.concerns url)) = offers url options commands := by
  unfold offers
  rw [List.foldl_filter]
  congr 2
  funext o c
  split
  · rfl
  · rename_i h
    rw [Offers.after_of_not_concerns (by simpa using h)]

/-! ## Sources made of offers -/

/-- What offers make of a source, packet by packet. -/
def Source.ofOffers (url : String) (xs : List Offer) : Source :=
  xs.foldl (fun s a => s.write url a.options a.packet a.time) .absent

theorem Source.ofOffers_concat (url : String) (xs : List Offer) (a : Offer) :
    ofOffers url (xs ++ [a]) = (ofOffers url xs).write url a.options a.packet a.time :=
  List.foldl_concat ..

namespace Catalog

/-- The catalog after commands in their order. -/
def applyAll (c : Catalog) (commands : List TimedCommand) : Catalog :=
  commands.foldl (fun c a => (a.command.apply a.time c).1) c

theorem applyAll_concat (c : Catalog) (commands : List TimedCommand) (a : TimedCommand) :
    c.applyAll (commands ++ [a]) = (a.command.apply a.time (c.applyAll commands)).1 :=
  List.foldl_concat ..

/-- A catalog follows the offers of a source: it has their options, and holds of the source what
they make of it. -/
structure Follows (c : Catalog) (url : String) (o : Offers) : Prop where
  distinct : c.Distinct
  options_eq : c.options = o.options
  source_eq : c.source url = .ofOffers url o.packets

theorem Follows.apply {c : Catalog} {url : String} {o : Offers} (h : c.Follows url o)
    (a : TimedCommand) : (a.command.apply a.time c).1.Follows url (o.after url a) := by
  obtain ⟨hc, ho, hs⟩ := h
  obtain ⟨command, time⟩ := a
  cases command with
  | packet x =>
    obtain ⟨hd, hoptions, hsource⟩ := hc.write x time
    simp only [Command.apply, Offers.after]
    split
    · rename_i he
      refine ⟨hd, hoptions.trans ho, ?_⟩
      rw [hsource url, if_pos he.symm, hs, Source.ofOffers_concat, ho]
    · rename_i he
      exact ⟨hd, hoptions.trans ho, by rw [hsource url, if_neg (Ne.symm he), hs]⟩
  | removeSource other =>
    obtain ⟨hd, hoptions, hsource⟩ := hc.remove other
    simp only [Command.apply, Offers.after]
    split
    · rename_i he
      exact ⟨hd, hoptions.trans ho, by rw [hsource url, if_pos he.symm]; rfl⟩
    · rename_i he
      exact ⟨hd, hoptions.trans ho, by rw [hsource url, if_neg (Ne.symm he), hs]⟩
  | segmentDuration d =>
    refine ⟨⟨hc.handle_lt, hc.handle_inj⟩, ?_, hs⟩
    simp only [Command.apply, Offers.after]
    rw [← ho]
    rfl
  | flush _ => exact ⟨hc, ho, hs⟩

theorem Follows.applyAll {c : Catalog} {url : String} {o : Offers} (h : c.Follows url o)
    (commands : List TimedCommand) :
    (c.applyAll commands).Follows url (commands.foldl (Offers.after url) o) := by
  induction commands generalizing c o with
  | nil => exact h
  | cons a rest ih => exact ih (h.apply a)

/-- **What a catalog holds of a source** is what the source's own packets make of it. -/
theorem source_applyAll (writerId : UInt32) (options : Options) (commands : List TimedCommand)
    (url : String) :
    ((new writerId options).applyAll commands).source url =
      .ofOffers url (offers url options commands) := by
  have hnew : (new writerId options).Follows url ⟨options, []⟩ :=
    ⟨distinct_new writerId options, rfl, source_new writerId options url⟩
  exact (hnew.applyAll commands).source_eq

end Catalog

/-! ## The last change of a format -/

/-- The format that the offers of a source announce: the last one of each medium. -/
def announcedBy (url : String) (xs : List Offer) : SourceFormat :=
  xs.foldl (fun format a => format.announce a.packet) (.unknown url)

theorem announcedBy_concat (url : String) (xs : List Offer) (a : Offer) :
    announcedBy url (xs ++ [a]) = (announcedBy url xs).announce a.packet :=
  List.foldl_concat ..

/-- Packet `j` is the last one that changed the format of the source. The first packet always
changes it, since no stream is known before it. -/
structure LastChange (url : String) (xs : List Offer) (j : Nat) : Prop where
  lt_length : j < xs.length
  changes : announcedBy url (xs.take (j + 1)) ≠ announcedBy url (xs.take j)
  last : ∀ k, j < k → k < xs.length →
    announcedBy url (xs.take (k + 1)) = announcedBy url (xs.take k)

section LastChange
variable {url : String} {xs : List Offer} {a : Offer} {j : Nat}

/-- A packet that announces what is known already is no change. -/
theorem LastChange.concat (h : LastChange url xs j)
    (ha : announcedBy url (xs ++ [a]) = announcedBy url xs) : LastChange url (xs ++ [a]) j where
  lt_length := by
    rw [List.length_append]
    exact Nat.lt_add_right _ h.lt_length
  changes := by
    rw [List.take_append_of_le_length h.lt_length,
      List.take_append_of_le_length (Nat.le_of_lt h.lt_length)]
    exact h.changes
  last := by
    intro k hj hk
    rw [List.length_append, List.length_singleton] at hk
    rcases Nat.lt_or_eq_of_le (Nat.le_of_lt_succ hk) with hlt | rfl
    · rw [List.take_append_of_le_length hlt, List.take_append_of_le_length (Nat.le_of_lt hlt)]
      exact h.last k hj hlt
    · rw [List.take_append_of_le_length (Nat.le_refl _), List.take_length,
        List.take_of_length_le (by simp), ha]

theorem lastChange_concat_length (ha : announcedBy url (xs ++ [a]) ≠ announcedBy url xs) :
    LastChange url (xs ++ [a]) xs.length where
  lt_length := by simp
  changes := by
    rwa [List.take_append_of_le_length (Nat.le_refl _), List.take_length,
      List.take_of_length_le (by simp)]
  last := by
    intro k hj hk
    rw [List.length_append, List.length_singleton] at hk
    omega

/-- There is only one last change. -/
theorem LastChange.unique {i : Nat} (hi : LastChange url xs i) (hj : LastChange url xs j) :
    i = j := by
  rcases Nat.lt_trichotomy i j with h | h | h
  · exact absurd (hi.last j h hj.lt_length) hj.changes
  · exact h
  · exact absurd (hj.last i h hi.lt_length) hi.changes

end LastChange

/-! ## The rendition of a source -/

/-- The rendition after packets written one after the other, whatever becomes of each. -/
def Rendition.writeEach (r : Rendition) (arrivals : List Arrival) : Rendition :=
  arrivals.foldl (fun r a => (r.write a.packet a.time).1) r

theorem Rendition.writeEach_concat (r : Rendition) (arrivals : List Arrival) (a : Arrival) :
    r.writeEach (arrivals ++ [a]) = ((r.writeEach arrivals).write a.packet a.time).1 :=
  List.foldl_concat ..

namespace Source

section Write
variable {url : String} {s : Source} {options : Options} {x : Packet} {now : Instant}

/-- A packet of a known format goes to the rendition that is there. -/
theorem rendition?_write_of_known (h : s.format? = some (s.announced url x)) :
    (s.write url options x now).rendition? = s.rendition?.map fun r => (r.write x now).1 := by
  unfold write route
  rw [if_pos h]

/-- A packet of a new format is the first one of a new rendition. -/
theorem rendition?_write_of_new (h : s.format? ≠ some (s.announced url x)) :
    (s.write url options x now).rendition? =
      (Rendition.new? (s.announced url x) options now).toOption.map fun r =>
        (r.write x now).1 := by
  unfold write route
  rw [if_neg h]

end Write

theorem format?_write (url : String) (s : Source) (options : Options) (x : Packet)
    (now : Instant) : (s.write url options x now).format? = some (s.announced url x) := by
  unfold write route
  split
  · rename_i h
    exact h
  · rfl

theorem announced_ofOffers {url : String} {xs : List Offer}
    (h : (ofOffers url xs).format? = if xs = [] then none else some (announcedBy url xs))
    (x : Packet) : (ofOffers url xs).announced url x = (announcedBy url xs).announce x := by
  unfold announced
  rw [h]
  split
  · rename_i he
    rw [he]
    rfl
  · rfl

theorem format?_ofOffers (url : String) (xs : List Offer) :
    (ofOffers url xs).format? = if xs = [] then none else some (announcedBy url xs) := by
  induction xs using List.reverseRecOn with
  | nil => rfl
  | append_singleton xs a ih =>
    rw [ofOffers_concat, format?_write, announced_ofOffers ih, if_neg (by simp),
      announcedBy_concat]

/-- **The rendition that offers make** is a new one, made at the last change of the format, into
which the packets from there on were written. -/
theorem rendition?_ofOffers (url : String) {xs : List Offer} (h : xs ≠ []) :
    ∃ j a, LastChange url xs j ∧ xs[j]? = some a ∧
      (ofOffers url xs).rendition? =
        (Rendition.new? (announcedBy url xs) a.options a.time).toOption.map
          fun r => r.writeEach ((xs.drop j).map (·.toArrival)) := by
  induction xs using List.reverseRecOn with
  | nil => exact absurd rfl h
  | append_singleton xs a ih =>
    have hannounced := announced_ofOffers (format?_ofOffers url xs) a.packet
    rw [← announcedBy_concat] at hannounced
    have hknown := format?_ofOffers url xs
    rw [ofOffers_concat]
    by_cases hsame : xs ≠ [] ∧ announcedBy url (xs ++ [a]) = announcedBy url xs
    · rw [if_neg hsame.1, ← hsame.2, ← hannounced] at hknown
      obtain ⟨j, b, hj, hb, hr⟩ := ih hsame.1
      refine ⟨j, b, hj.concat hsame.2, ?_, ?_⟩
      · rw [List.getElem?_append_left hj.lt_length, hb]
      · rw [rendition?_write_of_known hknown, hr, hsame.2, Option.map_map,
          List.drop_append_of_le_length (Nat.le_of_lt hj.lt_length), List.map_append]
        congr 1
        funext r
        exact (r.writeEach_concat _ a.toArrival).symm
    · have hchange : announcedBy url (xs ++ [a]) ≠ announcedBy url xs := by
        intro he
        have hnil : xs = [] := Classical.byContradiction fun hxs => hsame ⟨hxs, he⟩
        rw [hnil] at he
        exact SourceFormat.announce_unknown_ne url a.packet he
      have hnew : (ofOffers url xs).format? ≠ some ((ofOffers url xs).announced url a.packet) := by
        rw [hknown, hannounced]
        split
        · nofun
        · exact fun he => hchange (Option.some.inj he).symm
      refine ⟨xs.length, a, lastChange_concat_length hchange, List.getElem?_concat_length, ?_⟩
      rw [rendition?_write_of_new hnew, hannounced, List.drop_left]
      rfl

/-- A source has a rendition exactly if it was offered something that can be carried. -/
theorem isSome_rendition?_ofOffers (url : String) (xs : List Offer) :
    (ofOffers url xs).rendition?.isSome = true ↔
      xs ≠ [] ∧ ∃ layout, Mp4.Muxer.ofFormat? (announcedBy url xs) = .ok layout := by
  by_cases h : xs = []
  · subst h
    exact iff_of_false nofun fun hn => hn.1 rfl
  · obtain ⟨j, a, -, -, hr⟩ := rendition?_ofOffers url h
    rw [hr, Option.isSome_map, Rendition.new?]
    cases Mp4.Muxer.ofFormat? (announcedBy url xs) with
    | error e => exact iff_of_false nofun fun hn => nomatch hn.2
    | ok layout => exact iff_of_true rfl ⟨h, layout, rfl⟩

end Source

namespace Catalog

/-- **A source's rendition is what its own packets make of it.** After any commands, about whatever
sources, a source has a rendition exactly if it has offered packets since it was last removed and
their formats can be carried. The rendition is then a new one, of the format that they announce,
made at the last change of that format with the options in force at that time, into which the
packets from there on were written, whatever became of each. Commands about other sources do not
matter to it. -/
theorem renditionOf?_applyAll (writerId : UInt32) (options : Options)
    (commands : List TimedCommand) (url : String) :
    let c := (new writerId options).applyAll commands
    let xs := offers url options commands
    let format := announcedBy url xs
    ((c.renditionOf? url).isSome = true ↔
      xs ≠ [] ∧ ∃ layout, Mp4.Muxer.ofFormat? format = .ok layout) ∧
    (∀ r, c.renditionOf? url = some r → ∃ j a r₀, LastChange url xs j ∧ xs[j]? = some a ∧
      Rendition.new? format a.options a.time = .ok r₀ ∧
      r = r₀.writeEach ((xs.drop j).map (·.toArrival))) ∧
    c.renditionOf? url =
      ((new writerId options).applyAll (commands.filter (·.concerns url))).renditionOf? url := by
  intro c xs format
  have hrendition : c.renditionOf? url = (Source.ofOffers url xs).rendition? :=
    congrArg Source.rendition? (source_applyAll writerId options commands url)
  have hfiltered := congrArg Source.rendition?
    (source_applyAll writerId options (commands.filter (·.concerns url)) url)
  rw [offers_filter] at hfiltered
  refine ⟨?_, fun r hr => ?_, hrendition.trans hfiltered.symm⟩
  · rw [hrendition]
    exact Source.isSome_rendition?_ofOffers url xs
  · rw [hrendition] at hr
    have hxs : xs ≠ [] := ((Source.isSome_rendition?_ofOffers url xs).1 (by rw [hr]; rfl)).1
    obtain ⟨j, a, hj, ha, hmade⟩ := Source.rendition?_ofOffers url hxs
    rw [hr] at hmade
    obtain ⟨r₀, hnew, hwritten⟩ := Option.map_eq_some_iff.1 hmade.symm
    refine ⟨j, a, r₀, hj, ha, ?_, hwritten.symm⟩
    cases hn : Rendition.new? (announcedBy url xs) a.options a.time with
    | error e =>
      rw [hn] at hnew
      cases hnew
    | ok r₁ =>
      rw [hn] at hnew
      cases hnew
      rfl

/-! ### A source that changes -/

def lobbyVideo : VideoFormat := { cameraVideo with width := 1280, height := 720 }

/-- Two cameras: one comes with a frame, is given new options and a larger picture, and goes on with
one more frame; the other comes and goes in between. -/
def twoCameras : List TimedCommand :=
  let larger : Packet := { cameraFrame true with medium := .video lobbyVideo true }
  [.packet (cameraFrame true), .packet { cameraFrame true with source := "lobby" },
    .segmentDuration (.ofMillis 20), .packet larger, .removeSource "lobby",
    .packet { larger with payload := [] }, .packet larger].map fun c => ⟨c, ⟨0, 0⟩⟩

theorem lastChange_twoCameras : LastChange "camera" (offers "camera" shortest twoCameras) 1 where
  lt_length := by decide
  changes := by decide
  last := by
    intro k hk hlt
    have : k = 2 ∨ k = 3 := by
      have : (offers "camera" shortest twoCameras).length = 4 := by decide
      omega
    rcases this with rfl | rfl <;> rfl

theorem renditionOf?_applyAll_twoCameras :
    ((new 0 shortest).applyAll twoCameras).renditionOf? "lobby" = none ∧
    ∃ r r₀, ((new 0 shortest).applyAll twoCameras).renditionOf? "camera" = some r ∧
      Rendition.new? ⟨"camera", some lobbyVideo, none⟩
        (shortest.withSegmentDuration (.ofMillis 20)) ⟨0, 0⟩ = .ok r₀ ∧
      r = r₀.writeEach (((offers "camera" shortest twoCameras).drop 1).map (·.toArrival)) := by
  obtain ⟨hlobby, -, -⟩ := renditionOf?_applyAll 0 shortest twoCameras "lobby"
  obtain ⟨hsome, hmade, -⟩ := renditionOf?_applyAll 0 shortest twoCameras "camera"
  refine ⟨?_, ?_⟩
  · rw [← Option.not_isSome_iff_eq_none, hlobby]
    exact fun h => h.1 rfl
  · obtain ⟨r, hr⟩ := Option.isSome_iff_exists.1 (hsome.2 ⟨by decide, _, rfl⟩)
    obtain ⟨j, a, r₀, hj, ha, hnew, hwritten⟩ := hmade r hr
    obtain rfl := hj.unique lastChange_twoCameras
    cases ha
    exact ⟨r, r₀, hr, hnew, hwritten⟩

end Catalog

end LiveHls
