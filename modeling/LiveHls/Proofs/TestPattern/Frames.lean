import LiveHls.Proofs.TestPattern.Order

/-!
# The frames of a test pattern

A pattern makes a fixed set of frames, whatever the times up to which its packets are taken.

* `Frame`, `Frame.nanos`, `Frame.Before` : the frames of all streams, their times and their order;
* `Frame.Shows` : the packet of a frame;
* `takeEach?` : the packets before each of several times, taken one time after the other;
* `frames_in_order` : they are those of all frames before the last time, in their order.
-/

namespace LiveHls.TestPattern

/-- A frame of the pictures or of the sound of a source. -/
structure Frame where
  /-- The source, by the position of its resolution. -/
  source : Nat
  sound : Bool
  /-- Its number, counted from 0. -/
  number : Nat
deriving DecidableEq

namespace Frame

/-- The frame behind it. -/
def next (f : Frame) : Frame := { f with number := f.number + 1 }

/-- The computation of its time does not wrap. -/
def IsCounted (f : Frame) : Prop :=
  if f.sound then f.number * 1024 * 10 ^ 9 < 2 ^ 64 else f.number < 2 ^ 32

variable (settings : PatternSettings)

/-- Its time in nanoseconds. Pictures have a duration of whole nanoseconds; 1024 samples of sound
are counted at 48 kHz and only their sum is rounded. -/
def nanos (f : Frame) : Nat :=
  if f.sound then f.number * 1024 * 10 ^ 9 / 48000
  else f.number * (10 ^ 9 / settings.fps.toNat)

/-- A frame of one of the streams, before the limit. -/
def IsWithin (limit : Duration) (f : Frame) : Prop :=
  f.source < settings.resolutions.length ∧ (f.sound = true → settings.audio = true) ∧
    f.nanos settings < limit.nanos

/-- The order of frames: by time, then by source, and a picture before the sound beside it. -/
def Before (f g : Frame) : Prop :=
  f.nanos settings < g.nanos settings ∨ f.nanos settings = g.nanos settings ∧
    (f.source < g.source ∨ f.source = g.source ∧ f.sound = false ∧ g.sound = true)

/-- The stream that it is a frame of, at its start. -/
def stream? (f : Frame) : Option Stream :=
  settings.resolutions[f.source]?.bind fun size =>
    (streamsOf settings size.1 size.2)[f.sound.toNat]?

/-- What the packet of a frame is. Every `gop`th picture is a keyframe; a `gop` of zero counts as
one. -/
structure Shows (f : Frame) (x : Packet) : Prop where
  packet_eq : ∃ s, f.stream? settings = some s ∧ x = (s.after f.number).packet
  nanos_eq : x.timestamp.nanos = f.nanos settings
  isVideo_eq : x.isVideo = !f.sound
  isKeyframe_iff : x.isKeyframe = true ↔
    f.sound = false ∧ (settings.gop = 0 ∨ settings.gop.toNat ∣ f.number)

end Frame

/-- The packets before each of the limits, taken one limit after the other. -/
def takeEach? : List Duration → TestPattern → Option (List Packet × TestPattern)
  | [], p => some ([], p)
  | limit :: limits, p => do
    let (xs, q) ← p.takeUntil limit
    let (ys, r) ← takeEach? limits q
    return (xs ++ ys, r)

/-- Limits on the way change nothing. -/
theorem exists_takeEach? {p : TestPattern} {limits : List Duration} {last : Duration}
    (hlimits : (limits ++ [last]).Pairwise (· ≤ ·)) (h : ∀ s ∈ p.streams, s.Steady last) :
    ∃ xs q, takeEach? (limits ++ [last]) p = some (xs, q) ∧ Takes last p xs q := by
  induction limits generalizing p with
  | nil =>
    obtain ⟨xs, q, hxs⟩ := takeUntil_eq_some_of_steady h
    refine ⟨xs, q, ?_, (takeUntil_eq_some_iff.1 hxs).1⟩
    simp only [List.nil_append, takeEach?, hxs, Option.bind_eq_bind, Option.bind_some,
      Option.pure_def, List.append_nil]
  | cons limit limits ih =>
    obtain ⟨hle, hlimits⟩ := List.pairwise_cons.1 hlimits
    have hlast : limit ≤ last := hle last (List.mem_append_right _ (List.mem_singleton_self _))
    obtain ⟨xs, q, hxs⟩ := takeUntil_eq_some_of_steady fun s hs => (h s hs).mono hlast
    have ht := (takeUntil_eq_some_iff.1 hxs).1
    obtain ⟨ys, r, hys, hr⟩ := ih hlimits (ht.steady hlast h)
    refine ⟨xs ++ ys, r, ?_, ht.append hlast hr⟩
    simp only [List.cons_append, takeEach?, hxs, hys, Option.bind_eq_bind, Option.bind_some,
      Option.pure_def]

/-! ## Streams and frames -/

theorem getElem?_flatMap_const {α β : Type} {g : α → List β} {k : Nat}
    (hg : ∀ a, (g a).length = k) {j : Nat} (hj : j < k) (xs : List α) (i : Nat) :
    (xs.flatMap g)[i * k + j]? = xs[i]?.bind fun a => (g a)[j]? := by
  induction xs generalizing i with
  | nil => simp
  | cons a xs ih =>
    rw [List.flatMap_cons]
    cases i with
    | zero =>
      rw [Nat.zero_mul, Nat.zero_add, List.getElem?_append_left (by rw [hg]; exact hj)]
      rfl
    | succ i =>
      have hback : (i + 1) * k + j = (g a).length + (i * k + j) := by
        rw [hg, Nat.succ_mul]
        omega
      rw [hback, List.getElem?_append_right (Nat.le_add_right ..), Nat.add_sub_cancel_left, ih]
      rfl

section Settings
variable {settings : PatternSettings}

/-- The number of streams of a source. -/
def streamsPerSource (settings : PatternSettings) : Nat := if settings.audio then 2 else 1

theorem length_streamsOf (width height : UInt32) :
    (streamsOf settings width height).length = streamsPerSource settings := by
  unfold streamsOf streamsPerSource
  cases settings.audio <;> rfl

namespace Frame

/-- The position of its stream among those of the pattern. -/
def position (settings : PatternSettings) (f : Frame) : Nat :=
  f.source * streamsPerSource settings + f.sound.toNat

/-- Frame `n` of the stream at a position. -/
def ofPosition (settings : PatternSettings) (i n : Nat) : Frame :=
  ⟨i / streamsPerSource settings, i % streamsPerSource settings == 1, n⟩

theorem toNat_sound_lt {f : Frame} (h : f.sound = true → settings.audio = true) :
    f.sound.toNat < streamsPerSource settings := by
  unfold streamsPerSource
  cases hsound : f.sound with
  | false => split <;> decide
  | true =>
    rw [if_pos (h hsound)]
    decide

theorem getElem?_position {f : Frame} (h : f.sound = true → settings.audio = true) :
    (new settings).streams[f.position settings]? = f.stream? settings := by
  have hlt := toNat_sound_lt h
  have hstreams : (new settings).streams =
      settings.resolutions.flatMap fun size => streamsOf settings size.1 size.2 := rfl
  rw [hstreams, position, getElem?_flatMap_const (fun _ => length_streamsOf ..) hlt, stream?]

theorem audio_of_ofPosition {i n : Nat} (h : (ofPosition settings i n).sound = true) :
    settings.audio = true := by
  cases haudio : settings.audio with
  | true => rfl
  | false =>
    have hone : i % 1 = 1 := by
      simpa only [ofPosition, streamsPerSource, haudio, Bool.false_eq_true, if_false,
        beq_iff_eq] using h
    rw [Nat.mod_one] at hone
    cases hone

theorem position_ofPosition (i n : Nat) : (ofPosition settings i n).position settings = i := by
  simp only [position, ofPosition, streamsPerSource]
  cases settings.audio with
  | false => simp [Nat.mod_one]
  | true =>
    simp only [if_true]
    rcases Nat.mod_two_eq_zero_or_one i with h | h
    · rw [h]
      show i / 2 * 2 + 0 = i
      omega
    · rw [h]
      show i / 2 * 2 + 1 = i
      omega

theorem ofPosition_position {f : Frame} (h : f.sound = true → settings.audio = true) :
    ofPosition settings (f.position settings) f.number = f := by
  obtain ⟨source, sound, number⟩ := f
  simp only [position, ofPosition, streamsPerSource]
  cases haudio : settings.audio with
  | false =>
    cases sound with
    | false => simp [Nat.mod_one]
    | true => rw [h rfl] at haudio; cases haudio
  | true => cases sound <;> simp; omega

/-- The stream of a frame: its format, and where its count starts. -/
theorem stream?_eq_some {f : Frame} {s : Stream} (h : f.stream? settings = some s) :
    f.source < settings.resolutions.length ∧ s.made = 0 ∧
      (f.sound = true ∧ s.medium = .audio audioFormat ∨
        f.sound = false ∧ ∃ format size, format.fps = max settings.fps 1 ∧
          s.medium = .video format (max settings.gop 1).toNat size) := by
  obtain ⟨⟨width, height⟩, hr, hs⟩ := Option.bind_eq_some_iff.1 h
  refine ⟨(List.getElem?_eq_some_iff.1 hr).1, ?_⟩
  cases hsound : f.sound with
  | false =>
    rw [hsound] at hs
    cases hs
    exact ⟨rfl, .inr ⟨rfl, _, _, rfl, rfl⟩⟩
  | true =>
    rw [hsound] at hs
    unfold streamsOf at hs
    split at hs
    · cases hs
      exact ⟨rfl, .inl ⟨rfl, rfl⟩⟩
    · cases hs

section Stream
variable {f : Frame} {s : Stream}

theorem clock_after (hfps : settings.fps ≠ 0) (h : f.stream? settings = some s) :
    (s.after f.number).clock = f.nanos settings := by
  obtain ⟨-, hmade, ⟨hsound, hmedium⟩ | ⟨hsound, format, size, hformat, hmedium⟩⟩ :=
    stream?_eq_some h
  · simp only [Stream.clock, Stream.after, hmedium, hmade, nanos, hsound, Nat.zero_add, if_true]
    rfl
  · simp only [Stream.clock, Stream.after, hmedium, hmade, nanos, hsound, Stream.frameNanos,
      hformat, max_one_of_ne_zero hfps, Nat.zero_add, Bool.false_eq_true, if_false]
    exact Nat.mul_comm ..

theorem counted_after_iff (h : f.stream? settings = some s) :
    (s.after f.number).Counted ↔ f.IsCounted := by
  obtain ⟨-, hmade, ⟨hsound, hmedium⟩ | ⟨hsound, format, size, -, hmedium⟩⟩ := stream?_eq_some h <;>
    simp only [Stream.Counted, Stream.after, hmedium, hmade, IsCounted, hsound, Nat.zero_add] <;>
      rfl

theorem ticks (hfps : settings.fps ≠ 0) (hnano : settings.fps.toNat ≤ 10 ^ 9)
    (h : f.stream? settings = some s) : s.Ticks := by
  obtain ⟨-, -, ⟨-, hmedium⟩ | ⟨-, format, size, hformat, hmedium⟩⟩ := stream?_eq_some h <;>
    rw [Stream.Ticks, hmedium]
  · trivial
  · have hpos : 0 < settings.fps.toNat :=
      Nat.pos_of_ne_zero fun h0 => hfps (UInt32.toNat_inj.1 h0)
    show Stream.frameNanos format ≠ 0
    rw [Stream.frameNanos, hformat, max_one_of_ne_zero hfps]
    exact Nat.pos_iff_ne_zero.1 (Nat.div_pos hnano hpos)

theorem dvd_max_one_iff (n : Nat) :
    (max settings.gop 1).toNat ∣ n ↔ settings.gop = 0 ∨ settings.gop.toNat ∣ n := by
  by_cases h : settings.gop = 0
  · rw [h]
    exact iff_of_true (Nat.one_dvd n) (.inl rfl)
  · rw [max_one_of_ne_zero h, or_iff_right h]

theorem shows_packet (hfps : settings.fps ≠ 0) (h : f.stream? settings = some s)
    (hcounted : (s.after f.number).Counted) : f.Shows settings (s.after f.number).packet where
  packet_eq := ⟨s, h, rfl⟩
  nanos_eq := by
    rw [← clock_after hfps h, ← hcounted.nanos_timestamp, Stream.packet]
    split <;> rfl
  isVideo_eq := by
    obtain ⟨-, -, ⟨hsound, hmedium⟩ | ⟨hsound, format, size, -, hmedium⟩⟩ := stream?_eq_some h <;>
      simp only [Stream.packet, Stream.after, hmedium, hsound] <;> rfl
  isKeyframe_iff := by
    rw [← dvd_max_one_iff]
    obtain ⟨-, hmade, ⟨hsound, hmedium⟩ | ⟨hsound, format, size, -, hmedium⟩⟩ :=
      stream?_eq_some h <;>
      simp only [Stream.packet, Stream.after, hmedium, hmade, hsound, Packet.isKeyframe]
    · simp
    · simp [Nat.dvd_iff_mod_eq_zero]

end Stream

end Frame

/-- The clocks of the pattern are steady as far as all frames are counted. -/
theorem steady_new {limit : Duration} (hfps : settings.fps ≠ 0)
    (hnano : settings.fps.toNat ≤ 10 ^ 9)
    (hcounted : ∀ f : Frame, f.IsWithin settings limit → f.next.IsCounted) :
    ∀ s ∈ (new settings).streams, s.Steady limit := by
  intro s hs
  obtain ⟨i, hi⟩ := List.mem_iff_getElem?.1 hs
  have hstream (n : Nat) : (Frame.ofPosition settings i n).stream? settings = some s := by
    rw [← Frame.getElem?_position Frame.audio_of_ofPosition, Frame.position_ofPosition, hi]
  refine ⟨Frame.ticks hfps hnano (hstream 0), ?_, fun n hn => ?_⟩
  · refine (Frame.counted_after_iff (hstream 0)).2 ?_
    unfold Frame.IsCounted
    split
    · exact (by decide : 0 * 1024 * 10 ^ 9 < 2 ^ 64)
    · exact (by decide : 0 < 2 ^ 32)
  · refine (Frame.counted_after_iff (hstream (n + 1))).2 ?_
    refine hcounted (Frame.ofPosition settings i n) ⟨?_, Frame.audio_of_ofPosition, ?_⟩
    · exact (Frame.stream?_eq_some (hstream n)).1
    · rw [← Frame.clock_after hfps (hstream n)]
      exact hn

/-! ## Turns and frames -/

/-- The frame that a stream makes in its turn. -/
def Frame.ofTurn (settings : PatternSettings) (turn : Nat × Stream) : Frame :=
  .ofPosition settings turn.1 turn.2.made

/-- Frame `f` is made in this turn: the stream is the one of the frame, after those before it. -/
def Frame.IsMadeBy (settings : PatternSettings) (f : Frame) (turn : Nat × Stream) : Prop :=
  f.position settings = turn.1 ∧ ∃ t, f.stream? settings = some t ∧ turn.2 = t.after f.number

theorem Frame.IsMadeBy.clock_eq {f : Frame} {turn : Nat × Stream} (hfps : settings.fps ≠ 0)
    (h : f.IsMadeBy settings turn) : turn.2.clock = f.nanos settings := by
  obtain ⟨-, t, ht, hturn⟩ := h
  rw [hturn, clock_after hfps ht]

theorem Frame.exists_isMadeBy {f : Frame} (hsource : f.source < settings.resolutions.length)
    (hsound : f.sound = true → settings.audio = true) :
    ∃ turn, f.IsMadeBy settings turn ∧ Frame.ofTurn settings turn = f := by
  obtain ⟨t, ht⟩ : ∃ t, f.stream? settings = some t := by
    rw [stream?, List.getElem?_eq_getElem hsource]
    exact ⟨_, List.getElem?_eq_getElem (length_streamsOf .. ▸ toNat_sound_lt hsound)⟩
  refine ⟨(f.position settings, t.after f.number), ⟨rfl, t, ht, rfl⟩, ?_⟩
  have hmade : t.made = 0 := (stream?_eq_some ht).2.1
  show ofPosition settings (f.position settings) (t.made + f.number) = f
  rw [hmade, Nat.zero_add, ofPosition_position hsound]

section Turns
variable {limit : Duration} {turns : List (Nat × Stream)}

theorem isMadeBy_of_mem (h : IsMerge limit (new settings) turns) {turn : Nat × Stream}
    (hmem : turn ∈ turns) : (Frame.ofTurn settings turn).IsMadeBy settings turn := by
  obtain ⟨i, s⟩ := turn
  obtain ⟨t, n, hi, rfl, -⟩ := (h.mem_iff i s).1 hmem
  have hstream (m : Nat) : (Frame.ofPosition settings i m).stream? settings = some t := by
    rw [← Frame.getElem?_position Frame.audio_of_ofPosition, Frame.position_ofPosition, hi]
  have hmade : t.made = 0 := (Frame.stream?_eq_some (hstream 0)).2.1
  refine ⟨Frame.position_ofPosition .., t, hstream _, ?_⟩
  show t.after n = t.after (t.made + n)
  rw [hmade, Nat.zero_add]

theorem mem_map_ofTurn_iff (hfps : settings.fps ≠ 0) (h : IsMerge limit (new settings) turns)
    {f : Frame} : f ∈ turns.map (Frame.ofTurn settings) ↔ f.IsWithin settings limit := by
  constructor
  · intro hf
    obtain ⟨⟨i, s⟩, hmem, rfl⟩ := List.mem_map.1 hf
    obtain ⟨-, -, -, -, hlt⟩ := (h.mem_iff i s).1 hmem
    have hmade := isMadeBy_of_mem h hmem
    obtain ⟨t, ht, -⟩ := hmade.2
    refine ⟨(Frame.stream?_eq_some ht).1, Frame.audio_of_ofPosition, ?_⟩
    rw [← hmade.clock_eq hfps]
    exact hlt
  · rintro ⟨hsource, hsound, hlt⟩
    obtain ⟨turn, hmade, rfl⟩ := Frame.exists_isMadeBy hsource hsound
    refine List.mem_map.2 ⟨turn, (h.mem_iff turn.1 turn.2).2 ?_, rfl⟩
    rw [← hmade.clock_eq hfps] at hlt
    obtain ⟨hposition, t, ht, hturn⟩ := hmade
    exact ⟨t, _, by rw [← hposition, Frame.getElem?_position hsound, ht], hturn, hlt⟩

theorem before_of_precedes (hfps : settings.fps ≠ 0) {f g : Frame} {a b : Nat × Stream}
    (ha : f.IsMadeBy settings a) (hb : g.IsMadeBy settings b)
    (hsound : g.sound = true → settings.audio = true) (h : Precedes a b) :
    f.Before settings g := by
  unfold Precedes at h
  rw [ha.clock_eq hfps, hb.clock_eq hfps, ← ha.1, ← hb.1] at h
  refine h.imp_right fun ⟨heq, hlt⟩ => ⟨heq, ?_⟩
  have hg := Frame.toNat_sound_lt hsound
  unfold Frame.position at hlt
  rcases Nat.lt_trichotomy f.source g.source with hsource | hsource | hsource
  · exact .inl hsource
  · rw [hsource] at hlt
    have hfg : f.sound.toNat < g.sound.toNat := Nat.lt_of_add_lt_add_left hlt
    refine .inr ⟨hsource, ?_⟩
    revert hfg
    cases f.sound <;> cases g.sound <;> decide
  · -- the streams of an earlier source are all before those of a later one
    have hle := Nat.mul_le_mul_right (streamsPerSource settings) hsource
    rw [Nat.succ_mul] at hle
    omega

/-- The packets before a limit are those of the frames before it, in their order. -/
theorem exists_frames (hfps : settings.fps ≠ 0) (hsteady : ∀ s ∈ (new settings).streams,
    s.Steady limit) {xs : List Packet} {q : TestPattern} (ht : Takes limit (new settings) xs q) :
    ∃ frames : List Frame, frames.Pairwise (Frame.Before settings) ∧
      (∀ f, f ∈ frames ↔ f.IsWithin settings limit) ∧
      List.Forall₂ (Frame.Shows settings) frames xs := by
  obtain ⟨turns, hmerge, rfl⟩ := ht.isMerge hsteady
  refine ⟨turns.map (Frame.ofTurn settings), ?_, fun f => mem_map_ofTurn_iff hfps hmerge, ?_⟩
  · refine List.pairwise_map.2 (hmerge.ordered.imp_of_mem fun {a b} ha hb h => ?_)
    exact before_of_precedes hfps (isMadeBy_of_mem hmerge ha) (isMadeBy_of_mem hmerge hb)
      Frame.audio_of_ofPosition h
  · refine List.forall₂_map_left_iff.2 (List.forall₂_map_right_iff.2 (List.forall₂_same.2 ?_))
    rintro ⟨i, s⟩ hmem
    obtain ⟨-, t, hstream, heq⟩ := isMadeBy_of_mem hmerge hmem
    obtain ⟨u, n, hu, hs, hlt⟩ := (hmerge.mem_iff i s).1 hmem
    have hcounted : s.Counted := by
      rw [hs] at hlt ⊢
      exact (hsteady u (List.mem_of_getElem? hu)).counted_after hlt
    rw [show s = _ from heq] at hcounted
    show Frame.Shows settings (Frame.ofTurn settings (i, s)) s.packet
    rw [show s.packet = _ from congrArg Stream.packet heq]
    exact Frame.shows_packet hfps hstream hcounted

end Turns

/-- **A test pattern makes its frames in their order**, whatever the times up to which they are
taken: while no count wraps, the packets before each of several times, taken one time after the
other, are those taken before the last time at once, one for each frame before it. -/
theorem frames_in_order (hfps : settings.fps ≠ 0) (hnano : settings.fps.toNat ≤ 10 ^ 9)
    {limits : List Duration} {last : Duration} (hlimits : (limits ++ [last]).Pairwise (· ≤ ·))
    (hcounted : ∀ f : Frame, f.IsWithin settings last → f.next.IsCounted) :
    ∃ frames xs q, takeEach? (limits ++ [last]) (new settings) = some (xs, q) ∧
      (new settings).takeUntil last = some (xs, q) ∧
      frames.Pairwise (Frame.Before settings) ∧
      (∀ f, f ∈ frames ↔ f.IsWithin settings last) ∧
      List.Forall₂ (Frame.Shows settings) frames xs := by
  have hsteady := steady_new hfps hnano hcounted
  obtain ⟨xs, q, heach, ht⟩ := exists_takeEach? hlimits hsteady
  obtain ⟨ys, r, huntil⟩ := takeUntil_eq_some_of_steady hsteady
  obtain ⟨rfl, rfl⟩ := ht.unique (takeUntil_eq_some_iff.1 huntil).1
  obtain ⟨frames, hframes⟩ := exists_frames hfps hsteady ht
  exact ⟨frames, xs, q, heach, huntil, hframes⟩

end Settings

/-- Ten pictures a second and the sound beside them, taken in three steps: the second one takes
nothing, and the last picture comes before the last frames of sound. -/
theorem slowFrames_in_order :
    ∃ frames xs q,
      takeEach? ([.ofMillis 100, .ofMillis 100] ++ [.ofMillis 1000]) (new slowFrames.pattern) =
        some (xs, q) ∧
      (new slowFrames.pattern).takeUntil (.ofMillis 1000) = some (xs, q) ∧
      frames.Pairwise (Frame.Before slowFrames.pattern) ∧
      (∀ f, f ∈ frames ↔ f.IsWithin slowFrames.pattern (.ofMillis 1000)) ∧
      List.Forall₂ (Frame.Shows slowFrames.pattern) frames xs := by
  refine frames_in_order (by decide) (by decide) (by decide) fun f hf => ?_
  have hfps : slowFrames.pattern.fps.toNat = 10 := rfl
  have hlimit : (Duration.ofMillis 1000).nanos = 10 ^ 9 := by decide
  have hlt := hf.2.2
  rw [Frame.nanos, hfps, hlimit] at hlt
  unfold Frame.IsCounted Frame.next
  cases hsound : f.sound with
  | false =>
    simp only [hsound, Bool.false_eq_true, if_false] at hlt ⊢
    omega
  | true =>
    simp only [hsound, if_true] at hlt ⊢
    omega

end LiveHls.TestPattern
