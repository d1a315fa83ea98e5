import LiveHls.Mp4.Muxer

/-!
# The tracks of a source

* `Muxer.ofFormat?_eq_ok` : a muxer that is not refused has an empty track for each stream of its
  source, video as track 1 and audio as the next one;
* `Muxer.hasVideo_of_ofFormat?`, `Muxer.hasAudio_of_ofFormat?` : which tracks it has.
-/

namespace LiveHls.Mp4

theorem exists_of_map_eq_ok {ε α β : Type} {x : Except ε α} {f : α → β} {b : β}
    (h : x.map f = .ok b) : ∃ a, x = .ok a ∧ b = f a := by
  cases x with
  | error e => cases h
  | ok a =>
    cases h
    exact ⟨a, rfl, rfl⟩

theorem exists_of_bind_eq_ok {α β : Type} {x : Except Error α} {f : α → Except Error β} {b : β}
    (h : x >>= f = .ok b) : ∃ a, x = .ok a ∧ f a = .ok b := by
  cases x with
  | error e => cases h
  | ok a => exact ⟨a, rfl, h⟩

namespace TrackLayout

theorem video?_eq_ok {id : UInt32} {format : VideoFormat} {layout : TrackLayout}
    (h : video? id format = .ok layout) :
    ∃ box, TrackBox.video? id videoTimescale format = .ok box ∧
      layout = ⟨id, videoTimescale, box⟩ := exists_of_map_eq_ok h

theorem audio?_eq_ok {id : UInt32} {format : AudioFormat} {layout : TrackLayout}
    (h : audio? id format = .ok layout) :
    ∃ box, TrackBox.audio? id format.sampleRate format = .ok box ∧
      layout = ⟨id, format.sampleRate, box⟩ := by
  unfold audio? at h
  split at h
  · cases h
  · exact exists_of_map_eq_ok h

end TrackLayout

namespace Muxer

/-- The number of the audio track: 1, or 2 behind a video track. -/
def audioId (format : SourceFormat) : UInt32 := if format.video.isSome then 2 else 1

/-- `track` is the empty track that `layout?` gives for a stream, absent if the stream is. -/
def IsTrackOf {α : Type} (layout? : α → Except Error TrackLayout) (stream : Option α)
    (track : Option Track) : Prop :=
  match stream with
  | none => track = none
  | some format => ∃ layout, layout? format = .ok layout ∧ track = some (.empty layout)

theorem isSome_of_isTrackOf {α : Type} {layout? : α → Except Error TrackLayout}
    {stream : Option α} {track : Option Track} (h : IsTrackOf layout? stream track) :
    track.isSome = stream.isSome := by
  cases stream with
  | none => rw [show track = none from h]; rfl
  | some format =>
    obtain ⟨layout, -, rfl⟩ := h
    rfl

theorem isTrackOf_of_mapM {α : Type} {make : α → Except Error Track}
    {layout? : α → Except Error TrackLayout} {stream : Option α} {track : Option Track}
    (hmake : ∀ f t, make f = .ok t → ∃ layout, layout? f = .ok layout ∧ t = .empty layout)
    (h : stream.mapM make = .ok track) : IsTrackOf layout? stream track := by
  cases stream with
  | none => cases h; rfl
  | some format =>
    have h : (make format).map some = .ok track := h
    obtain ⟨t, ht, htrack⟩ := exists_of_map_eq_ok h
    obtain ⟨layout, hl, rfl⟩ := hmake format t ht
    exact ⟨layout, hl, htrack⟩

theorem exists_of_isTrackOf {α : Type} {layout? : α → Except Error TrackLayout} {stream : Option α}
    {track : Option Track} (h : IsTrackOf layout? stream track) {t : Track}
    (ht : track = some t) : ∃ f l, stream = some f ∧ layout? f = .ok l ∧ t = .empty l := by
  subst ht
  cases stream with
  | none => cases h
  | some f =>
    obtain ⟨l, hl, ht⟩ := h
    exact ⟨f, l, rfl, hl, Option.some.inj ht⟩

/-- **The tracks of a muxer that is not refused.** -/
theorem ofFormat?_eq_ok {format : SourceFormat} {m : Muxer} (h : ofFormat? format = .ok m) :
    IsTrackOf (TrackLayout.video? 1) format.video m.video ∧
      IsTrackOf (TrackLayout.audio? (audioId format)) format.audio m.audio := by
  unfold ofFormat? at h
  split at h
  · cases h
  · obtain ⟨video, hv, h⟩ := exists_of_bind_eq_ok h
    obtain ⟨audio, ha, h⟩ := exists_of_bind_eq_ok h
    cases h
    have hvideo : IsTrackOf (TrackLayout.video? 1) format.video video := by
      refine isTrackOf_of_mapM (fun f t ht => ?_) hv
      unfold videoTrack? at ht
      split at ht
      · exact exists_of_map_eq_ok ht
      · cases ht
    refine ⟨hvideo, ?_⟩
    unfold audioId
    rw [← isSome_of_isTrackOf hvideo]
    exact isTrackOf_of_mapM (fun f t ht => exists_of_map_eq_ok ht) ha

theorem hasVideo_of_ofFormat? {format : SourceFormat} {m : Muxer} (h : ofFormat? format = .ok m) :
    m.hasVideo = format.video.isSome := isSome_of_isTrackOf (ofFormat?_eq_ok h).1

theorem hasAudio_of_ofFormat? {format : SourceFormat} {m : Muxer} (h : ofFormat? format = .ok m) :
    m.hasAudio = format.audio.isSome := isSome_of_isTrackOf (ofFormat?_eq_ok h).2

end Muxer

end LiveHls.Mp4
