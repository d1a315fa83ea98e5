import LiveHls.Proofs.Mp4.Layout
import LiveHls.Proofs.Mp4.Reading

/-!
# Reading initialization segments

* `readTracks?` : the numbers and the ticks of the tracks that an initialization segment lists;
* `TrackLayout.IsDescribed` : the box of a track states its number and its ticks;
* `Muxer.readTracks?_initialization` : a reader finds the tracks of a muxer.
-/

namespace LiveHls.Mp4

/-! ## The reader -/

/-- `tkhd` or `mdhd` of version 1: the number behind the two times. -/
def readHeaderNumber? (payload : Bytes) : Option UInt32 := do
  let (_, _, rest) ← versioned? payload
  let (_created, rest) ← word64? rest
  let (_modified, rest) ← word64? rest
  let (n, _) ← word32? rest
  return n

/-- `trak`: the track's number and its ticks per second. -/
def readTrack? (payload : Bytes) : Option (UInt32 × UInt32) := do
  let header ← child? (.ascii 't' 'k' 'h' 'd') payload
  let track ← readHeaderNumber? header
  let media ← child? (.ascii 'm' 'd' 'i' 'a') payload
  let mediaHeader ← child? (.ascii 'm' 'd' 'h' 'd') media
  let timescale ← readHeaderNumber? mediaHeader
  return (track, timescale)

def readTracks? (file : Bytes) : Option (List (UInt32 × UInt32)) := do
  let movie ← child? (.ascii 'm' 'o' 'o' 'v') file
  let bs ← boxes? movie
  (bs.filter (·.type == .ascii 't' 'r' 'a' 'k')).mapM (readTrack? ·.payload)

/-! ## Track boxes -/

/-- The box of a layout is a track with its number and its ticks. -/
def TrackLayout.IsDescribed (l : TrackLayout) : Prop :=
  ∃ isVideo width height kind name information description,
    l.box =
      track (trackHeader l.id isVideo width height) l.timescale kind name information description

theorem TrackLayout.isDescribed_of_video? {id : UInt32} {format : VideoFormat} {l : TrackLayout}
    (h : video? id format = .ok l) : l.IsDescribed := by
  obtain ⟨box, hbox, rfl⟩ := video?_eq_ok h
  unfold TrackBox.video? at hbox
  split at hbox
  · cases hbox
  · cases hbox
    exact ⟨_, _, _, _, _, _, _, rfl⟩

theorem TrackLayout.isDescribed_of_audio? {id : UInt32} {format : AudioFormat} {l : TrackLayout}
    (h : audio? id format = .ok l) : l.IsDescribed := by
  obtain ⟨box, hbox, rfl⟩ := audio?_eq_ok h
  unfold TrackBox.audio? at hbox
  split at hbox
  · cases hbox
    exact ⟨_, _, _, _, _, _, _, rfl⟩
  · cases hbox

theorem readHeaderNumber?_trackHeader (track : UInt32) (isVideo : Bool) (width height : UInt32) :
    readHeaderNumber? (trackHeader track isVideo width height).raw.payload = some track := by
  simp only [readHeaderNumber?, trackHeader, Box.raw_leaf, versioned?_versioned, List.append_assoc,
    word64?_word64, word32?_word32, Option.bind_eq_bind, Option.bind_some]
  rfl

theorem readHeaderNumber?_mediaHeader (timescale : UInt32) :
    readHeaderNumber? (mediaHeader timescale).raw.payload = some timescale := by
  simp only [readHeaderNumber?, mediaHeader, Box.raw_leaf, versioned?_versioned, List.append_assoc,
    word64?_word64, word32?_word32, Option.bind_eq_bind, Option.bind_some]
  rfl

theorem TrackLayout.IsDescribed.readTrack? {l : TrackLayout} (h : l.IsDescribed)
    (hsmall : l.box.raw.payload.length < 2 ^ 32) :
    readTrack? l.box.raw.payload = some (l.id, l.timescale) := by
  obtain ⟨isVideo, width, height, kind, name, information, description, hbox⟩ := h
  rw [hbox] at hsmall ⊢
  rw [track, Box.raw_container] at hsmall ⊢
  have hchild := child?_encodeAll hsmall
  have hheader := hchild (.ascii 't' 'k' 'h' 'd')
  have hmedia := hchild (.ascii 'm' 'd' 'i' 'a')
  rw [show List.find? _ _ = some (trackHeader l.id isVideo width height).raw from rfl,
    Option.map_some] at hheader
  rw [show List.find? _ _ = some (Box.raw _) from rfl, Option.map_some, Box.raw_container] at hmedia
  have hlength := Box.size_le_of_mem (List.mem_cons_of_mem
    (trackHeader l.id isVideo width height) (List.mem_singleton_self _)) |>.trans_lt hsmall
  rw [Box.raw_container, RawBox.size] at hlength
  have hmediaHeader := child?_encodeAll (Nat.lt_of_le_of_lt (Nat.le_add_left ..) hlength)
    (.ascii 'm' 'd' 'h' 'd')
  rw [show List.find? _ _ = some (mediaHeader l.timescale).raw from rfl, Option.map_some]
    at hmediaHeader
  simp only [Mp4.readTrack?, hheader, hmedia, hmediaHeader, readHeaderNumber?_trackHeader,
    readHeaderNumber?_mediaHeader, Option.bind_eq_bind, Option.bind_some]
  rfl

theorem TrackLayout.IsDescribed.type_eq {l : TrackLayout} (h : l.IsDescribed) :
    l.box.raw.type = .ascii 't' 'r' 'a' 'k' := by
  obtain ⟨isVideo, width, height, kind, name, information, description, hbox⟩ := h
  rw [hbox]
  rfl

/-! ## The movie -/

theorem readTracks?_movie {tracks : List (UInt32 × Box)} {results : List (UInt32 × UInt32)}
    (hsmall : (Box.encodeAll [fileType, movie tracks]).length < 2 ^ 32)
    (htype : ∀ t ∈ tracks, t.2.raw.type = .ascii 't' 'r' 'a' 'k')
    (hread : (∀ t ∈ tracks, t.2.raw.payload.length < 2 ^ 32) →
      (tracks.map (·.2.raw)).mapM (readTrack? ·.payload) = some results) :
    readTracks? (Box.encodeAll [fileType, movie tracks]) = some results := by
  have hmovie : child? (.ascii 'm' 'o' 'o' 'v') (Box.encodeAll [fileType, movie tracks]) =
      some (movie tracks).raw.payload := by
    rw [child?_encodeAll hsmall]
    rfl
  have hlength : (movie tracks).raw.payload.length < 2 ^ 32 := by
    have hle := Box.size_le_of_mem (List.mem_cons_of_mem fileType
      (List.mem_singleton_self (movie tracks)))
    rw [RawBox.size] at hle
    omega
  unfold readTracks?
  rw [hmovie]
  rw [movie, Box.raw_container] at hlength ⊢
  have hfilter : (tracks.map (·.2.raw)).filter (·.type == .ascii 't' 'r' 'a' 'k') =
      tracks.map (·.2.raw) := by
    apply List.filter_eq_self.2
    intro b hb
    obtain ⟨t, ht, rfl⟩ := List.mem_map.1 hb
    exact beq_iff_eq.2 (htype t ht)
  simp only [boxes?_encodeAll hlength, List.map_cons, List.map_append, List.map_map,
    Option.bind_eq_bind, Option.bind_some]
  rw [List.filter_cons_of_neg Bool.false_ne_true, List.filter_append]
  apply (congrArg (List.mapM _) ((congrArg (· ++ _) hfilter).trans (List.append_nil _))).trans
  apply hread
  intro t ht
  have hle := Box.size_le_of_mem (List.mem_cons_of_mem (movieHeader movieTimescale
    (nextTrackId (tracks.map (·.1)))) (List.mem_append_left [movieExtends (tracks.map (·.1))]
      (List.mem_map_of_mem (f := (·.2)) ht)))
  exact Nat.lt_of_le_of_lt (Nat.le_trans (Nat.le_add_left ..) hle) hlength

namespace Muxer

theorem isDescribed_of_ofFormat? {format : SourceFormat} {m : Muxer}
    (h : ofFormat? format = .ok m) : ∀ t ∈ m.tracks, t.layout.IsDescribed := by
  obtain ⟨hvideo, haudio⟩ := ofFormat?_eq_ok h
  intro t ht
  rw [tracks, List.mem_append, Option.mem_toList, Option.mem_toList] at ht
  rcases ht with ht | ht
  · obtain ⟨_, l, -, hl, rfl⟩ := exists_of_isTrackOf hvideo ht
    exact TrackLayout.isDescribed_of_video? hl
  · obtain ⟨_, l, -, hl, rfl⟩ := exists_of_isTrackOf haudio ht
    exact TrackLayout.isDescribed_of_audio? hl

/-- **A reader finds the tracks in the initialization segment.** -/
theorem readTracks?_initialization {format : SourceFormat} {m : Muxer}
    (h : ofFormat? format = .ok m) (hsmall : m.initialization.length < 2 ^ 32) :
    readTracks? m.initialization =
      some (m.tracks.map fun t => (t.layout.id, t.layout.timescale)) := by
  have hdescribed := isDescribed_of_ofFormat? h
  refine readTracks?_movie hsmall (fun b hb => ?_) fun hbound => ?_
  · obtain ⟨t, ht, rfl⟩ := List.mem_map.1 hb
    exact (hdescribed t ht).type_eq
  · rw [List.map_map]
    exact mapM_map_eq_some fun t ht =>
      (hdescribed t ht).readTrack? (hbound _ (List.mem_map_of_mem ht))

end Muxer

end LiveHls.Mp4
