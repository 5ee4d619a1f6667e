import Goble.Terminal.Screen

/-!
# The accounts of the image cache

Whatever the limits and the calls, the cache keeps to its limits and what it holds is what is left
of the inserts (`Ledger`) after the oldest are dropped (`accounted_of_calls`).

An insert evicts from the front, one image at a time (`Evicts`), and never the image it has just
added: an image alone is within the count, and within the bytes or it is refused.
-/

namespace Goble.Terminal

def ImageEvent.placed (event : ImageEvent) (maxBytes row column sequence : Nat) :
    Option CachedImage :=
  if !event.display || !event.isRenderable then none
  else
    match event.rgba with
    | none => none
    | some rgba =>
      if 0 < maxBytes ∧ maxBytes < event.payload.length + rgba.length then none
      else some {
        id := event.id
        format := event.format
        width := event.width
        height := event.height
        payload := event.payload
        rgba
        row
        column
        columns := event.columns
        rows := event.rows
        sequence }

namespace ImageCache

variable (cache : ImageCache)

def inserted (event : ImageEvent) : Option Nat :=
  if !event.display || !event.isRenderable then none
  else
    match event.rgba with
    | none => none
    | some rgba =>
      if 0 < cache.maxBytes ∧ cache.maxBytes < event.payload.length + rgba.length then none
      else some event.id

inductive Call where
  | insert (event : ImageEvent) (row column : Nat)
  | remove (id : Nat)
  | clear

def call : Call → ImageCache
  | .insert event row column => cache.insert event row column
  | .remove id => cache.remove id
  | .clear => cache.clear

def run (calls : List Call) : ImageCache := calls.foldl call cache

/-! ### What is inserted -/

/-- How many inserts were accepted, and the images of those that have not been replaced, removed
or cleared since, oldest first. No limit is looked at but the one an image alone is refused by. -/
structure Ledger where
  accepted : Nat := 0
  images : List CachedImage := []

def Ledger.record (maxBytes : Nat) (ledger : Ledger) : Call → Ledger
  | .insert event row column =>
    match event.placed maxBytes row column ledger.accepted with
    | none => ledger
    | some image =>
      { accepted := ledger.accepted + 1
        images := ledger.images.filter (fun i => !decide (i.id = image.id)) ++ [image] }
  | .remove id => { ledger with images := ledger.images.filter fun i => !decide (i.id = id) }
  | .clear => { ledger with images := [] }

def ledger (maxBytes : Nat) (calls : List Call) : Ledger := calls.foldl (.record maxBytes) {}

theorem inserted_eq (event : ImageEvent) (row column sequence : Nat) :
    cache.inserted event = (event.placed cache.maxBytes row column sequence).map (·.id) := by
  rw [inserted, ImageEvent.placed]
  split
  · rfl
  · split
    · rfl
    · split
      · rfl
      · rfl

theorem insert_eq (event : ImageEvent) (row column : Nat) :
    cache.insert event row column =
      match event.placed cache.maxBytes row column cache.nextSequence with
      | none => cache
      | some image => enforceBounds ((cache.remove image.id).pushBack image) := by
  rw [insert, ImageEvent.placed]
  split
  · rfl
  · cases event.rgba with
    | none => rfl
    | some rgba =>
      dsimp only
      split
      · rfl
      · rfl

/-- What is kept of the place and the order; and an image alone is within the limit on bytes. -/
theorem placed_spec {event : ImageEvent} {maxBytes row column sequence : Nat} {image : CachedImage}
    (h : event.placed maxBytes row column sequence = some image) :
    image.row = row ∧ image.sequence = sequence ∧ (0 < maxBytes → image.cost ≤ maxBytes) := by
  rw [ImageEvent.placed] at h
  split at h
  · cases h
  · split at h
    · cases h
    · split at h
      · cases h
      · next hfits =>
        cases h
        exact ⟨Eq.refl _, Eq.refl _, fun hmax => Nat.not_lt.mp fun hlt => hfits ⟨hmax, hlt⟩⟩

/-! ### What is evicted -/

/-- Images are dropped from the front, and nothing else is touched. -/
structure Evicts (cache cache' : ImageCache) : Prop where
  images : cache'.images <:+ cache.images
  maxImages : cache'.maxImages = cache.maxImages
  maxBytes : cache'.maxBytes = cache.maxBytes
  nextSequence : cache'.nextSequence = cache.nextSequence

variable {cache}

theorem Evicts.rfl : cache.Evicts cache := ⟨List.suffix_rfl, Eq.refl _, Eq.refl _, Eq.refl _⟩

theorem Evicts.trans {cache' cache'' : ImageCache} (h : cache.Evicts cache')
    (h' : cache'.Evicts cache'') : cache.Evicts cache'' :=
  ⟨h'.images.trans h.images, h'.maxImages.trans h.maxImages, h'.maxBytes.trans h.maxBytes,
    h'.nextSequence.trans h.nextSequence⟩

theorem popFront_evicts (cache : ImageCache) : cache.Evicts cache.popFront :=
  ⟨List.tail_suffix _, Eq.refl _, Eq.refl _, Eq.refl _⟩

theorem length_popFront (cache : ImageCache) :
    cache.popFront.images.length = cache.images.length - 1 := List.length_tail

/-- The first loop ends within the limit on images, and not before one is left. -/
theorem enforceCount_spec (rounds : Nat) (cache : ImageCache)
    (hrounds : cache.images.length ≤ rounds) :
    cache.Evicts (enforceCount rounds cache) ∧
      (0 < cache.maxImages → (enforceCount rounds cache).images.length ≤ cache.maxImages) ∧
      (0 < cache.images.length → 0 < (enforceCount rounds cache).images.length) := by
  fun_induction enforceCount rounds cache with
  | case1 cache => exact ⟨.rfl, fun _ => by omega, id⟩
  | case2 rounds cache hmore ih =>
    have hlength := length_popFront cache
    obtain ⟨hevicts, hcount, hpos⟩ := ih (by omega)
    exact ⟨cache.popFront_evicts.trans hevicts, hcount, fun _ => hpos (by omega)⟩
  | case3 rounds cache hmore =>
    exact ⟨.rfl, fun hmax => Nat.not_lt.mp fun hlt => hmore ⟨hmax, hlt⟩, id⟩

/-- The second loop ends within the limit on bytes. Where the newest image alone is within it, that
one is left. -/
theorem enforceBytes_spec (rounds : Nat) (cache : ImageCache)
    (hrounds : cache.images.length ≤ rounds) :
    cache.Evicts (enforceBytes rounds cache) ∧
      (0 < cache.maxBytes → (enforceBytes rounds cache).bytes ≤ cache.maxBytes) ∧
      (∀ image, cache.images.getLast? = some image → (0 < cache.maxBytes →
        image.cost ≤ cache.maxBytes) → 0 < (enforceBytes rounds cache).images.length) := by
  fun_induction enforceBytes rounds cache with
  | case1 cache =>
    have hnil : cache.images = [] := List.length_eq_zero_iff.mp (Nat.le_zero.mp hrounds)
    refine ⟨.rfl, fun _ => ?_, fun image himage => ?_⟩
    · rw [cache.bytes_eq, hnil]
      exact Nat.zero_le _
    · rw [hnil] at himage
      cases himage
  | case2 rounds cache hmore ih =>
    have hlength := length_popFront cache
    obtain ⟨hevicts, hbytes, hpos⟩ := ih (by omega)
    refine ⟨cache.popFront_evicts.trans hevicts, hbytes, fun image himage hcost => ?_⟩
    -- the newest image is not the one that is popped: alone it would be within the limit
    refine hpos image ?_ hcost
    have hbytes := cache.bytes_eq
    show cache.images.tail.getLast? = some image
    cases himages : cache.images with
    | nil =>
      rw [himages] at himage
      cases himage
    | cons first rest =>
      rw [himages] at himage hbytes
      cases rest with
      | nil =>
        have hfirst : first = image := Option.some.inj himage
        have hcost : first.cost ≤ cache.maxBytes := hfirst ▸ hcost hmore.1
        have hbytes : cache.bytes = first.cost + 0 := hbytes
        omega
      | cons second rest => exact himage
  | case3 rounds cache hmore =>
    refine ⟨.rfl, fun hmax => Nat.not_lt.mp fun hlt => hmore ⟨hmax, hlt⟩, ?_⟩
    intro image himage _
    exact List.length_pos_of_mem (List.mem_of_getLast? himage)

/-- **Both loops**: the limits hold and the image just added is there. -/
theorem enforceBounds_spec (cache : ImageCache) {images : List CachedImage} {image : CachedImage}
    (himages : cache.images = images ++ [image])
    (hcost : 0 < cache.maxBytes → image.cost ≤ cache.maxBytes) :
    cache.Evicts cache.enforceBounds ∧
      (0 < cache.maxImages → cache.enforceBounds.images.length ≤ cache.maxImages) ∧
      (0 < cache.maxBytes → cache.enforceBounds.bytes ≤ cache.maxBytes) ∧
      image ∈ cache.enforceBounds.images := by
  obtain ⟨hevicts, hcount, hpos⟩ := enforceCount_spec cache.images.length cache (Nat.le_refl _)
  obtain ⟨hevicts', hbytes, hpos'⟩ := enforceBytes_spec _
    (enforceCount cache.images.length cache) (Nat.le_refl _)
  -- what is left after a loop is a suffix, so its newest image is the newest there was
  have hlast {cache' : ImageCache} (h : cache.Evicts cache') (hne : 0 < cache'.images.length) :
      cache'.images.getLast? = some image := by
    have hsuffix := h.images
    rw [himages] at hsuffix
    obtain hnil | ⟨kept, hkept, -⟩ := List.suffix_concat_iff.mp hsuffix
    · rw [hnil] at hne
      cases hne
    · rw [hkept, List.getLast?_concat]
  have hne : 0 < cache.images.length := by
    rw [himages, List.length_append]
    exact Nat.succ_pos _
  rw [hevicts.maxBytes] at hbytes hpos'
  have hboth := hevicts.trans hevicts'
  refine ⟨hboth, fun hmax => ?_, hbytes, ?_⟩
  · exact Nat.le_trans hevicts'.images.length_le (hcount hmax)
  · have hleft := hpos' image (hlast hevicts (hpos hne)) hcost
    exact List.mem_of_getLast? (hlast hboth hleft)

/-! ### Every run -/

/-- What holds after every call. -/
structure Accounted (cache : ImageCache) (maxImages maxBytes : Nat) (live : List CachedImage) :
    Prop where
  bytes_eq : cache.bytes = totalCost cache.images
  ids : (cache.images.map (·.id)).Nodup
  sequences : cache.images.Pairwise (·.sequence < ·.sequence)
  length_le : 0 < maxImages → cache.images.length ≤ maxImages
  bytes_le : 0 < maxBytes → cache.bytes ≤ maxBytes
  /-- The oldest are evicted first. -/
  suffix : cache.images <:+ live

/-- The cache beside its ledger. The invariant of a run: the next sequence number is above those
of the images, since so few inserts cannot wrap it. -/
structure Tracks (maxImages maxBytes : Nat) (cache : ImageCache) (ledger : Ledger) : Prop where
  maxImages_eq : cache.maxImages = maxImages
  maxBytes_eq : cache.maxBytes = maxBytes
  nextSequence_eq : cache.nextSequence = ledger.accepted
  accounted : cache.Accounted maxImages maxBytes ledger.images
  sequence_lt : ∀ image ∈ cache.images, image.sequence < cache.nextSequence

variable {maxImages maxBytes : Nat} {ledger : Ledger}

theorem tracks_new (maxImages maxBytes : Nat) :
    Tracks maxImages maxBytes (new maxImages maxBytes) {} where
  maxImages_eq := Eq.refl _
  maxBytes_eq := Eq.refl _
  nextSequence_eq := Eq.refl _
  accounted := {
    bytes_eq := Eq.refl _
    ids := List.nodup_nil
    sequences := List.Pairwise.nil
    length_le := fun _ => Nat.zero_le _
    bytes_le := fun _ => Nat.zero_le _
    suffix := List.suffix_rfl }
  sequence_lt := nofun

theorem bytes_remove_le (cache : ImageCache) (id : Nat) : (cache.remove id).bytes ≤ cache.bytes :=
  Nat.sub_le _ _

theorem Tracks.remove (h : Tracks maxImages maxBytes cache ledger) (id : Nat) :
    Tracks maxImages maxBytes (cache.remove id)
      { ledger with images := ledger.images.filter fun i => !decide (i.id = id) } where
  maxImages_eq := h.maxImages_eq
  maxBytes_eq := h.maxBytes_eq
  nextSequence_eq := h.nextSequence_eq
  accounted := {
    bytes_eq := (cache.remove id).bytes_eq
    ids := h.accounted.ids.sublist (List.filter_sublist.map _)
    sequences := h.accounted.sequences.sublist List.filter_sublist
    length_le := fun hmax =>
      Nat.le_trans (List.length_filter_le _ _) (h.accounted.length_le hmax)
    bytes_le := fun hmax => Nat.le_trans (cache.bytes_remove_le id) (h.accounted.bytes_le hmax)
    suffix := h.accounted.suffix.filter _ }
  sequence_lt := fun image himage => h.sequence_lt image ((List.mem_filter.mp himage).1)

/-- A replaced image leaves its place, and the new one is the newest. -/
theorem Tracks.insert_image (h : Tracks maxImages maxBytes cache ledger) {image : CachedImage}
    (hsequence : image.sequence = cache.nextSequence) (hcost : 0 < maxBytes → image.cost ≤ maxBytes)
    (haccepted : ledger.accepted + 1 < 2 ^ 64) :
    Tracks maxImages maxBytes ((cache.remove image.id).pushBack image).enforceBounds
      { accepted := ledger.accepted + 1
        images := ledger.images.filter (fun i => !decide (i.id = image.id)) ++ [image] } := by
  have hremoved := h.remove image.id
  obtain ⟨hevicts, hcount, hbytes, -⟩ := enforceBounds_spec
    ((cache.remove image.id).pushBack image) (Eq.refl _)
    (by rwa [show ((cache.remove image.id).pushBack image).maxBytes = maxBytes from h.maxBytes_eq])
  have hnext : ((cache.remove image.id).pushBack image).nextSequence = ledger.accepted + 1 := by
    show (cache.nextSequence + 1) % 2 ^ 64 = _
    rw [h.nextSequence_eq]
    exact Nat.mod_eq_of_lt haccepted
  have hids : (((cache.remove image.id).pushBack image).images.map (·.id)).Nodup := by
    show ((cache.images.filter _ ++ [image]).map (·.id)).Nodup
    rw [List.map_append, List.nodup_append]
    refine ⟨hremoved.accounted.ids, List.pairwise_singleton _ _, ?_⟩
    intro id hid id' hid'
    obtain ⟨old, hold, rfl⟩ := List.mem_map.mp hid
    cases List.mem_singleton.mp hid'
    -- what has the id of the new image was removed
    have hne := (List.mem_filter.mp hold).2
    rwa [Bool.not_eq_true', decide_eq_false_iff_not] at hne
  have hsequences : ((cache.remove image.id).pushBack image).images.Pairwise
      (·.sequence < ·.sequence) := by
    refine List.pairwise_append.mpr ⟨hremoved.accounted.sequences, List.pairwise_singleton _ _, ?_⟩
    intro old hold new hnew
    cases List.mem_singleton.mp hnew
    rw [hsequence]
    exact hremoved.sequence_lt old hold
  have hlt : ∀ i ∈ ((cache.remove image.id).pushBack image).images,
      i.sequence < ledger.accepted + 1 := by
    intro i hi
    obtain hold | hnew := List.mem_append.mp hi
    · exact Nat.lt_succ_of_lt (h.nextSequence_eq ▸ hremoved.sequence_lt i hold)
    · cases List.mem_singleton.mp hnew
      rw [hsequence, h.nextSequence_eq]
      exact Nat.lt_succ_self _
  have hmaxImages := h.maxImages_eq
  have hmaxBytes := h.maxBytes_eq
  refine ⟨hevicts.maxImages.trans hmaxImages, hevicts.maxBytes.trans hmaxBytes,
    hevicts.nextSequence.trans hnext, ⟨bytes_eq _, ?_, ?_, ?_, ?_, ?_⟩, ?_⟩
  · exact hids.sublist (hevicts.images.sublist.map _)
  · exact hsequences.sublist hevicts.images.sublist
  · intro hmax
    rw [← hmaxImages] at hmax ⊢
    exact hcount hmax
  · intro hmax
    rw [← hmaxBytes] at hmax ⊢
    exact hbytes hmax
  · obtain ⟨dropped, hdropped⟩ := hremoved.accounted.suffix
    refine hevicts.images.trans ⟨dropped, ?_⟩
    show dropped ++ ((cache.remove image.id).images ++ [image]) = _
    rw [← List.append_assoc, hdropped]
  · intro i hi
    rw [hevicts.nextSequence, hnext]
    exact hlt i (hevicts.images.subset hi)

theorem Tracks.call (h : Tracks maxImages maxBytes cache ledger)
    (haccepted : ledger.accepted + 1 < 2 ^ 64) (call : Call) :
    Tracks maxImages maxBytes (cache.call call) (ledger.record maxBytes call) := by
  cases call with
  | insert event row column =>
    show Tracks _ _ (cache.insert event row column) _
    rw [insert_eq, h.maxBytes_eq, h.nextSequence_eq, Ledger.record]
    cases hplaced : event.placed maxBytes row column ledger.accepted with
    | none => exact h
    | some image =>
      refine h.insert_image ?_ (placed_spec hplaced).2.2 haccepted
      rw [(placed_spec hplaced).2.1, h.nextSequence_eq]
  | remove id => exact h.remove id
  | clear =>
    exact {
      maxImages_eq := h.maxImages_eq
      maxBytes_eq := h.maxBytes_eq
      nextSequence_eq := h.nextSequence_eq
      accounted := {
        bytes_eq := Eq.refl _
        ids := List.nodup_nil
        sequences := List.Pairwise.nil
        length_le := fun _ => Nat.zero_le _
        bytes_le := fun _ => Nat.zero_le _
        suffix := List.suffix_rfl }
      sequence_lt := nofun }

theorem accepted_record_le (maxBytes : Nat) (ledger : Ledger) (call : Call) :
    (ledger.record maxBytes call).accepted ≤ ledger.accepted + 1 := by
  cases call with
  | insert event row column =>
    rw [Ledger.record]
    split
    · exact Nat.le_succ _
    · exact Nat.le_refl _
  | remove | clear => exact Nat.le_succ _

theorem Tracks.run (h : Tracks maxImages maxBytes cache ledger) (calls : List Call)
    (hcalls : ledger.accepted + calls.length < 2 ^ 64) :
    Tracks maxImages maxBytes (cache.run calls) (calls.foldl (.record maxBytes) ledger) := by
  induction calls generalizing cache ledger with
  | nil => exact h
  | cons call calls ih =>
    rw [List.length_cons] at hcalls
    refine ih (h.call (by omega) call) ?_
    have := accepted_record_le maxBytes ledger call
    omega

/-- **The accounts of the image cache.** After any calls, the bytes are those of the images held,
the ids differ, the sequence numbers rise, the limits hold and the images are the newest of those
inserted. An insert that answers an id has left that id in the cache. -/
theorem accounted_of_calls (maxImages maxBytes : Nat) (calls : List Call)
    (hcalls : calls.length < 2 ^ 64) :
    ((new maxImages maxBytes).run calls).Accounted maxImages maxBytes
        (ImageCache.ledger maxBytes calls).images ∧
      ∀ event row column id, ((new maxImages maxBytes).run calls).inserted event = some id →
        ∃ image ∈ (((new maxImages maxBytes).run calls).insert event row column).images,
          image.id = id := by
  have htracks := (tracks_new maxImages maxBytes).run calls (by rwa [Nat.zero_add])
  refine ⟨htracks.accounted, fun event row column id hid => ?_⟩
  rw [inserted_eq _ event row column ((new maxImages maxBytes).run calls).nextSequence] at hid
  obtain ⟨image, hplaced, rfl⟩ := Option.map_eq_some_iff.mp hid
  rw [insert_eq, hplaced]
  obtain ⟨-, -, -, hmem⟩ := enforceBounds_spec
    ((((new maxImages maxBytes).run calls).remove image.id).pushBack image) (Eq.refl _)
    (placed_spec hplaced).2.2
  exact ⟨image, hmem, Eq.refl _⟩

def pixel (id : Nat) : ImageEvent where
  id := id
  format := .kittyRgba
  width := 1
  height := 1
  payload := [255, 0, 0, 255]
  rgba := some [255, 0, 0, 255]
  columns := none
  rows := none
  display := true

/-- Of three images two are kept, and one that is sent again counts as the newest. -/
theorem accounted_two :
    ((new 2 0).run [.insert (pixel 1) 0 0, .insert (pixel 2) 1 0, .insert (pixel 1) 2 0,
        .insert (pixel 3) 3 0]).images.map (fun image => (image.id, image.sequence)) =
      [(1, 2), (3, 3)] ∧
    ((new 2 0).run [.insert (pixel 1) 0 0, .insert (pixel 2) 1 0, .insert (pixel 1) 2 0,
        .insert (pixel 3) 3 0]).Accounted 2 0
      (ImageCache.ledger 0 [.insert (pixel 1) 0 0, .insert (pixel 2) 1 0, .insert (pixel 1) 2 0,
        .insert (pixel 3) 3 0]).images :=
  ⟨by decide +kernel, (accounted_of_calls 2 0 _ (by decide)).1⟩

end ImageCache

end Goble.Terminal
