import Goble.Lib.Machine
import Goble.Terminal.Image

/-!
# The memory of the image tap

The tap buffers the body of a string it is reading and a transmission whose last chunk has not
come, and keeps images for a later `a=p`. A body is cut off at `maxSequenceBytes` and the kept
images are evicted by count and bytes, so both stay within bounds on every stream.

The chunks of one transmission are joined without a bound: `not_bounded` gives streams that buffer
more than any. `bounded_of_run` is what remains: a bound on every stream in which the joined
payload never grows past `maxSequenceBytes`, which is also where the complete transmission would
be dropped.
-/

namespace Goble.Terminal

variable {body : List UInt8}

theorem Kitty.length_splitBody {control payload : List UInt8}
    (h : splitBody body = some (control, payload)) :
    control.length ≤ body.length ∧ payload.length ≤ body.length := by
  rw [splitBody] at h
  split at h
  · next before after hsplit =>
    split at h
    · obtain ⟨rfl, rfl⟩ := Prod.mk.inj (Option.some.inj h)
      rw [Text.splitOnce_eq_some hsplit, List.length_append, List.length_cons]
      omega
    · cases h
  · split at h
    · obtain ⟨rfl, rfl⟩ := Prod.mk.inj (Option.some.inj h)
      exact ⟨Nat.le_refl _, Nat.zero_le _⟩
    · cases h

/-- The bytes an image takes. -/
def ImageEvent.size (event : ImageEvent) : Nat :=
  event.payload.length + (event.rgba.map List.length).getD 0

namespace ImageTap

variable {png : List UInt8 → Option (Nat × Nat × List UInt8)} {tap : ImageTap}

/-- The bytes of a string that has not ended. -/
def State.length : State → Nat
  | .body _ bytes _ => bytes.length
  | _ => 0

/-- The bytes of a transmission that has not ended. -/
def pendingLength (tap : ImageTap) : Nat :=
  match tap.pending with
  | some pending => pending.control.length + pending.payload.length
  | none => 0

/-- What is buffered of strings and transmissions that have not ended. -/
def buffered (tap : ImageTap) : Nat := tap.state.length + tap.pendingLength

def kept (tap : ImageTap) : Nat := (tap.stored.map fun stored => stored.event.size).sum

structure Bounded (bound : Nat) (tap : ImageTap) : Prop where
  buffered_le : tap.buffered ≤ bound
  count_le : tap.stored.length ≤ defaultImageCacheImages
  kept_le : tap.kept ≤ defaultImageCacheBytes

/-! ### The store -/

/-- The counters of the store are true. -/
structure Counted (tap : ImageTap) : Prop where
  bytes_eq : ∀ stored ∈ tap.stored, stored.bytes = stored.event.size
  sum_eq : tap.storedBytes = (tap.stored.map StoredImage.bytes).sum
  size_le : ∀ stored ∈ tap.stored, stored.bytes ≤ defaultImageCacheBytes

structure Limited (tap : ImageTap) : Prop extends Counted tap where
  count_le : tap.stored.length ≤ defaultImageCacheImages
  storedBytes_le : tap.storedBytes ≤ defaultImageCacheBytes

theorem Limited.kept_le (h : tap.Limited) : tap.kept ≤ defaultImageCacheBytes := by
  have hmap : (tap.stored.map fun stored => stored.event.size) =
      tap.stored.map StoredImage.bytes :=
    List.map_congr_left fun stored hmem => (h.bytes_eq stored hmem).symm
  rw [kept, hmap, ← h.sum_eq]
  exact h.storedBytes_le

theorem Counted.popStored (h : tap.Counted) : tap.popStored.Counted := by
  rw [ImageTap.popStored]
  split
  · next stored rest hstored =>
    have hsum := h.sum_eq
    rw [hstored, List.map_cons, List.sum_cons] at hsum
    refine ⟨?_, ?_, ?_⟩
    · exact fun s hs => h.bytes_eq s (hstored ▸ List.mem_cons_of_mem _ hs)
    · change tap.storedBytes - stored.bytes = (rest.map StoredImage.bytes).sum
      omega
    · exact fun s hs => h.size_le s (hstored ▸ List.mem_cons_of_mem _ hs)
  · exact h

theorem length_popStored (tap : ImageTap) :
    tap.popStored.stored.length = tap.stored.length - 1 := by
  rw [ImageTap.popStored]
  split
  · next hstored => rw [hstored]; rfl
  · next hstored => rw [hstored]; rfl

theorem Counted.evictCount (rounds : Nat) (h : tap.Counted) (hrounds : tap.stored.length ≤ rounds) :
    (evictCount rounds tap).Counted ∧
      (evictCount rounds tap).stored.length ≤ defaultImageCacheImages := by
  fun_induction ImageTap.evictCount rounds tap with
  | case1 => exact ⟨h, by omega⟩
  | case2 rounds tap _ ih =>
    refine ih h.popStored ?_
    rw [length_popStored]
    omega
  | case3 rounds tap hle => exact ⟨h, Nat.le_of_not_lt hle⟩

theorem Counted.evictBytes (rounds : Nat) (h : tap.Counted) (hrounds : tap.stored.length ≤ rounds)
    (hcount : tap.stored.length ≤ defaultImageCacheImages) : (evictBytes rounds tap).Limited := by
  have hsmall : ∀ tap : ImageTap, tap.Counted → tap.stored.length ≤ 1 →
      tap.storedBytes ≤ defaultImageCacheBytes := by
    intro tap h hlen
    rw [h.sum_eq]
    match hstored : tap.stored with
    | [] => exact Nat.zero_le _
    | [stored] =>
      rw [List.map_singleton, List.sum_singleton]
      exact h.size_le stored (hstored ▸ List.mem_singleton_self stored)
    | _ :: _ :: _ =>
      rw [hstored, List.length_cons, List.length_cons] at hlen
      omega
  fun_induction ImageTap.evictBytes rounds tap with
  | case1 tap => exact ⟨h, hcount, hsmall tap h (by omega)⟩
  | case2 rounds tap _ ih =>
    have hpop := length_popStored tap
    exact ih h.popStored (by omega) (by omega)
  | case3 rounds tap hle =>
    refine ⟨h, hcount, ?_⟩
    rw [not_and_or, Nat.not_lt, Nat.not_lt] at hle
    exact hle.elim id (hsmall tap h)

theorem removeStored_eq (tap : ImageTap) (id : Nat) : tap.removeStored id = tap ∨
    ∃ before old after, tap.stored = before ++ old :: after ∧
      tap.removeStored id = { tap with
        stored := before ++ after, storedBytes := tap.storedBytes - old.bytes } := by
  rw [removeStored]
  split
  · next old hfind =>
    obtain ⟨hid, before, after, hstored, hbefore⟩ := List.find?_eq_some_iff_append.mp hfind
    refine .inr ⟨before, old, after, hstored, ?_⟩
    have herase : (old :: after).eraseP (fun stored => stored.event.id = id) = after :=
      List.eraseP_cons_of_pos hid
    rw [hstored, List.eraseP_append_right _ (by simpa using hbefore), herase]
  · exact .inl rfl

theorem Counted.removeStored (id : Nat) (h : tap.Counted) : (tap.removeStored id).Counted ∧
    (tap.removeStored id).stored.length ≤ tap.stored.length ∧
    (tap.removeStored id).storedBytes ≤ tap.storedBytes := by
  obtain heq | ⟨before, old, after, hstored, heq⟩ := removeStored_eq tap id
  · rw [heq]
    exact ⟨h, Nat.le_refl _, Nat.le_refl _⟩
  · have hsum := h.sum_eq
    have hmem : ∀ s ∈ before ++ after, s ∈ tap.stored := by
      intro s hs
      rw [hstored]
      exact (List.mem_append.mp hs).elim (List.mem_append_left _)
        fun hs => List.mem_append_right _ (List.mem_cons_of_mem _ hs)
    rw [hstored, List.map_append, List.sum_append, List.map_cons, List.sum_cons] at hsum
    rw [heq]
    refine ⟨⟨fun s hs => h.bytes_eq s (hmem s hs), ?_, fun s hs => h.size_le s (hmem s hs)⟩,
      ?_, Nat.sub_le _ _⟩
    · change tap.storedBytes - old.bytes = ((before ++ after).map StoredImage.bytes).sum
      rw [List.map_append, List.sum_append]
      omega
    · rw [hstored, List.length_append, List.length_append, List.length_cons]
      omega

theorem Limited.removeStored (id : Nat) (h : tap.Limited) : (tap.removeStored id).Limited := by
  obtain ⟨hcounted, hlen, hbytes⟩ := h.toCounted.removeStored id
  exact ⟨hcounted, Nat.le_trans hlen h.count_le, Nat.le_trans hbytes h.storedBytes_le⟩

theorem limited_clearStored : tap.clearStored.Limited where
  bytes_eq _ hmem := absurd hmem List.not_mem_nil
  sum_eq := rfl
  size_le _ hmem := absurd hmem List.not_mem_nil
  count_le := Nat.zero_le _
  storedBytes_le := Nat.zero_le _

/-- A new image is put last, and then old ones make room. -/
theorem Limited.store (event : ImageEvent) (h : tap.Limited) : (tap.store event).Limited := by
  simp only [ImageTap.store]
  split
  · exact h
  · next hsize =>
    obtain ⟨hcounted, -, -⟩ := h.toCounted.removeStored event.id
    have hpush : Counted { tap.removeStored event.id with
        stored := (tap.removeStored event.id).stored ++ [⟨event, event.size⟩]
        storedBytes := (tap.removeStored event.id).storedBytes + event.size } := by
      refine ⟨?_, ?_, ?_⟩
      · intro s hs
        obtain hs | hs := List.mem_append.mp hs
        · exact hcounted.bytes_eq s hs
        · rw [List.mem_singleton.mp hs]
      · rw [List.map_append, List.sum_append, ← hcounted.sum_eq]
        rfl
      · intro s hs
        obtain hs | hs := List.mem_append.mp hs
        · exact hcounted.size_le s hs
        · rw [List.mem_singleton.mp hs]
          exact Nat.le_of_not_lt hsize
    obtain ⟨hevicted, hcount⟩ := hpush.evictCount _ (Nat.le_refl _)
    exact hevicted.evictBytes _ (Nat.le_refl _) hcount

theorem Limited.congr {tap' : ImageTap} (h : tap.Limited) (hstored : tap'.stored = tap.stored)
    (hbytes : tap'.storedBytes = tap.storedBytes) : tap'.Limited := by
  obtain ⟨⟨hb, hsum, hsize⟩, hcount, hle⟩ := h
  refine ⟨⟨?_, ?_, ?_⟩, ?_, ?_⟩
  · rwa [hstored]
  · rwa [hstored, hbytes]
  · rwa [hstored]
  · rwa [hstored]
  · rwa [hbytes]

theorem takeId_stored (tap : ImageTap) (wanted : Option Nat) :
    (tap.takeId wanted).1.stored = tap.stored ∧
    (tap.takeId wanted).1.storedBytes = tap.storedBytes := by
  rw [takeId]
  split <;> exact ⟨rfl, rfl⟩

theorem Limited.runKitty (action : Option UInt8) (control payload : List UInt8) (id : Nat)
    (h : tap.Limited) : (tap.runKitty png action control payload id).1.Limited := by
  have htransmit : ∀ display, (tap.transmit png control payload display id).1.Limited := by
    intro display
    unfold ImageTap.transmit
    split
    · exact h
    · obtain ⟨hstored, hbytes⟩ := takeId_stored tap (some id)
      exact (h.congr hstored hbytes).store _
  have hdelete : (tap.deleteImage control id).1.Limited := by
    unfold ImageTap.deleteImage
    split
    · exact limited_clearStored
    · exact h
    · split <;> exact h
    · split <;> exact h
    · split <;> exact h
    · split
      · exact limited_clearStored
      · exact h.removeStored id
    · split
      · exact limited_clearStored
      · exact h.removeStored id
    · exact h
  unfold ImageTap.runKitty
  split
  · exact hdelete
  · exact h
  · exact h
  · exact htransmit false
  · exact htransmit false
  · exact htransmit true
  · exact h

/-! ### The buffers -/

def completes (tap : ImageTap) (byte : UInt8) : Option (List UInt8) :=
  match tap.state with
  | .body _ body true => if byte = stFinal then some body else none
  | .body .apc body false => if byte = bel then some body else none
  | _ => none

def joins (tap : ImageTap) (body : List UInt8) : Bool :=
  match tap.pending, Kitty.splitBody body.tail with
  | some pending, some (control, payload) =>
    !Kitty.more control || pending.payload.length + payload.length ≤ maxSequenceBytes
  | _, _ => true

/-- No byte completes a chunk that would make the joined payload too long. -/
def joinsWithin (tap : ImageTap) (byte : UInt8) : Bool := (tap.completes byte).all tap.joins

theorem length_of_joins {control payload : List UInt8} {pending : PendingKitty}
    (h : tap.joins body = true) (hpending : tap.pending = some pending)
    (hsplit : Kitty.splitBody body.tail = some (control, payload))
    (hmore : Kitty.more control = true) :
    pending.payload.length + payload.length ≤ maxSequenceBytes := by
  rw [joins, hpending, hsplit] at h
  simpa [hmore] using h

def PendingWithin (tap : ImageTap) : Prop :=
  ∀ pending, tap.pending = some pending →
    pending.control.length ≤ maxSequenceBytes ∧ pending.payload.length ≤ maxSequenceBytes

/-- The invariant of the runs. -/
structure Within (tap : ImageTap) : Prop where
  limited : tap.Limited
  pending : tap.PendingWithin
  body : tap.state.length ≤ maxSequenceBytes

theorem Within.bounded (h : tap.Within) : tap.Bounded (3 * maxSequenceBytes) := by
  refine ⟨?_, h.limited.count_le, h.limited.kept_le⟩
  have hpending : tap.pendingLength ≤ 2 * maxSequenceBytes := by
    rw [pendingLength]
    split
    · next pending hpending =>
      have hle := h.pending pending hpending
      omega
    · exact Nat.zero_le _
  have hbody := h.body
  rw [buffered]
  omega

theorem runKitty_pending (action : Option UInt8) (control payload : List UInt8) (id : Nat) :
    (tap.runKitty png action control payload id).1.pending = tap.pending :=
  congrArg (fun scan => scan.2.1) (runKitty_scan action control payload id)

theorem Limited.parseKitty (h : tap.Limited) (hpending : tap.PendingWithin)
    (hbody : body.length ≤ maxSequenceBytes) (hjoins : tap.joins body = true) :
    (tap.parseKitty png body).1.Limited ∧ (tap.parseKitty png body).1.PendingWithin := by
  unfold ImageTap.parseKitty
  split
  · next body =>
    rw [List.length_cons] at hbody
    split
    · exact ⟨h, hpending⟩
    · next control payload hsplit =>
      simp only
      obtain ⟨hcontrol, hpayload⟩ := Kitty.length_splitBody hsplit
      split
      · next hmore =>
        split
        · next pending hp =>
          refine ⟨h.congr rfl rfl, fun joined hjoined => ?_⟩
          obtain rfl := Option.some.inj hjoined
          have hjoin := length_of_joins hjoins hp hsplit hmore
          refine ⟨(hpending pending hp).1, ?_⟩
          rw [List.length_append]
          exact hjoin
        · refine ⟨h.congr rfl rfl, fun first hfirst => ?_⟩
          obtain rfl := Option.some.inj hfirst
          exact ⟨Nat.le_trans hcontrol (Nat.le_of_lt hbody),
            Nat.le_trans hpayload (Nat.le_of_lt hbody)⟩
      · have hlimited : Limited { tap with pending := none } := h.congr rfl rfl
        refine ⟨hlimited.runKitty _ _ _ _, fun pending hp => ?_⟩
        rw [runKitty_pending] at hp
        cases hp
  · exact ⟨h, hpending⟩

theorem Within.finishBody {kind : BodyKind} (h : tap.Within)
    (hbody : body.length ≤ maxSequenceBytes) (hjoins : tap.joins body = true) :
    (tap.finishBody png kind body).1.Within := by
  have hground : ∀ {tap : ImageTap}, tap.Limited → tap.PendingWithin → tap.state = .ground →
      tap.Within := by
    intro tap hlimited hpending hstate
    refine ⟨hlimited, hpending, ?_⟩
    rw [hstate]
    exact Nat.zero_le _
  have hlimited : Limited { tap with state := .ground } := h.limited.congr rfl rfl
  have hpending : PendingWithin { tap with state := .ground } := h.pending
  cases kind with
  | apc =>
    obtain ⟨hl, hp⟩ := @Limited.parseKitty body png { tap with state := .ground } hlimited hpending
      hbody hjoins
    have hstate := @parseKitty_state png { tap with state := .ground } body
    simp only [ImageTap.finishBody]
    split
    · split
      · exact hground hl hp hstate
      · exact hground hl hp hstate
      · exact hground hl hp hstate
      · exact hground hl hp hstate
      · exact hground (hl.congr rfl rfl) hp hstate
    · exact hground hlimited hpending rfl
  | dcs =>
    simp only [ImageTap.finishBody]
    split
    · split
      · obtain ⟨hstored, hbytes⟩ := takeId_stored { tap with state := .ground } none
        have hscan := @takeId_scan { tap with state := .ground } none
        have hpending' := congrArg (fun scan => scan.2.1) hscan
        refine hground (hlimited.congr hstored hbytes) ?_ (congrArg Prod.fst hscan)
        exact fun pending hp => hpending pending (hpending'.symm.trans hp)
      · exact hground (hlimited.congr rfl rfl) hpending rfl
    · exact hground hlimited hpending rfl

theorem Within.step {byte : UInt8} (h : tap.Within) (hjoins : tap.joinsWithin byte = true) :
    (tap.step png [] byte).1.Within := by
  -- most steps only move the scanner
  have hmove : ∀ (state : State) (dropped : Nat), state.length ≤ maxSequenceBytes →
      Within { tap with state, dropped } :=
    fun state dropped hbody => ⟨h.limited.congr rfl rfl, h.pending, hbody⟩
  cases hstate : tap.state with
  | ground =>
    simp only [ImageTap.step, hstate]
    split
    · exact hmove .escape tap.dropped (Nat.zero_le _)
    · exact h
  | escape =>
    simp only [ImageTap.step, hstate]
    split
    · exact hmove (.body .apc [] false) tap.dropped (Nat.zero_le _)
    split
    · exact hmove (.body .dcs [] false) tap.dropped (Nat.zero_le _)
    split
    · exact h
    · exact hmove .ground tap.dropped (Nat.zero_le _)
  | body kind body escaped =>
    have hbody : body.length ≤ maxSequenceBytes := by
      have hlen := h.body
      rwa [hstate] at hlen
    cases escaped with
    | true =>
      simp only [ImageTap.step, hstate]
      split
      · next hbyte =>
        simp only [joinsWithin, completes, hstate, if_pos hbyte, Option.all_some] at hjoins
        exact h.finishBody hbody hjoins
      · exact hmove .ground tap.dropped (Nat.zero_le _)
    | false =>
      simp only [ImageTap.step, hstate]
      split
      · exact hmove (.body kind body true) tap.dropped hbody
      split
      · next hbel =>
        obtain ⟨rfl, hbyte⟩ := hbel
        simp only [joinsWithin, completes, hstate, if_pos hbyte, Option.all_some] at hjoins
        exact h.finishBody hbody hjoins
      split
      · split <;> exact hmove .ground (tap.dropped + 1) (Nat.zero_le _)
      · next hlen =>
        exact hmove (.body kind (body ++ [byte]) false) tap.dropped (Nat.le_of_not_lt hlen)

end ImageTap

def imageMachine (png : List UInt8 → Option (Nat × Nat × List UInt8)) :
    Machine ImageTap UInt8 where
  init := .new
  step tap byte := some (tap.step png [] byte).1

/-- The memory of the tap is bounded along every stream in which the joined payload of a
transmission never grows past `maxSequenceBytes`. -/
theorem bounded_of_run {png : List UInt8 → Option (Nat × Nat × List UInt8)} {s : List UInt8}
    {tap : ImageTap}
    (hjoins : (imageMachine png).Along (fun tap byte => tap.joinsWithin byte = true) .new s)
    (hrun : (imageMachine png).exec .new s = some tap) :
    tap.Bounded (3 * maxSequenceBytes) := by
  refine (Machine.exec_invariant (I := ImageTap.Within) ?_ ?_ hjoins hrun).bounded
  · intro tap byte tap' h hfits hstep
    obtain rfl := Option.some.inj hstep
    exact h.step hfits
  · refine ⟨@ImageTap.limited_clearStored .new, ?_, Nat.zero_le _⟩
    intro pending hpending
    cases hpending

/-- A chunk of a transmission that announces another one. -/
def moreChunk : List UInt8 :=
  [0x1b, 0x5f, 0x47, 0x6d, 0x3d, 0x31, 0x3b, 0x41, 0x41, 0x41, 0x41, 0x1b, 0x5c]

/-- Two chunks of one transmission are joined within the limit. -/
theorem bounded_of_two_chunks :
    ∃ tap, (imageMachine fun _ => none).exec .new (moreChunk ++ moreChunk) = some tap ∧
      tap.pendingLength = 11 ∧ tap.Bounded (3 * maxSequenceBytes) := by
  have hjoins : (imageMachine fun _ => none).Along (fun tap byte => tap.joinsWithin byte = true)
      .new (moreChunk ++ moreChunk) := by
    decide +kernel
  exact ⟨_, rfl, rfl, bounded_of_run hjoins rfl⟩

def ImageTap.waiting (payload : List UInt8) : ImageTap :=
  { ImageTap.new with pending := some ⟨0, [0x6d, 0x3d, 0x31], payload⟩ }

theorem exec_moreChunk (payload : List UInt8) :
    (imageMachine fun _ => none).exec (.waiting payload) moreChunk =
      some (.waiting (payload ++ [0x41, 0x41, 0x41, 0x41])) := rfl

theorem exec_moreChunks (n : Nat) (payload : List UInt8) :
    ∃ joined, (imageMachine fun _ => none).exec (.waiting payload)
        (List.replicate n moreChunk).flatten = some (.waiting joined) ∧
      joined.length = payload.length + 4 * n := by
  induction n generalizing payload with
  | zero => exact ⟨payload, rfl, rfl⟩
  | succ n ih =>
    obtain ⟨joined, hrun, hlen⟩ := ih (payload ++ [0x41, 0x41, 0x41, 0x41])
    refine ⟨joined, ?_, ?_⟩
    · rw [List.replicate_succ, List.flatten_cons, Machine.exec_append, exec_moreChunk]
      exact hrun
    · rw [hlen, List.length_append]
      simp only [List.length_cons, List.length_nil]
      omega

/-- No bound holds for every stream. -/
theorem not_bounded :
    ¬ ∃ bound, ∀ s tap, (imageMachine fun _ => none).exec .new s = some tap →
      tap.Bounded bound := by
  rintro ⟨bound, hbound⟩
  obtain ⟨joined, hrun, hlen⟩ := exec_moreChunks bound [0x41, 0x41, 0x41, 0x41]
  have hfirst : (imageMachine fun _ => none).exec .new moreChunk =
      some (.waiting [0x41, 0x41, 0x41, 0x41]) := rfl
  have hall := hbound (moreChunk ++ (List.replicate bound moreChunk).flatten) (.waiting joined)
    (by rw [Machine.exec_append, hfirst]; exact hrun)
  have hle : 0 + (3 + joined.length) ≤ bound := hall.buffered_le
  simp only [List.length_cons, List.length_nil] at hlen
  omega

end Goble.Terminal
