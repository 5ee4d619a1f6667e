import Goble.Terminal.ImageBytes

/-!
# Chunked kitty transmissions

A transmission is a list of chunks, all but the last with `m=1`, and several of them may be sent
at once. The tap has one place for a transmission that has not ended, and joins every chunk to
the one that is there, whatever its image id.

`joined_iff_consecutive` is how far that goes: transmissions that are not mixed decode as when they
are sent alone, and of mixed ones that can be decoded alone with no empty chunk before the last,
one does not. In `not_joined` two images of one pixel are mixed: the bytes of one end up in the
other, and it is lost.
-/

namespace Goble.Terminal

open ImageTap (bel stFinal)

/-- One `APC` string of a transmission. -/
structure Chunk where
  control : List UInt8
  payload : List UInt8
deriving DecidableEq, Repr

namespace Chunk

def body (chunk : Chunk) : List UInt8 := 0x47 :: (chunk.control ++ 0x3b :: chunk.payload)

def bytes (chunk : Chunk) : List UInt8 :=
  BodyKind.apc.intro ++ (chunk.body ++ [ImageTap.esc, stFinal])

def more (chunk : Chunk) : Bool := Kitty.more chunk.control

def isValid (chunk : Chunk) : Bool :=
  chunk.body.all BodyKind.apc.holds && chunk.body.length ≤ maxSequenceBytes &&
    chunk.control.all (· ≠ 0x3b) && Text.isUtf8 chunk.control && Text.isUtf8 chunk.payload

/-- A chunk of a transmission of this image: it may leave the id out, and asks for nothing but
the transmission. -/
def belongs (id : Nat) (chunk : Chunk) : Bool :=
  chunk.isValid && (Kitty.imageId chunk.control = 0 || Kitty.imageId chunk.control = id) &&
    Kitty.action chunk.control ≠ some 0x64 && Kitty.action chunk.control ≠ some 0x70

end Chunk

structure IsTransmission (id : Nat) (chunks : List Chunk) : Prop where
  explicit : id ≠ 0 ∧ chunks.head?.any fun chunk => Kitty.imageId chunk.control = id
  belongs : chunks.all (Chunk.belongs id)
  more : chunks.dropLast.all Chunk.more
  last : chunks.getLast?.any fun chunk => !chunk.more

instance (id : Nat) (chunks : List Chunk) : Decidable (IsTransmission id chunks) :=
  decidable_of_iff ((id ≠ 0 ∧ chunks.head?.any fun chunk => Kitty.imageId chunk.control = id) ∧
      chunks.all (Chunk.belongs id) ∧ chunks.dropLast.all Chunk.more ∧
      chunks.getLast?.any fun chunk => !chunk.more)
    ⟨fun ⟨h₁, h₂, h₃, h₄⟩ => ⟨h₁, h₂, h₃, h₄⟩, fun ⟨h₁, h₂, h₃, h₄⟩ => ⟨h₁, h₂, h₃, h₄⟩⟩

/-- Chunks in the order they are sent, each with the image it belongs to. -/
abbrev Sent := List (Nat × Chunk)

namespace Sent

/-- The chunks of one image. -/
def only (sent : Sent) (id : Nat) : Sent := sent.filter (·.1 = id)

/-- Transmissions of different images, one for each, mixed in any way. -/
def Interleaves (sent : Sent) : Prop :=
  ∀ id ∈ sent.map Prod.fst, IsTransmission id ((sent.only id).map Prod.snd)

instance (sent : Sent) : Decidable sent.Interleaves :=
  inferInstanceAs (Decidable (∀ id ∈ sent.map Prod.fst, _))

/-- No chunk of another image comes between two chunks of one. -/
def Consecutive (sent : Sent) : Prop :=
  ∀ x y z, List.Sublist [x, y, z] sent → x.1 = z.1 → y.1 = x.1

def payload (sent : Sent) : List UInt8 := sent.flatMap fun x => x.2.payload

end Sent

section Decoded

variable (png : List UInt8 → Option (Nat × Nat × List UInt8))

def decoded (tap : ImageTap) : Sent → List (Nat × List ImageChunk)
  | [] => []
  | (id, chunk) :: sent =>
    (id, (tap.tap png chunk.bytes).2) :: decoded (tap.tap png chunk.bytes).1 sent

def afterChunks (tap : ImageTap) : Sent → ImageTap
  | [] => tap
  | (_, chunk) :: sent => afterChunks (tap.tap png chunk.bytes).1 sent

def JoinedAt (tap : ImageTap) (sent : Sent) (id : Nat) : Prop :=
  (decoded png tap sent).filter (·.1 = id) = decoded png tap (sent.only id) ∧
    ∀ event, (id, [.image event]) ∈ decoded png tap sent →
      Base64.ofDigits ((sent.only id).payload.map Char.ofUInt8) = some event.payload

def JoinedPerImage (tap : ImageTap) (sent : Sent) : Prop := ∀ id, JoinedAt png tap sent id

theorem decoded_append (tap : ImageTap) (xs ys : Sent) :
    decoded png tap (xs ++ ys) = decoded png tap xs ++ decoded png (afterChunks png tap xs) ys := by
  induction xs generalizing tap with
  | nil => rfl
  | cons x xs ih =>
    obtain ⟨id, chunk⟩ := x
    rw [List.cons_append, decoded, ih, decoded, afterChunks, List.cons_append]

theorem afterChunks_append (tap : ImageTap) (xs ys : Sent) :
    afterChunks png tap (xs ++ ys) = afterChunks png (afterChunks png tap xs) ys := by
  induction xs generalizing tap with
  | nil => rfl
  | cons x xs ih => exact ih _

end Decoded

/-! ### One chunk -/

namespace ImageTap

variable {png : List UInt8 → Option (Nat × Nat × List UInt8)} {tap : ImageTap} {chunk : Chunk}

/-- What an outcome adds to the output. -/
def outcomeChunks : KittyOutcome → List ImageChunk
  | .image event => [.image event]
  | .delete delete => [.delete delete]
  | _ => []

theorem splitBody_chunk (hvalid : chunk.isValid = true) :
    Kitty.splitBody (chunk.control ++ 0x3b :: chunk.payload) =
      some (chunk.control, chunk.payload) := by
  simp only [Chunk.isValid, Bool.and_eq_true, List.all_eq_true, decide_eq_true_eq] at hvalid
  obtain ⟨⟨⟨_, hcontrol⟩, hutf8⟩, hutf8'⟩ := hvalid
  rw [Kitty.splitBody, Text.splitOnce_append _ hcontrol]
  exact if_pos ⟨hutf8, hutf8'⟩

theorem tap_chunk (hstate : tap.state = .ground) (hvalid : chunk.isValid = true) :
    (tap.tap png chunk.bytes).2 = outcomeChunks (tap.parseKitty png chunk.body).2 ∧
      (tap.tap png chunk.bytes).1.state = .ground ∧
      (tap.tap png chunk.bytes).1.pending = (tap.parseKitty png chunk.body).1.pending := by
  simp only [Chunk.isValid, Bool.and_eq_true, List.all_eq_true, decide_eq_true_eq] at hvalid
  obtain ⟨⟨⟨⟨hholds, hlen⟩, _⟩, _⟩, _⟩ := hvalid
  -- the scanner collects the body and ends the string
  have htap : tap.tap png chunk.bytes =
      ((tap.finishBody png .apc chunk.body).1, (tap.finishBody png .apc chunk.body).2.toList) := by
    have hfinish : ∀ state, finishBody png { tap with state } .apc chunk.body =
      tap.finishBody png .apc chunk.body := fun _ => rfl
    have hbody := @feedBytes_body png { tap with state := .body .apc [] false } .apc [] [] rfl
      chunk.body hholds (by simpa using hlen)
    change feedBytes png tap [] (esc :: 0x5f :: (chunk.body ++ [esc, stFinal])) = _
    rw [feedBytes_cons, step_ground_esc [] hstate, feedBytes_cons, step_escape_apc [] rfl,
      feedBytes_append, hbody, feedBytes_cons, step_body_esc [] rfl, feedBytes_cons,
      step_body_final [] rfl, hfinish]
    rfl
  have hground : { tap with state := .ground } = tap := by rw [← hstate]
  have hparsed := @parseKitty_state png tap chunk.body
  rw [htap]
  simp only [finishBody, hground, Chunk.body, List.head?_cons, if_true]
  rw [hstate] at hparsed
  simp only [Chunk.body] at hparsed
  split
  · next houtcome => exact ⟨by rw [houtcome]; rfl, hparsed, rfl⟩
  · next houtcome => exact ⟨by rw [houtcome]; rfl, hparsed, rfl⟩
  · next houtcome => exact ⟨by rw [houtcome]; rfl, hparsed, rfl⟩
  · next houtcome => exact ⟨by rw [houtcome]; rfl, hparsed, rfl⟩
  · next houtcome => exact ⟨by rw [houtcome]; rfl, hparsed, rfl⟩

theorem tap_more (hstate : tap.state = .ground) (hvalid : chunk.isValid = true)
    (hmore : chunk.more = true) :
    (tap.tap png chunk.bytes).2 = [] ∧ (tap.tap png chunk.bytes).1.state = .ground ∧
      (tap.tap png chunk.bytes).1.pending = some (match tap.pending with
        | some pending => { pending with payload := pending.payload ++ chunk.payload }
        | none => ⟨Kitty.imageId chunk.control, chunk.control, chunk.payload⟩) := by
  obtain ⟨hout, hground, hpending⟩ := @tap_chunk png tap chunk hstate hvalid
  rw [hout, hpending]
  simp only [parseKitty, Chunk.body, splitBody_chunk hvalid]
  have hyes : Kitty.more chunk.control = true := hmore
  rw [if_pos hyes]
  cases tap.pending with
  | some pending => exact ⟨rfl, hground, rfl⟩
  | none => exact ⟨rfl, hground, rfl⟩

theorem tap_last (hstate : tap.state = .ground) (hvalid : chunk.isValid = true)
    (hlast : chunk.more = false) {first payload : List UInt8}
    (hjoined : tap.joinPending chunk.control chunk.payload = (first, payload)) :
    (tap.tap png chunk.bytes).2 = outcomeChunks (runKitty png { tap with pending := none }
        ((Kitty.action chunk.control).or (Kitty.action first)) first payload
        (max (Kitty.imageId chunk.control) (Kitty.imageId first))).2 ∧
      (tap.tap png chunk.bytes).1.state = .ground ∧
      (tap.tap png chunk.bytes).1.pending = none := by
  obtain ⟨hout, hground, hpending⟩ := @tap_chunk png tap chunk hstate hvalid
  have hno : ¬ Kitty.more chunk.control = true := Bool.eq_false_iff.mp hlast
  rw [hout, hpending]
  simp only [parseKitty, Chunk.body, splitBody_chunk hvalid]
  rw [if_neg hno, hjoined]
  exact ⟨rfl, hground, congrArg (fun scan => scan.2.1) (runKitty_scan _ _ _ _)⟩

theorem payload_of_decodeTransmission {control payload : List UInt8} {display : Bool}
    {event : ImageEvent} (h : decodeTransmission png control payload display = some event) :
    Base64.ofDigits (payload.map Char.ofUInt8) = some event.payload := by
  simp only [decodeTransmission, Option.bind_eq_bind, Option.bind_eq_some_iff] at h
  obtain ⟨format, -, decoded, hdecoded, h⟩ := h
  split at h
  · cases h
  · obtain ⟨pixels, -, hevent⟩ := Option.bind_eq_some_iff.mp h
    obtain rfl := Option.some.inj hevent
    exact hdecoded

section Transmit

variable {action : Option UInt8} {control payload : List UInt8} {id : Nat}
  (hdelete : action ≠ some 0x64) (hplace : action ≠ some 0x70)

include hdelete hplace

/-- A command that neither deletes nor places an image does with pixels what they say. -/
theorem runKitty_cases :
    (∃ display, ∀ tap : ImageTap, tap.runKitty png action control payload id =
        tap.transmit png control payload display id) ∨
      ∃ outcome, outcomeChunks outcome = [] ∧ ∀ tap : ImageTap,
        tap.runKitty png action control payload id = (tap, outcome) := by
  unfold runKitty
  split
  · exact absurd rfl hdelete
  · exact .inr ⟨.ignored, rfl, fun _ => rfl⟩
  · exact absurd rfl hplace
  · exact .inl ⟨false, fun _ => rfl⟩
  · exact .inl ⟨false, fun _ => rfl⟩
  · exact .inl ⟨true, fun _ => rfl⟩
  · exact .inr ⟨.dropped, rfl, fun _ => rfl⟩

theorem runKitty_outcome (hid : id ≠ 0) (tap tap' : ImageTap) :
    (tap.runKitty png action control payload id).2 =
      (tap'.runKitty png action control payload id).2 := by
  obtain ⟨display, hrun⟩ | ⟨outcome, -, hrun⟩ :=
    @runKitty_cases png action control payload id hdelete hplace
  · have htake : ∀ tap : ImageTap, (tap.takeId (some id)).2 = id := by
      intro tap
      simp [takeId, Option.filter_some, hid]
    rw [hrun, hrun]
    simp only [transmit]
    split
    · rfl
    · simp only [htake]
  · rw [hrun, hrun]

theorem payload_of_runKitty {event : ImageEvent}
    (h : outcomeChunks (tap.runKitty png action control payload id).2 = [.image event]) :
    Base64.ofDigits (payload.map Char.ofUInt8) = some event.payload := by
  obtain ⟨display, hrun⟩ | ⟨outcome, hquiet, hrun⟩ :=
    @runKitty_cases png action control payload id hdelete hplace
  · rw [hrun] at h
    simp only [transmit] at h
    split at h
    · cases h
    · next decoded hdecoded =>
      simp only [outcomeChunks, List.cons.injEq, ImageChunk.image.injEq, and_true] at h
      rw [payload_of_decodeTransmission hdecoded, ← h]
  · rw [hrun, hquiet] at h
    cases h

end Transmit

end ImageTap

/-! ### Chunks up to the last of a transmission -/

variable {sent : Sent} {x : Nat × Chunk}

section Run

open ImageTap (outcomeChunks)

variable {png : List UInt8 → Option (Nat × Nat × List UInt8)} {tap : ImageTap} {xs : Sent}

def Sent.firstControl (sent : Sent) : List UInt8 := (sent.head?.map fun x => x.2.control).getD []

theorem Sent.payload_append (xs ys : Sent) : (xs ++ ys).payload = xs.payload ++ ys.payload :=
  List.flatMap_append

theorem decoded_more (hxs : ∀ x ∈ xs, x.2.isValid = true ∧ x.2.more = true)
    (hstate : tap.state = .ground) {pending : PendingKitty}
    (hpending : tap.pending = some pending) :
    decoded png tap xs = xs.map (fun x => (x.1, [])) ∧
      (afterChunks png tap xs).state = .ground ∧
      (afterChunks png tap xs).pending =
        some { pending with payload := pending.payload ++ xs.payload } := by
  induction xs generalizing tap pending with
  | nil =>
    refine ⟨rfl, hstate, hpending.trans ?_⟩
    rw [Sent.payload, List.flatMap_nil, List.append_nil]
  | cons x xs ih =>
    obtain ⟨hvalid, hmore⟩ := hxs x List.mem_cons_self
    obtain ⟨hout, hground, hjoined⟩ := @ImageTap.tap_more png tap x.2 hstate hvalid hmore
    rw [hpending] at hjoined
    obtain ⟨hrest, hground', hpending'⟩ :=
      ih (fun y hy => hxs y (List.mem_cons_of_mem _ hy)) hground hjoined
    rw [decoded, hout, hrest]
    refine ⟨rfl, hground', hpending'.trans ?_⟩
    simp only [Sent.payload, List.flatMap_cons, List.append_assoc]

variable {id : Nat}

theorem decoded_last {chunk : Chunk} (hxs : ∀ x ∈ xs, x.2.isValid = true ∧ x.2.more = true)
    (hvalid : chunk.isValid = true) (hlast : chunk.more = false) (hstate : tap.state = .ground)
    (hpending : tap.pending = none) :
    ∃ before : ImageTap, decoded png tap (xs ++ [(id, chunk)]) =
        xs.map (fun x => (x.1, [])) ++ [(id, outcomeChunks (before.runKitty png
          ((Kitty.action chunk.control).or (Kitty.action (xs ++ [(id, chunk)]).firstControl))
          (xs ++ [(id, chunk)]).firstControl (xs ++ [(id, chunk)]).payload
          (max (Kitty.imageId chunk.control)
            (Kitty.imageId (xs ++ [(id, chunk)]).firstControl))).2)] ∧
      (afterChunks png tap (xs ++ [(id, chunk)])).state = .ground ∧
      (afterChunks png tap (xs ++ [(id, chunk)])).pending = none := by
  -- all but the last
  obtain ⟨hout, hground, hjoined⟩ : decoded png tap xs = xs.map (fun x => (x.1, [])) ∧
      (afterChunks png tap xs).state = .ground ∧
      (afterChunks png tap xs).joinPending chunk.control chunk.payload =
        ((xs ++ [(id, chunk)]).firstControl, (xs ++ [(id, chunk)]).payload) := by
    cases xs with
    | nil =>
      refine ⟨rfl, hstate, ?_⟩
      rw [afterChunks, ImageTap.joinPending, hpending]
      exact congrArg (Prod.mk _) (List.append_nil _).symm
    | cons x xs =>
      obtain ⟨hvalidx, hmorex⟩ := hxs x List.mem_cons_self
      obtain ⟨houtx, hgroundx, hpendingx⟩ := @ImageTap.tap_more png tap x.2 hstate hvalidx hmorex
      rw [hpending] at hpendingx
      obtain ⟨hout, hground, hjoined⟩ :=
        @decoded_more png _ xs (fun y hy => hxs y (List.mem_cons_of_mem _ hy)) hgroundx _ hpendingx
      rw [decoded, houtx, hout, afterChunks]
      refine ⟨rfl, hground, ?_⟩
      rw [ImageTap.joinPending, hjoined, Sent.payload_append]
      simp only [Sent.firstControl, Sent.payload, List.cons_append, List.head?_cons,
        Option.map_some, Option.getD_some, List.flatMap_cons, List.flatMap_nil, List.append_nil]
  obtain ⟨hanswer, hground', hpending'⟩ :=
    @ImageTap.tap_last png (afterChunks png tap xs) chunk hground hvalid hlast _ _ hjoined
  refine ⟨{ afterChunks png tap xs with pending := none }, ?_, ?_, ?_⟩
  · rw [decoded_append, hout, decoded, hanswer, decoded]
  · rw [afterChunks_append]
    exact hground'
  · rw [afterChunks_append]
    exact hpending'

theorem Chunk.belongs_iff {chunk : Chunk} : chunk.belongs id = true ↔
    chunk.isValid = true ∧
      (Kitty.imageId chunk.control = 0 ∨ Kitty.imageId chunk.control = id) ∧
      Kitty.action chunk.control ≠ some 0x64 ∧ Kitty.action chunk.control ≠ some 0x70 := by
  simp [Chunk.belongs, and_assoc]

/-- The chunks of a transmission: those that announce another one, and the last. -/
theorem IsTransmission.eq_concat (h : IsTransmission id (sent.map Prod.snd))
    (hid : ∀ x ∈ sent, x.1 = id) :
    ∃ xs chunk, sent = xs ++ [(id, chunk)] ∧ (∀ x ∈ xs, x.2.isValid = true ∧ x.2.more = true) ∧
      chunk.isValid = true ∧ chunk.more = false := by
  obtain rfl | ⟨xs, last, rfl⟩ := List.eq_nil_or_concat' sent
  · exact absurd h.last (by decide)
  · have hlast := h.last
    have hmore := h.more
    have hbelongs := h.belongs
    simp only [List.map_append, List.map_cons, List.map_nil, List.dropLast_concat,
      List.getLast?_concat, Option.any_some, Bool.not_eq_true', List.all_append, List.all_map,
      List.all_cons, Bool.and_eq_true, List.all_eq_true, Function.comp_apply]
      at hlast hmore hbelongs
    refine ⟨xs, last.2, ?_, fun x hx => ⟨?_, hmore x hx⟩, ?_, hlast⟩
    · rw [← hid last List.mem_concat_self]
    · exact (Chunk.belongs_iff.mp (hbelongs.1 x hx)).1
    · exact (Chunk.belongs_iff.mp hbelongs.2.1).1

theorem or_ne_some {action first : Option UInt8} {byte : UInt8} (haction : action ≠ some byte)
    (hfirst : first ≠ some byte) : action.or first ≠ some byte := by
  cases action with
  | none => exact hfirst
  | some a => exact haction

theorem IsTransmission.imageId_first (h : IsTransmission id (sent.map Prod.snd)) :
    ∃ first ∈ sent, sent.firstControl = first.2.control ∧ Kitty.imageId sent.firstControl = id := by
  cases sent with
  | nil => exact absurd h.last (by decide)
  | cons first sent =>
    have hexplicit := h.explicit.2
    simp only [List.map_cons, List.head?_cons, Option.any_some, decide_eq_true_eq] at hexplicit
    exact ⟨first, List.mem_cons_self, rfl, hexplicit⟩

theorem IsTransmission.belongs_of_mem (h : IsTransmission id (sent.map Prod.snd)) (hx : x ∈ sent) :
    x.2.belongs id = true :=
  List.all_eq_true.mp h.belongs x.2 (List.mem_map_of_mem hx)

theorem IsTransmission.asks (h : IsTransmission id (sent.map Prod.snd)) (hx : x ∈ sent) :
    (Kitty.action x.2.control).or (Kitty.action sent.firstControl) ≠ some 0x64 ∧
      (Kitty.action x.2.control).or (Kitty.action sent.firstControl) ≠ some 0x70 ∧
      max (Kitty.imageId x.2.control) (Kitty.imageId sent.firstControl) ≠ 0 := by
  obtain ⟨first, hfirst, hcontrol, hid⟩ := h.imageId_first
  obtain ⟨-, -, hdelete, hplace⟩ := Chunk.belongs_iff.mp (h.belongs_of_mem hx)
  obtain ⟨-, -, hdelete', hplace'⟩ := Chunk.belongs_iff.mp (h.belongs_of_mem hfirst)
  rw [← hcontrol] at hdelete' hplace'
  refine ⟨or_ne_some hdelete hdelete', or_ne_some hplace hplace', ?_⟩
  have hne := h.explicit.1
  omega

theorem decoded_transmission (h : IsTransmission id (sent.map Prod.snd))
    (hid : ∀ x ∈ sent, x.1 = id) (hstate : tap.state = .ground) (hpending : tap.pending = none) :
    decoded png tap sent = decoded png .new sent ∧
      (afterChunks png tap sent).state = .ground ∧ (afterChunks png tap sent).pending = none ∧
      ∀ i event, (i, [.image event]) ∈ decoded png tap sent →
        Base64.ofDigits (sent.payload.map Char.ofUInt8) = some event.payload := by
  obtain ⟨xs, chunk, rfl, hxs, hvalid, hlast⟩ := h.eq_concat hid
  obtain ⟨before, hout, hground, hnone⟩ := @decoded_last png tap xs id chunk hxs hvalid hlast
    hstate hpending
  obtain ⟨before', hout', -, -⟩ := @decoded_last png .new xs id chunk hxs hvalid hlast rfl rfl
  obtain ⟨hdelete, hplace, hexplicit⟩ := h.asks List.mem_concat_self
  refine ⟨?_, hground, hnone, fun i event hmem => ?_⟩
  · rw [hout, hout', ImageTap.runKitty_outcome hdelete hplace hexplicit before before']
  · rw [hout] at hmem
    obtain hmem | hmem := List.mem_append.mp hmem
    · obtain ⟨x, -, hx⟩ := List.mem_map.mp hmem
      cases congrArg Prod.snd hx
    · have himage := congrArg Prod.snd (List.mem_singleton.mp hmem)
      exact ImageTap.payload_of_runKitty hdelete hplace himage.symm

theorem map_fst_decoded (png : List UInt8 → Option (Nat × Nat × List UInt8)) (tap : ImageTap)
    (sent : Sent) : (decoded png tap sent).map Prod.fst = sent.map Prod.fst := by
  induction sent generalizing tap with
  | nil => rfl
  | cons x sent ih => exact congrArg (x.1 :: ·) (ih _)

theorem filter_decoded_of_all (h : ∀ x ∈ sent, x.1 = id) :
    (decoded png tap sent).filter (·.1 = id) = decoded png tap sent := by
  refine List.filter_eq_self.mpr fun y hy => ?_
  have hmem : y.1 ∈ sent.map Prod.fst := map_fst_decoded png tap sent ▸ List.mem_map_of_mem hy
  obtain ⟨x, hx, hxy⟩ := List.mem_map.mp hmem
  exact decide_eq_true (hxy.symm.trans (h x hx))

theorem filter_decoded_of_none (h : ∀ x ∈ sent, x.1 ≠ id) :
    (decoded png tap sent).filter (·.1 = id) = [] := by
  refine List.filter_eq_nil_iff.mpr fun y hy => ?_
  have hmem : y.1 ∈ sent.map Prod.fst := map_fst_decoded png tap sent ▸ List.mem_map_of_mem hy
  obtain ⟨x, hx, hxy⟩ := List.mem_map.mp hmem
  simpa [hxy] using h x hx

theorem not_mem_decoded_of_none (h : ∀ x ∈ sent, x.1 ≠ id) (out : List ImageChunk) :
    (id, out) ∉ decoded png tap sent := by
  intro hmem
  have hfilter : (id, out) ∈ (decoded png tap sent).filter (·.1 = id) :=
    List.mem_filter.mpr ⟨hmem, decide_eq_true rfl⟩
  rw [filter_decoded_of_none h] at hfilter
  cases hfilter

end Run

/-! ### A whole transmission at the front -/

section Blocks

variable {png : List UInt8 → Option (Nat × Nat × List UInt8)} {tap : ImageTap}

theorem Sent.only_eq {id : Nat} (x : Nat × Chunk) (hx : x ∈ sent.only id) :
    x.1 = id :=
  of_decide_eq_true (List.mem_filter.mp hx).2

theorem Sent.only_append (xs ys : Sent) (id : Nat) :
    Sent.only (xs ++ ys) id = xs.only id ++ ys.only id :=
  List.filter_append ..

theorem Sent.only_cons_self (chunk : Chunk) (sent : Sent) (id : Nat) :
    Sent.only ((id, chunk) :: sent) id = (id, chunk) :: sent.only id := by
  simp [Sent.only]

theorem Sent.only_of_all {id : Nat} (h : ∀ x ∈ sent, x.1 = id) :
    sent.only id = sent :=
  List.filter_eq_self.mpr fun x hx => decide_eq_true (h x hx)

theorem Sent.only_of_none {id : Nat} (h : ∀ x ∈ sent, x.1 ≠ id) :
    sent.only id = [] :=
  List.filter_eq_nil_iff.mpr fun x hx => by simpa using h x hx

theorem Sent.Interleaves.exists_not_more (h : sent.Interleaves) (hx : x ∈ sent) :
    ∃ z ∈ sent, z.1 = x.1 ∧ z.2.more = false := by
  obtain ⟨ys, last, hys, -, -, hlast⟩ :=
    (h x.1 (List.mem_map_of_mem hx)).eq_concat fun y hy => Sent.only_eq y hy
  have hmem : (x.1, last) ∈ sent.only x.1 := hys ▸ List.mem_concat_self
  exact ⟨(x.1, last), List.mem_of_mem_filter hmem, rfl, hlast⟩

/-- Where the first transmission to end does end. -/
theorem Sent.Interleaves.exists_last (h : sent.Interleaves) (hne : sent ≠ []) :
    ∃ (xs : Sent) (id : Nat) (chunk : Chunk) (rest : Sent), sent = xs ++ (id, chunk) :: rest ∧
      (∀ x ∈ xs, x.2.more = true) ∧ chunk.more = false ∧ ∀ x ∈ rest, x.1 ≠ id := by
  obtain ⟨head, hhead⟩ := List.exists_mem_of_ne_nil sent hne
  obtain ⟨z, hz, -, hzlast⟩ := h.exists_not_more hhead
  have hsome : (sent.find? fun x => !x.2.more).isSome = true :=
    List.find?_isSome.mpr ⟨z, hz, by rw [hzlast]; rfl⟩
  obtain ⟨⟨id, chunk⟩, hfind⟩ := Option.isSome_iff_exists.mp hsome
  obtain ⟨hlast, xs, rest, hsent, hxs⟩ := List.find?_eq_some_iff_append.mp hfind
  refine ⟨xs, id, chunk, rest, hsent, fun x hx => by simpa using hxs x hx,
    by simpa using hlast, ?_⟩
  -- the transmission of this chunk has no other that does not announce another one
  have hmem : (id, chunk) ∈ sent := hsent ▸ List.mem_append_right _ List.mem_cons_self
  obtain ⟨ys, last, hys, hmore, -, -⟩ :=
    (h id (List.mem_map_of_mem hmem)).eq_concat fun y hy => Sent.only_eq y hy
  intro w hw hwid
  obtain hnil | ⟨zs, v, hzs⟩ := List.eq_nil_or_concat' (Sent.only rest id)
  · have hwmem : w ∈ Sent.only rest id := List.mem_filter.mpr ⟨hw, decide_eq_true hwid⟩
    rw [hnil] at hwmem
    cases hwmem
  · have hsplit : (Sent.only xs id ++ (id, chunk) :: zs) ++ [v] = ys ++ [(id, last)] := by
      rw [← hys, hsent, Sent.only_append, List.append_assoc, List.cons_append, ← hzs]
      exact congrArg (Sent.only xs id ++ ·) (Sent.only_cons_self chunk rest id).symm
    have hys' := List.append_inj_left' hsplit rfl
    have hchunk := hmore (id, chunk) (hys' ▸ List.mem_append_right _ List.mem_cons_self)
    rw [Bool.not_eq_true'] at hlast
    exact Bool.false_ne_true (hlast.symm.trans hchunk.2)

section Front

variable {id : Nat} {block rest : Sent} (hblock : ∀ x ∈ block, x.1 = id)
  (hrest : ∀ x ∈ rest, x.1 ≠ id)

include hblock in
theorem Sent.only_block_append {other : Nat} (hother : other ≠ id) :
    Sent.only (block ++ rest) other = rest.only other := by
  have hnone : ∀ x ∈ block, x.1 ≠ other := fun x hx h => hother (h.symm.trans (hblock x hx))
  rw [Sent.only_append, Sent.only_of_none hnone, List.nil_append]

include hblock hrest

theorem Sent.only_block_self : Sent.only (block ++ rest) id = block := by
  rw [Sent.only_append, Sent.only_of_all hblock, Sent.only_of_none hrest, List.append_nil]

theorem Sent.Interleaves.of_append (h : Sent.Interleaves (block ++ rest)) : rest.Interleaves := by
  intro other hother
  obtain ⟨x, hx, rfl⟩ := List.mem_map.mp hother
  have htransmission := h x.1 (List.mem_map_of_mem (List.mem_append_right _ hx))
  rwa [Sent.only_block_append hblock (hrest x hx)] at htransmission

theorem Sent.consecutive_append : Sent.Consecutive (block ++ rest) ↔ rest.Consecutive := by
  constructor
  · exact fun h x y z hsub => h x y z (hsub.trans (List.sublist_append_right _ _))
  · intro h x y z hsub hxz
    obtain ⟨front, back, hsplit, hfront, hback⟩ := List.sublist_append_iff.mp hsub
    match front, hsplit with
    | [], hsplit =>
      rw [List.nil_append] at hsplit
      exact h x y z (hsplit ▸ hback) hxz
    | [a], hsplit =>
      obtain ⟨rfl, rfl⟩ := List.cons.inj hsplit
      have hx := hblock x (hfront.subset List.mem_cons_self)
      have hz := hrest z (hback.subset (List.mem_cons_of_mem _ List.mem_cons_self))
      exact absurd (hxz.symm.trans hx) hz
    | a :: b :: front, hsplit =>
      simp only [List.cons_append, List.cons.injEq] at hsplit
      obtain ⟨rfl, rfl, -⟩ := hsplit
      rw [hblock y (hfront.subset (List.mem_cons_of_mem _ List.mem_cons_self)),
        hblock x (hfront.subset List.mem_cons_self)]

/-- The transmission at the front decodes as when it is sent on its own. -/
theorem joinedAt_block (htransmission : IsTransmission id (block.map Prod.snd))
    (hstate : tap.state = .ground) (hpending : tap.pending = none) :
    JoinedAt png tap (block ++ rest) id := by
  obtain ⟨-, -, -, hpayload⟩ := @decoded_transmission block png tap id htransmission hblock hstate
    hpending
  rw [JoinedAt, Sent.only_block_self hblock hrest, decoded_append]
  constructor
  · rw [List.filter_append, filter_decoded_of_all hblock, filter_decoded_of_none hrest,
      List.append_nil]
  · intro event hmem
    obtain hmem | hmem := List.mem_append.mp hmem
    · exact hpayload id event hmem
    · exact absurd hmem (not_mem_decoded_of_none hrest _)

/-- It has no part in what becomes of the others. -/
theorem joinedAt_append (h : Sent.Interleaves (block ++ rest))
    (htransmission : IsTransmission id (block.map Prod.snd)) (hstate : tap.state = .ground)
    (hpending : tap.pending = none) {other : Nat} (hother : other ≠ id) :
    JoinedAt png tap (block ++ rest) other ↔
      JoinedAt png (afterChunks png tap block) rest other := by
  obtain ⟨-, hground, hnone, -⟩ := @decoded_transmission block png tap id htransmission hblock
    hstate hpending
  have hfilter : (decoded png tap (block ++ rest)).filter (·.1 = other) =
      (decoded png (afterChunks png tap block) rest).filter (·.1 = other) := by
    have hblock' : ∀ x ∈ block, x.1 ≠ other := fun x hx h => hother (h.symm.trans (hblock x hx))
    rw [decoded_append, List.filter_append, filter_decoded_of_none hblock', List.nil_append]
  have hmem : ∀ event, (other, [ImageChunk.image event]) ∈ decoded png tap (block ++ rest) ↔
      (other, [.image event]) ∈ decoded png (afterChunks png tap block) rest := by
    intro event
    have hiff := congrArg ((other, [ImageChunk.image event]) ∈ ·) hfilter
    simpa only [List.mem_filter, decide_true, and_true, eq_iff_iff] using hiff
  have halone : decoded png tap (Sent.only rest other) =
      decoded png (afterChunks png tap block) (Sent.only rest other) := by
    by_cases hsent : other ∈ rest.map Prod.fst
    · have hot := h.of_append hblock hrest other hsent
      rw [(decoded_transmission hot (fun x hx => Sent.only_eq x hx) hstate hpending).1,
        (decoded_transmission hot (fun x hx => Sent.only_eq x hx) hground hnone).1]
    · have hnil : Sent.only rest other = [] :=
        Sent.only_of_none fun x hx hid => hsent (hid ▸ List.mem_map_of_mem hx)
      rw [hnil]
      rfl
  rw [JoinedAt, JoinedAt, Sent.only_block_append hblock hother, hfilter, halone]
  exact and_congr_right fun _ => forall_congr' fun event => imp_congr_left (hmem event)

theorem joinedPerImage_append (h : Sent.Interleaves (block ++ rest))
    (htransmission : IsTransmission id (block.map Prod.snd)) (hstate : tap.state = .ground)
    (hpending : tap.pending = none) :
    JoinedPerImage png tap (block ++ rest) ↔
      JoinedPerImage png (afterChunks png tap block) rest := by
  constructor
  · intro hjoined other
    by_cases hother : other = id
    · subst hother
      refine ⟨?_, fun event hmem => absurd hmem (not_mem_decoded_of_none hrest _)⟩
      rw [filter_decoded_of_none hrest, Sent.only_of_none hrest]
      rfl
    · exact (joinedAt_append hblock hrest h htransmission hstate hpending hother).mp (hjoined other)
  · intro hjoined other
    by_cases hother : other = id
    · subst hother
      exact joinedAt_block hblock hrest htransmission hstate hpending
    · exact (joinedAt_append hblock hrest h htransmission hstate hpending hother).mpr
        (hjoined other)

end Front

section Cut

variable {xs rest : Sent} {id : Nat} {chunk : Chunk}

/-- If nothing is mixed, the chunks up to the first last one are of its image. -/
theorem eq_of_consecutive (h : Sent.Interleaves (xs ++ (id, chunk) :: rest))
    (hxs : ∀ x ∈ xs, x.2.more = true)
    (hconsecutive : Sent.Consecutive (xs ++ (id, chunk) :: rest)) :
    ∀ x ∈ xs, x.1 = id := by
  intro x hx
  by_contra hne
  obtain ⟨z, hz, hzx, hlast⟩ := h.exists_not_more (List.mem_append_left _ hx)
  -- the last chunk of the other image comes after the one of this image
  have hzrest : z ∈ rest := by
    obtain hz | hz := List.mem_append.mp hz
    · exact absurd ((hxs z hz).symm.trans hlast) (by decide)
    · obtain rfl | hz := List.mem_cons.mp hz
      · exact absurd hzx.symm hne
      · exact hz
  have hsub : List.Sublist [x, (id, chunk), z] (xs ++ (id, chunk) :: rest) :=
    (List.singleton_sublist.mpr hx).append
      ((List.singleton_sublist.mpr hzrest).cons_cons (id, chunk))
  exact hne (hconsecutive x (id, chunk) z hsub hzx.symm).symm

theorem Sent.only_cons_ne (hne : x.1 ≠ id) (sent : Sent) :
    Sent.only (x :: sent) id = sent.only id := by
  simp [Sent.only, hne]

theorem Sent.payload_cons (x : Nat × Chunk) (sent : Sent) :
    Sent.payload (x :: sent) = x.2.payload ++ sent.payload := rfl

theorem Sent.length_payload_only_le (xs : Sent) (id : Nat) :
    (xs.only id).payload.length ≤ xs.payload.length := by
  induction xs with
  | nil => exact Nat.le_refl _
  | cons x xs ih =>
    obtain ⟨i, chunk⟩ := x
    rw [Sent.payload_cons, List.length_append]
    by_cases hi : i = id
    · subst hi
      rw [Sent.only_cons_self, Sent.payload_cons, List.length_append]
      omega
    · rw [Sent.only_cons_ne hi]
      omega

/-- Leaving out a chunk leaves out its payload. -/
theorem Sent.length_payload_only_lt (hx : x ∈ xs) (hne : x.1 ≠ id)
    (hxs : ∀ x ∈ xs, x.2.payload ≠ []) : (xs.only id).payload.length < xs.payload.length := by
  obtain ⟨before, after, rfl⟩ := List.append_of_mem hx
  have hbefore := Sent.length_payload_only_le before id
  have hafter := Sent.length_payload_only_le after id
  have hpos : 0 < x.2.payload.length := List.length_pos_iff.mpr (hxs x hx)
  rw [Sent.only_append, Sent.only_cons_ne hne, Sent.payload_append, Sent.payload_append,
    Sent.payload_cons, List.length_append, List.length_append, List.length_append]
  omega

theorem ofUInt8_injective : Function.Injective Char.ofUInt8 := by
  intro a b h
  have htoNat := congrArg Char.toNat h
  exact UInt8.toNat_inj.mp htoNat

theorem decoded_mixed (hbelongs : ∀ y ∈ xs ++ [(id, chunk)], y.2.belongs y.1 = true)
    (hxs : ∀ x ∈ xs, x.2.more = true) (hlast : chunk.more = false) (hstate : tap.state = .ground)
    (hpending : tap.pending = none) :
    ∃ out, decoded png tap (xs ++ [(id, chunk)]) = xs.map (fun x => (x.1, [])) ++ [(id, out)] ∧
      ∀ event, out = [.image event] →
        Base64.ofDigits ((Sent.payload (xs ++ [(id, chunk)])).map Char.ofUInt8) =
          some event.payload := by
  have hvalid : ∀ y ∈ xs, y.2.isValid = true ∧ y.2.more = true := fun y hy =>
    ⟨(Chunk.belongs_iff.mp (hbelongs y (List.mem_append_left _ hy))).1, hxs y hy⟩
  obtain ⟨hvalidChunk, -, hdelete, hplace⟩ :=
    Chunk.belongs_iff.mp (hbelongs _ List.mem_concat_self)
  obtain ⟨before, hout, -, -⟩ := @decoded_last png tap xs id chunk hvalid hvalidChunk hlast hstate
    hpending
  -- the control text is that of one of the chunks
  obtain ⟨first, hfirst, hcontrol⟩ : ∃ y ∈ xs ++ [(id, chunk)],
      Sent.firstControl (xs ++ [(id, chunk)]) = y.2.control := by
    cases xs with
    | nil => exact ⟨_, List.mem_cons_self, rfl⟩
    | cons y xs => exact ⟨y, List.mem_cons_self, rfl⟩
  obtain ⟨-, -, hdelete', hplace'⟩ := Chunk.belongs_iff.mp (hbelongs first hfirst)
  rw [← hcontrol] at hdelete' hplace'
  exact ⟨_, hout, fun event himage =>
    ImageTap.payload_of_runKitty (or_ne_some hdelete hdelete') (or_ne_some hplace hplace') himage⟩

theorem eq_of_joined (h : Sent.Interleaves (xs ++ (id, chunk) :: rest))
    (hxs : ∀ x ∈ xs, x.2.more = true) (hlast : chunk.more = false) (hrest : ∀ x ∈ rest, x.1 ≠ id)
    (hstate : tap.state = .ground) (hpending : tap.pending = none)
    (hpayload : ∀ x ∈ xs, x.2.payload ≠ []) {event : ImageEvent}
    (hdecodes : (id, [.image event]) ∈
      decoded png .new (Sent.only (xs ++ (id, chunk) :: rest) id))
    (hjoined : JoinedAt png tap (xs ++ (id, chunk) :: rest) id) :
    ∀ x ∈ xs, x.1 = id := by
  intro x hx
  by_contra hne
  have hsent : xs ++ (id, chunk) :: rest = (xs ++ [(id, chunk)]) ++ rest := List.append_cons ..
  have hmine : Sent.only (xs ++ (id, chunk) :: rest) id = xs.only id ++ [(id, chunk)] := by
    rw [Sent.only_append, Sent.only_cons_self, Sent.only_of_none hrest]
  have hbelongs : ∀ y ∈ xs ++ [(id, chunk)], y.2.belongs y.1 = true := by
    intro y hy
    have hy' : y ∈ xs ++ (id, chunk) :: rest := hsent ▸ List.mem_append_left _ hy
    exact (h y.1 (List.mem_map_of_mem hy')).belongs_of_mem
      (List.mem_filter.mpr ⟨hy', decide_eq_true rfl⟩)
  have htransmission := h id (List.mem_map_of_mem
    (List.mem_append_right xs (List.mem_cons_self (a := (id, chunk)))))
  rw [hmine] at htransmission hdecodes
  -- the answer to the last chunk, with the others mixed in and on its own
  obtain ⟨out, hout, hdecoded⟩ := @decoded_mixed png tap xs id chunk hbelongs hxs hlast hstate
    hpending
  obtain ⟨out', hout', hdecoded'⟩ := @decoded_mixed png tap (xs.only id) id chunk
    (fun y hy => hbelongs y ((List.filter_sublist.append_right _).subset hy))
    (fun y hy => hxs y (List.mem_of_mem_filter hy)) hlast hstate hpending
  have himage' : out' = [.image event] := by
    have hids : ∀ y ∈ xs.only id ++ [(id, chunk)], y.1 = id :=
      fun y hy => Sent.only_eq y (hmine ▸ hy)
    rw [← (decoded_transmission htransmission hids hstate hpending).1, hout'] at hdecodes
    obtain hmem | hmem := List.mem_append.mp hdecodes
    · obtain ⟨y, -, hy⟩ := List.mem_map.mp hmem
      cases congrArg Prod.snd hy
    · exact (congrArg Prod.snd (List.mem_singleton.mp hmem)).symm
  have hsame : out = out' := by
    have hfilter := hjoined.1
    have hself : [(id, out)].filter (·.1 = id) = [(id, out)] := by simp
    rw [hmine, hout', hsent, decoded_append, hout, List.filter_append, List.filter_append, hself,
      filter_decoded_of_none hrest, List.append_nil] at hfilter
    exact congrArg Prod.snd (List.singleton_inj.mp (List.append_inj_right' hfilter rfl))
  -- so the payloads are the same, but those that are mixed in are not empty
  have hpayloads :
      Sent.payload (xs ++ [(id, chunk)]) = Sent.payload (xs.only id ++ [(id, chunk)]) := by
    have hdigits := Base64.digits_of_ofDigits (hdecoded event (hsame.trans himage'))
    have hdigits' := Base64.digits_of_ofDigits (hdecoded' event himage')
    exact List.map_injective_iff.mpr ofUInt8_injective (hdigits.symm.trans hdigits')
  have hlt := Sent.length_payload_only_lt hx hne hpayload
  rw [Sent.payload_append, Sent.payload_append] at hpayloads
  have hlen := congrArg List.length (List.append_cancel_right hpayloads)
  omega

theorem mem_block (hids : ∀ x ∈ xs, x.1 = id) : ∀ x ∈ xs ++ [(id, chunk)], x.1 = id := by
  intro x hx
  obtain hx | hx := List.mem_append.mp hx
  · exact hids x hx
  · rw [List.mem_singleton.mp hx]

theorem front_of_eq (png : List UInt8 → Option (Nat × Nat × List UInt8))
    (h : Sent.Interleaves (xs ++ (id, chunk) :: rest)) (hids : ∀ x ∈ xs, x.1 = id)
    (hrest : ∀ x ∈ rest, x.1 ≠ id) (hstate : tap.state = .ground) (hpending : tap.pending = none) :
    rest.Interleaves ∧ (afterChunks png tap (xs ++ [(id, chunk)])).state = .ground ∧
      (afterChunks png tap (xs ++ [(id, chunk)])).pending = none ∧
      (JoinedPerImage png tap (xs ++ (id, chunk) :: rest) ↔
        JoinedPerImage png (afterChunks png tap (xs ++ [(id, chunk)])) rest) ∧
      (Sent.Consecutive (xs ++ (id, chunk) :: rest) ↔ rest.Consecutive) := by
  have hblock := @mem_block xs id chunk hids
  have htransmission := h id (List.mem_map_of_mem
    (List.mem_append_right xs (List.mem_cons_self (a := (id, chunk)))))
  have hsplit : xs ++ (id, chunk) :: rest = (xs ++ [(id, chunk)]) ++ rest := List.append_cons ..
  rw [hsplit] at h htransmission ⊢
  rw [Sent.only_block_self hblock hrest] at htransmission
  obtain ⟨-, hground, hnone, -⟩ := @decoded_transmission _ png tap id htransmission hblock hstate
    hpending
  exact ⟨h.of_append hblock hrest, hground, hnone,
    joinedPerImage_append hblock hrest h htransmission hstate hpending,
    Sent.consecutive_append hblock hrest⟩

end Cut

end Blocks

/-- **Transmissions are joined as long as they are not mixed.** If the chunks of each image come one
after the other, every image decodes as when it is sent on its own, from its own payloads. If they
do not, some image does not, unless one would not decode anyway or has an empty chunk before its
last one. -/
theorem joined_iff_consecutive (png : List UInt8 → Option (Nat × Nat × List UInt8))
    {tap : ImageTap} {sent : Sent} (hsent : sent.Interleaves) (hstate : tap.state = .ground)
    (hpending : tap.pending = none) :
    (sent.Consecutive → JoinedPerImage png tap sent) ∧
      ((∀ id ∈ sent.map Prod.fst, ∃ event, (id, [.image event]) ∈ decoded png .new (sent.only id)) →
        (∀ x ∈ sent, x.2.more = true → x.2.payload ≠ []) →
        JoinedPerImage png tap sent → sent.Consecutive) := by
  induction hlen : sent.length using Nat.strongRecOn generalizing tap sent with
  | _ n ih =>
    subst hlen
    by_cases hne : sent = []
    · subst hne
      refine ⟨fun _ id => ⟨rfl, fun event hmem => absurd hmem List.not_mem_nil⟩, ?_⟩
      intro _ _ _ x y z hsub
      cases hsub
    · -- the transmission that ends first is a block at the front in both directions
      obtain ⟨xs, id, chunk, rest, rfl, hxs, hlast, hrest⟩ := hsent.exists_last hne
      have hshorter : rest.length < (xs ++ (id, chunk) :: rest).length := by
        rw [List.length_append, List.length_cons]
        omega
      constructor
      · intro hconsecutive
        have hids := eq_of_consecutive hsent hxs hconsecutive
        obtain ⟨hinter, hground, hnone, hjoined, hcons⟩ :=
          front_of_eq png hsent hids hrest hstate hpending
        exact hjoined.mpr ((ih _ hshorter hinter hground hnone rfl).1 (hcons.mp hconsecutive))
      · intro hdecodes hpayload hall
        have hmem : (id, chunk) ∈ xs ++ (id, chunk) :: rest :=
          List.mem_append_right _ List.mem_cons_self
        obtain ⟨event, hevent⟩ := hdecodes id (List.mem_map_of_mem hmem)
        have hids := eq_of_joined hsent hxs hlast hrest hstate hpending
          (fun x hx => hpayload x (List.mem_append_left _ hx) (hxs x hx)) hevent (hall id)
        obtain ⟨hinter, hground, hnone, hjoined, hcons⟩ :=
          front_of_eq png hsent hids hrest hstate hpending
        refine hcons.mpr ((ih _ hshorter hinter hground hnone rfl).2 ?_ ?_ (hjoined.mp hall))
        · intro other hother
          obtain ⟨x, hx, rfl⟩ := List.mem_map.mp hother
          obtain ⟨event, hevent⟩ := hdecodes x.1
            (List.mem_map_of_mem (List.mem_append_right _ (List.mem_cons_of_mem _ hx)))
          refine ⟨event, ?_⟩
          rwa [List.append_cons, Sent.only_block_append (mem_block hids) (hrest x hx)] at hevent
        · exact fun x hx =>
            hpayload x (List.mem_append_right _ (List.mem_cons_of_mem _ hx))

def twoImages : Sent :=
  -- `a=T,f=32,s=1,v=1,i=1,m=1;/wAA` and `m=0;/w==`
  [(1, ⟨[0x61, 0x3d, 0x54, 0x2c, 0x66, 0x3d, 0x33, 0x32, 0x2c, 0x73, 0x3d, 0x31, 0x2c, 0x76, 0x3d,
      0x31, 0x2c, 0x69, 0x3d, 0x31, 0x2c, 0x6d, 0x3d, 0x31], [0x2f, 0x77, 0x41, 0x41]⟩),
    (1, ⟨[0x6d, 0x3d, 0x30], [0x2f, 0x77, 0x3d, 0x3d]⟩),
    -- the same with `i=2`
    (2, ⟨[0x61, 0x3d, 0x54, 0x2c, 0x66, 0x3d, 0x33, 0x32, 0x2c, 0x73, 0x3d, 0x31, 0x2c, 0x76, 0x3d,
      0x31, 0x2c, 0x69, 0x3d, 0x32, 0x2c, 0x6d, 0x3d, 0x31], [0x2f, 0x77, 0x41, 0x41]⟩),
    (2, ⟨[0x6d, 0x3d, 0x30], [0x2f, 0x77, 0x3d, 0x3d]⟩)]

/-- The same, the second chunks after both first ones. -/
def twoImagesMixed : Sent :=
  [twoImages[0], twoImages[2], twoImages[1], twoImages[3]]

theorem consecutive_twoImages : twoImages.Consecutive := by
  have hfirst := @Sent.consecutive_append 1 (twoImages.take 2) (twoImages.drop 2) (by decide)
    (by decide)
  have hsecond := @Sent.consecutive_append 2 (twoImages.drop 2) [] (by decide) (by decide)
  rw [List.append_nil] at hsecond
  refine hfirst.mpr (hsecond.mpr fun x y z hsub => ?_)
  cases hsub

theorem joined_twoImages : JoinedPerImage (fun _ => none) .new twoImages := by
  have hinter : twoImages.Interleaves := by decide +kernel
  exact (joined_iff_consecutive (fun _ => none) hinter rfl rfl).1 consecutive_twoImages

/-- The first image ends with the bytes of the second in it, and the second is lost. -/
theorem not_joined :
    twoImagesMixed.Interleaves ∧ ¬ JoinedPerImage (fun _ => none) .new twoImagesMixed ∧
      decoded (fun _ => none) .new twoImagesMixed = [(1, []), (2, []),
        (1, [.image ⟨1, .kittyRgba, 1, 1, [255, 0, 0, 255, 0, 0, 255], some [255, 0, 0, 255],
          none, none, true⟩]), (2, [])] ∧
      ∀ id ∈ [1, 2], decoded (fun _ => none) .new (twoImagesMixed.only id) = [(id, []),
        (id, [.image ⟨id, .kittyRgba, 1, 1, [255, 0, 0, 255], some [255, 0, 0, 255], none, none,
          true⟩])] := by
  refine ⟨by decide +kernel, fun hjoined => ?_, by decide +kernel, by decide +kernel⟩
  have hne : (decoded (fun _ => none) .new twoImagesMixed).filter (·.1 = 2) ≠
      decoded (fun _ => none) .new (twoImagesMixed.only 2) := by
    decide +kernel
  exact hne (hjoined 2).1

end Goble.Terminal
