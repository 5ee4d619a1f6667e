import Mathlib.Data.List.Forall2
import Goble.Terminal.Image

/-!
# What the image tap passes through

`pieces` cuts a whole stream, without looking at how it is read, into single bytes and escapes,
and strings that are complete, broken off, too long or cut short by the end of the stream.
`passed_eq_pieces` says for every cutting of the stream into reads what is passed through of each
piece: everything, but for kitty and sixel strings and the `APC` strings that grow too long.

Two pieces lose their end on the way. Of a foreign `APC` string ended by `BEL` the terminator is
replaced by `ESC \`, and of a string that the stream ends in after an `ESC` that `ESC` is lost
(`Piece.Emits` leaves the end of both open).
-/

namespace Goble.Terminal

open ImageTap (bel stFinal)

def BodyKind.holds (kind : BodyKind) (byte : UInt8) : Bool :=
  byte ≠ ImageTap.esc && !(kind = .apc && byte = bel)

inductive Piece where
  /-- Outside of strings: a byte, or an escape that introduces none. -/
  | text (bytes : List UInt8)
  /-- A complete string. -/
  | string (kind : BodyKind) (body : List UInt8) (terminator : List UInt8)
  /-- A string that an `ESC` without `\` breaks off. -/
  | broken (kind : BodyKind) (body : List UInt8) (byte : UInt8)
  /-- The introducer and the bytes up to the first one too many. -/
  | oversized (kind : BodyKind) (body : List UInt8)
  /-- The stream ends inside a string, with an `ESC` as its last byte or not. -/
  | incomplete (kind : BodyKind) (body : List UInt8) (escaped : Bool)
deriving DecidableEq, Repr

def stringPiece (kind : BodyKind) (s : List UInt8) : Piece × List UInt8 :=
  let body := s.takeWhile kind.holds
  if maxSequenceBytes < body.length then
    (.oversized kind (s.take (maxSequenceBytes + 1)), s.drop (maxSequenceBytes + 1))
  else
    match s.dropWhile kind.holds with
    | [] => (.incomplete kind body false, [])
    | [0x1b] => (.incomplete kind body true, [])
    | 0x1b :: byte :: rest =>
      if byte = stFinal then (.string kind body [ImageTap.esc, stFinal], rest)
      else (.broken kind body byte, rest)
    | _ :: rest => (.string kind body [bel], rest)

/-- The ways a string can go on. -/
inductive StringCut (kind : BodyKind) (s : List UInt8) : Piece → List UInt8 → Prop
  | oversized {body rest : List UInt8} (hs : s = body ++ rest)
    (hbody : ∀ byte ∈ body, kind.holds byte = true)
    (hlen : body.length = maxSequenceBytes + 1) :
    StringCut kind s (.oversized kind body) rest
  | complete {body rest : List UInt8} (hs : s = body ++ ImageTap.esc :: stFinal :: rest)
    (hbody : ∀ byte ∈ body, kind.holds byte = true) (hlen : body.length ≤ maxSequenceBytes) :
    StringCut kind s (.string kind body [ImageTap.esc, stFinal]) rest
  | bell {body rest : List UInt8} (hs : s = body ++ bel :: rest) (hkind : kind = .apc)
    (hbody : ∀ byte ∈ body, kind.holds byte = true) (hlen : body.length ≤ maxSequenceBytes) :
    StringCut kind s (.string kind body [bel]) rest
  | broken {body rest : List UInt8} {byte : UInt8} (hs : s = body ++ ImageTap.esc :: byte :: rest)
    (hbyte : byte ≠ stFinal) (hbody : ∀ byte ∈ body, kind.holds byte = true)
    (hlen : body.length ≤ maxSequenceBytes) :
    StringCut kind s (.broken kind body byte) rest
  | incomplete (hbody : ∀ byte ∈ s, kind.holds byte = true) (hlen : s.length ≤ maxSequenceBytes) :
    StringCut kind s (.incomplete kind s false) []
  | escaped {body : List UInt8} (hs : s = body ++ [ImageTap.esc])
    (hbody : ∀ byte ∈ body, kind.holds byte = true) (hlen : body.length ≤ maxSequenceBytes) :
    StringCut kind s (.incomplete kind body true) []

theorem BodyKind.eq_of_not_holds {kind : BodyKind} {byte : UInt8}
    (h : kind.holds byte = false) : byte = ImageTap.esc ∨ kind = .apc ∧ byte = bel := by
  by_cases hbyte : byte = ImageTap.esc
  · exact .inl hbyte
  · simp only [holds, hbyte, ne_eq, not_false_iff, decide_true, Bool.true_and, Bool.not_eq_false',
      Bool.and_eq_true, decide_eq_true_eq] at h
    exact .inr h

theorem BodyKind.holds_iff {kind : BodyKind} {byte : UInt8} :
    kind.holds byte = true ↔ byte ≠ ImageTap.esc ∧ ¬ (kind = .apc ∧ byte = bel) := by
  rw [holds, Bool.and_eq_true, decide_eq_true_eq, Bool.not_eq_true', ← Bool.not_eq_true,
    Bool.and_eq_true, decide_eq_true_eq, decide_eq_true_eq]

theorem stringPiece_cut (kind : BodyKind) (s : List UInt8) :
    StringCut kind s (stringPiece kind s).1 (stringPiece kind s).2 := by
  have hbody : ∀ byte ∈ s.takeWhile kind.holds, kind.holds byte = true :=
    fun byte hbyte => List.all_eq_true.mp List.all_takeWhile byte hbyte
  have hs : s = s.takeWhile kind.holds ++ s.dropWhile kind.holds :=
    List.takeWhile_append_dropWhile.symm
  simp only [stringPiece]
  split
  · next hlen =>
    -- the bytes up to the first one too many are all bytes of the body
    have htake : s.take (maxSequenceBytes + 1) =
        (s.takeWhile kind.holds).take (maxSequenceBytes + 1) := by
      have happ : (s.takeWhile kind.holds ++ s.dropWhile kind.holds).take (maxSequenceBytes + 1) =
        (s.takeWhile kind.holds).take (maxSequenceBytes + 1) := List.take_append_of_le_length hlen
      rwa [← hs] at happ
    refine .oversized (List.take_append_drop _ s).symm ?_ ?_
    · rw [htake]
      exact fun byte hbyte => hbody byte (List.mem_of_mem_take hbyte)
    · rw [htake, List.length_take]
      omega
  · next hlen =>
    rw [Nat.not_lt] at hlen
    split
    · next hdrop =>
      rw [hdrop, List.append_nil] at hs
      rw [← hs] at hbody hlen ⊢
      exact .incomplete hbody hlen
    · next hdrop =>
      rw [hdrop] at hs
      exact .escaped hs hbody hlen
    · next byte rest hdrop =>
      rw [hdrop] at hs
      split
      · next hbyte =>
        rw [hbyte] at hs
        exact .complete hs hbody hlen
      · next hbyte => exact .broken hs hbyte hbody hlen
    · next byte rest hend hmore hdrop =>
      -- the byte after the body is one that it cannot hold
      have hfalse : kind.holds byte = false := by
        have hne : s.dropWhile kind.holds ≠ [] := by
          rw [hdrop]
          exact List.cons_ne_nil _ _
        have hhead := List.head_dropWhile_not kind.holds hne
        simpa only [hdrop, List.head_cons] using hhead
      rw [hdrop] at hs
      obtain rfl | ⟨hkind, rfl⟩ := BodyKind.eq_of_not_holds hfalse
      · cases rest with
        | nil => exact absurd rfl (hend rfl)
        | cons next rest => exact absurd rfl (hmore next rest rfl)
      · exact .bell hs hkind hbody hlen

theorem length_stringPiece (kind : BodyKind) (s : List UInt8) :
    (stringPiece kind s).2.length ≤ s.length := by
  generalize hpiece : (stringPiece kind s).1 = piece
  generalize hrest : (stringPiece kind s).2 = rest
  have hcut := stringPiece_cut kind s
  rw [hpiece, hrest] at hcut
  cases hcut with
  | oversized hs | complete hs | bell hs | broken hs =>
    rw [hs]
    simp only [List.length_append, List.length_cons]
    omega
  | incomplete | escaped => exact Nat.zero_le _

def pieces (s : List UInt8) : List Piece :=
  match s with
  | [] => []
  | [0x1b] => [.text [ImageTap.esc]]
  | 0x1b :: 0x5f :: s =>
    have := length_stringPiece .apc s
    (stringPiece .apc s).1 :: pieces (stringPiece .apc s).2
  | 0x1b :: 0x50 :: s =>
    have := length_stringPiece .dcs s
    (stringPiece .dcs s).1 :: pieces (stringPiece .dcs s).2
  | 0x1b :: 0x1b :: s => .text [ImageTap.esc] :: pieces (0x1b :: s)
  | 0x1b :: byte :: s => .text [ImageTap.esc, byte] :: pieces s
  | byte :: s => .text [byte] :: pieces s
termination_by s.length
decreasing_by all_goals simp only [List.length_cons] at *; omega

namespace Piece

/-- The bytes of the stream that make up the piece. -/
def bytes : Piece → List UInt8
  | text bytes => bytes
  | string kind body terminator => kind.intro ++ body ++ terminator
  | broken kind body byte => kind.intro ++ body ++ [ImageTap.esc, byte]
  | oversized kind body => kind.intro ++ body
  | incomplete kind body escaped => kind.intro ++ body ++ if escaped then [ImageTap.esc] else []

/-- A complete image sequence: kitty graphics or sixel. -/
def isImage : Piece → Bool
  | string .apc body _ => body.head? = some 0x47
  | string .dcs body _ => (sixelPayload body).isSome
  | _ => false

def emitted (piece : Piece) : List UInt8 :=
  if piece.isImage then []
  else
    match piece with
    | text bytes => bytes
    | string kind body _ => kind.intro ++ body ++ [ImageTap.esc, stFinal]
    | broken kind body byte => kind.intro ++ body ++ [ImageTap.esc, byte]
    | oversized .apc _ => []
    | oversized .dcs body => BodyKind.dcs.intro ++ body
    | incomplete kind body _ => kind.intro ++ body

theorem emitted_image {piece : Piece} (h : piece.isImage = true) : piece.emitted = [] :=
  if_pos h

theorem emitted_foreign {kind : BodyKind} {body terminator : List UInt8}
    (h : (string kind body terminator).isImage = false) :
    (string kind body terminator).emitted = kind.intro ++ body ++ [ImageTap.esc, stFinal] :=
  if_neg (Bool.eq_false_iff.mp h)

end Piece

theorem bytes_stringPiece (kind : BodyKind) (s : List UInt8) :
    kind.intro ++ s = (stringPiece kind s).1.bytes ++ (stringPiece kind s).2 := by
  generalize hpiece : (stringPiece kind s).1 = piece
  generalize hrest : (stringPiece kind s).2 = rest
  have hcut := stringPiece_cut kind s
  rw [hpiece, hrest] at hcut
  cases hcut with
  | oversized hs | complete hs | bell hs | broken hs =>
    rw [hs]
    simp [Piece.bytes]
  | incomplete => simp [Piece.bytes]
  | escaped hs =>
    rw [hs]
    simp [Piece.bytes]

theorem flatMap_pieces (s : List UInt8) : (pieces s).flatMap Piece.bytes = s := by
  fun_induction pieces s with
  | case1 => rfl
  | case2 => rfl
  | case3 s _ ih =>
    rw [List.flatMap_cons, ih, ← bytes_stringPiece]
    rfl
  | case4 s _ ih =>
    rw [List.flatMap_cons, ih, ← bytes_stringPiece]
    rfl
  | case5 s ih =>
    rw [List.flatMap_cons, ih]
    rfl
  | case6 byte s _ _ _ ih =>
    rw [List.flatMap_cons, ih]
    rfl
  | case7 byte s _ _ _ _ _ ih =>
    rw [List.flatMap_cons, ih]
    rfl

def passed (chunks : List ImageChunk) : List UInt8 :=
  chunks.flatMap fun
    | .bytes bytes => bytes
    | _ => []

@[simp] theorem passed_append (xs ys : List ImageChunk) :
    passed (xs ++ ys) = passed xs ++ passed ys :=
  List.flatMap_append

@[simp] theorem passed_bytes (bytes : List UInt8) : passed [.bytes bytes] = bytes :=
  List.append_nil bytes

namespace ImageTap

variable (png : List UInt8 → Option (Nat × Nat × List UInt8)) {tap : ImageTap}

@[simp] theorem passed_pushBytes (out : List ImageChunk) (bytes : List UInt8) :
    passed (pushBytes out bytes) = passed out ++ bytes := by
  fun_induction pushBytes out bytes with
  | case1 existing bytes => simp
  | case2 chunk next out bytes ih =>
    have hcons : ∀ chunks, passed (chunk :: chunks) = passed [chunk] ++ passed chunks :=
      fun chunks => passed_append [chunk] chunks
    rw [hcons (pushBytes (next :: out) bytes), ih, hcons (next :: out), List.append_assoc]
  | case3 out bytes => rw [passed_append, passed_bytes]

theorem feedBytes_cons (out : List ImageChunk) (byte : UInt8) (input : List UInt8) :
    feedBytes png tap out (byte :: input) =
      feedBytes png (tap.step png out byte).1 (tap.step png out byte).2 input := rfl

theorem feedBytes_append (out : List ImageChunk) (xs ys : List UInt8) :
    feedBytes png tap out (xs ++ ys) =
      feedBytes png (feedBytes png tap out xs).1 (feedBytes png tap out xs).2 ys := by
  induction xs generalizing tap out with
  | nil => rfl
  | cons byte xs ih => rw [List.cons_append, feedBytes_cons, ih, feedBytes_cons]

section Step

variable {png} {kind : BodyKind} {body : List UInt8} {byte : UInt8} (out : List ImageChunk)

theorem step_ground_esc (hstate : tap.state = .ground) :
    tap.step png out esc = ({ tap with state := .escape }, out) := by
  simp only [step, hstate, if_pos]

theorem step_ground_other (hstate : tap.state = .ground) (hbyte : byte ≠ esc) :
    tap.step png out byte = (tap, pushBytes out [byte]) := by
  simp only [step, hstate, if_neg hbyte]

theorem step_escape_apc (hstate : tap.state = .escape) :
    tap.step png out 0x5f = ({ tap with state := .body .apc [] false }, out) := by
  simp only [step, hstate, if_pos]

theorem step_escape_dcs (hstate : tap.state = .escape) :
    tap.step png out 0x50 = ({ tap with state := .body .dcs [] false }, out) := by
  have hne : (0x50 : UInt8) ≠ 0x5f := by decide
  simp only [step, hstate, if_neg hne, if_pos]

theorem step_escape_esc (hstate : tap.state = .escape) :
    tap.step png out 0x1b = (tap, pushBytes out [esc]) := by
  have hapc : (0x1b : UInt8) ≠ 0x5f := by decide
  have hdcs : (0x1b : UInt8) ≠ 0x50 := by decide
  have hesc : (0x1b : UInt8) = esc := rfl
  simp only [step, hstate, if_neg hapc, if_neg hdcs, if_pos hesc]

theorem step_escape_other (hstate : tap.state = .escape) (hapc : byte ≠ 0x5f)
    (hdcs : byte ≠ 0x50) (hesc : byte ≠ esc) :
    tap.step png out byte = ({ tap with state := .ground }, pushBytes out [esc, byte]) := by
  simp only [step, hstate, if_neg hapc, if_neg hdcs, if_neg hesc]

theorem step_body_esc (hstate : tap.state = .body kind body false) :
    tap.step png out esc = ({ tap with state := .body kind body true }, out) := by
  simp only [step, hstate, if_pos]

theorem step_body_final (hstate : tap.state = .body kind body true) :
    tap.step png out stFinal =
      ((tap.finishBody png kind body).1, out ++ (tap.finishBody png kind body).2.toList) := by
  simp only [step, hstate, if_pos]

theorem step_body_broken (hstate : tap.state = .body kind body true) (hbyte : byte ≠ stFinal) :
    tap.step png out byte =
      ({ tap with state := .ground }, out ++ [.bytes (kind.intro ++ body ++ [esc, byte])]) := by
  simp only [step, hstate, if_neg hbyte]

theorem step_body_bel (hstate : tap.state = .body .apc body false) :
    tap.step png out bel =
      ((tap.finishBody png .apc body).1, out ++ (tap.finishBody png .apc body).2.toList) := by
  have hne : bel ≠ esc := by decide
  simp only [step, hstate, if_neg hne, true_and, if_pos]

theorem step_body_grow (hstate : tap.state = .body kind body false)
    (hholds : kind.holds byte = true) (hlen : body.length < maxSequenceBytes) :
    tap.step png out byte = ({ tap with state := .body kind (body ++ [byte]) false }, out) := by
  obtain ⟨hesc, hbel⟩ := BodyKind.holds_iff.mp hholds
  have hfits : ¬ maxSequenceBytes < (body ++ [byte]).length := by
    rw [List.length_append, List.length_singleton]
    omega
  simp only [step, hstate, if_neg hesc, if_neg hbel, if_neg hfits]

theorem step_body_over (hstate : tap.state = .body kind body false)
    (hholds : kind.holds byte = true) (hlen : body.length = maxSequenceBytes) :
    tap.step png out byte = ({ tap with state := .ground, dropped := tap.dropped + 1 },
      out ++ if kind = .dcs then [.bytes (kind.intro ++ (body ++ [byte]))] else []) := by
  obtain ⟨hesc, hbel⟩ := BodyKind.holds_iff.mp hholds
  have hover : maxSequenceBytes < (body ++ [byte]).length := by
    rw [List.length_append, List.length_singleton]
    omega
  simp only [step, hstate, if_neg hesc, if_neg hbel, if_pos hover]
  split
  · rfl
  · rw [List.append_nil]

end Step

theorem feedBytes_body {kind : BodyKind} {body : List UInt8} (out : List ImageChunk)
    (hstate : tap.state = .body kind body false) {bytes : List UInt8}
    (hbytes : ∀ byte ∈ bytes, kind.holds byte = true)
    (hlen : body.length + bytes.length ≤ maxSequenceBytes) :
    feedBytes png tap out bytes =
      ({ tap with state := .body kind (body ++ bytes) false }, out) := by
  induction bytes generalizing tap body with
  | nil =>
    rw [List.append_nil, ← hstate]
    rfl
  | cons byte bytes ih =>
    rw [List.length_cons] at hlen
    rw [feedBytes_cons, step_body_grow out hstate (hbytes byte List.mem_cons_self) (by omega),
      ih rfl fun b hb => hbytes b (List.mem_cons_of_mem _ hb)]
    · rw [List.append_assoc]
      rfl
    · rw [List.length_append, List.length_singleton]
      omega

/-- A string that has ended: nothing of an image, and all of another one. -/
theorem finishBody_spec (kind : BodyKind) (body terminator : List UInt8) :
    (tap.finishBody png kind body).1.state = .ground ∧
      passed (tap.finishBody png kind body).2.toList =
        (Piece.string kind body terminator).emitted := by
  cases kind with
  | apc =>
    simp only [finishBody]
    split
    · next hkitty =>
      have hground := @parseKitty_state png { tap with state := .ground } body
      have himage : (Piece.string .apc body terminator).isImage = true := decide_eq_true hkitty
      rw [Piece.emitted_image himage]
      split <;> exact ⟨hground, rfl⟩
    · next hkitty =>
      have hforeign : (Piece.string .apc body terminator).isImage = false :=
        decide_eq_false hkitty
      rw [Piece.emitted_foreign hforeign]
      exact ⟨rfl, passed_bytes _⟩
  | dcs =>
    simp only [finishBody]
    split
    · next data hdata =>
      have himage : (Piece.string .dcs body terminator).isImage = true :=
        Option.isSome_of_eq_some hdata
      rw [Piece.emitted_image himage]
      split
      · have hscan := @takeId_scan { tap with state := .ground } none
        exact ⟨congrArg Prod.fst hscan, rfl⟩
      · exact ⟨rfl, rfl⟩
    · next hdata =>
      have hforeign : (Piece.string .dcs body terminator).isImage = false := by
        rw [Piece.isImage, hdata, Option.isSome_none]
      rw [Piece.emitted_foreign hforeign]
      exact ⟨rfl, passed_bytes _⟩

/-- What is passed through of some input, the end of the stream included. -/
def total (tap : ImageTap) (out : List ImageChunk) (input : List UInt8) : List UInt8 :=
  passed (feedBytes png tap out input).2 ++ passed (feedBytes png tap out input).1.flush.2

theorem total_cons (out : List ImageChunk) (byte : UInt8) (input : List UInt8) :
    total png tap out (byte :: input) =
      total png (tap.step png out byte).1 (tap.step png out byte).2 input := rfl

theorem total_append (out : List ImageChunk) (xs ys : List UInt8) :
    total png tap out (xs ++ ys) =
      total png (feedBytes png tap out xs).1 (feedBytes png tap out xs).2 ys := by
  rw [total, feedBytes_append]
  rfl

theorem total_nil (out : List ImageChunk) (hstate : tap.state = .ground) :
    total png tap out [] = passed out := by
  rw [total, flush, feedBytes, hstate]
  exact List.append_nil _

/-- Nothing comes after the end of the stream. -/
theorem tail_eq_nil {tail : List UInt8}
    (hrest : ∀ (tap : ImageTap) (out : List ImageChunk), tap.state = .ground →
      total png tap out [] = passed out ++ tail) : tail = [] :=
  ((total_nil png [] rfl).symm.trans (hrest new [] rfl)).symm

theorem total_string {kind : BodyKind} {s rest tail : List UInt8} {piece : Piece}
    (hcut : StringCut kind s piece rest)
    (hrest : ∀ (tap : ImageTap) (out : List ImageChunk), tap.state = .ground →
      total png tap out rest = passed out ++ tail)
    (out : List ImageChunk) (hstate : tap.state = .body kind [] false) :
    total png tap out s = passed out ++ (piece.emitted ++ tail) := by
  have hfeed : ∀ body : List UInt8, (∀ byte ∈ body, kind.holds byte = true) →
      body.length ≤ maxSequenceBytes →
      feedBytes png tap out body = ({ tap with state := .body kind body false }, out) := by
    intro body hbody hlen
    have hgrow := feedBytes_body png out hstate hbody (by simpa using hlen)
    rwa [List.nil_append] at hgrow
  cases hcut with
  | @complete body _ hs hbody hlen =>
    obtain ⟨hground, hpassed⟩ := @finishBody_spec png
      { tap with state := .body kind body true } kind body [esc, stFinal]
    rw [hs, total_append, hfeed body hbody hlen, total_cons, step_body_esc out rfl, total_cons,
      step_body_final out rfl, hrest _ _ hground, passed_append, hpassed, List.append_assoc]
  | @bell body _ hs hkind hbody hlen =>
    subst hkind
    obtain ⟨hground, hpassed⟩ := @finishBody_spec png
      { tap with state := .body .apc body false } .apc body [bel]
    rw [hs, total_append, hfeed body hbody hlen, total_cons, step_body_bel out rfl,
      hrest _ _ hground, passed_append, hpassed, List.append_assoc]
  | @broken body _ byte hs hbyte hbody hlen =>
    rw [hs, total_append, hfeed body hbody hlen, total_cons, step_body_esc out rfl, total_cons,
      step_body_broken out rfl hbyte, hrest _ _ rfl, passed_append, passed_bytes,
      List.append_assoc]
    rfl
  | @oversized body _ hs hbody hlen =>
    -- all but the last byte of the body are still collected
    obtain ⟨held, last, rfl⟩ : ∃ held last, body = held ++ [last] := by
      refine ⟨body.dropLast, body.getLast ?_, (List.dropLast_concat_getLast _).symm⟩
      rintro rfl
      cases hlen
    rw [List.length_append, List.length_singleton, Nat.add_right_cancel_iff] at hlen
    have hheld : ∀ byte ∈ held, kind.holds byte = true :=
      fun byte hbyte => hbody byte (List.mem_append_left _ hbyte)
    have hlast : kind.holds last = true := hbody last List.mem_concat_self
    rw [hs, List.append_assoc, total_append, hfeed held hheld (Nat.le_of_eq hlen),
      List.singleton_append,
      total_cons, step_body_over out rfl hlast hlen, hrest _ _ rfl, passed_append,
      List.append_assoc]
    cases kind <;> simp [Piece.emitted, Piece.isImage, passed]
  | incomplete hbody hlen =>
    rw [total, hfeed s hbody hlen, tail_eq_nil png hrest, List.append_nil]
    exact congrArg (passed out ++ ·) (passed_bytes _)
  | @escaped body hs hbody hlen =>
    rw [hs, total_append, hfeed body hbody hlen, total_cons, step_body_esc out rfl, total,
      tail_eq_nil png hrest, List.append_nil]
    exact congrArg (passed out ++ ·) (passed_bytes _)

theorem total_esc (s : List UInt8) (out : List ImageChunk) (hstate : tap.state = .ground) :
    total png tap out (0x1b :: s) = total png { tap with state := .escape } out s :=
  congrArg (fun r => total png r.1 r.2 s) (step_ground_esc out hstate)

theorem total_eq_pieces (s : List UInt8) (out : List ImageChunk) (hstate : tap.state = .ground) :
    total png tap out s = passed out ++ (pieces s).flatMap Piece.emitted := by
  fun_induction pieces s generalizing tap out with
  | case1 => rw [total_nil png out hstate, List.flatMap_nil, List.append_nil]
  | case2 =>
    rw [total_esc png [] out hstate]
    rfl
  | case3 s _ ih =>
    rw [total_esc png _ out hstate, total_cons, step_escape_apc out rfl,
      total_string png (stringPiece_cut .apc s) (fun _ out => ih out) out rfl,
      List.flatMap_cons]
  | case4 s _ ih =>
    rw [total_esc png _ out hstate, total_cons, step_escape_dcs out rfl,
      total_string png (stringPiece_cut .dcs s) (fun _ out => ih out) out rfl,
      List.flatMap_cons]
  | case5 s ih =>
    -- the second `ESC` may introduce a string itself
    have hagain : total png tap out (0x1b :: 0x1b :: s) =
        total png tap (pushBytes out [esc]) (0x1b :: s) := by
      rw [total_esc png _ out hstate, total_cons, step_escape_esc out rfl,
        total_esc png _ _ hstate]
    rw [hagain, ih _ hstate, passed_pushBytes, List.append_assoc, List.flatMap_cons]
    rfl
  | case6 byte s hapc hdcs hesc ih =>
    rw [total_esc png _ out hstate, total_cons,
      step_escape_other out rfl hapc hdcs hesc, ih _ rfl, passed_pushBytes, List.append_assoc,
      List.flatMap_cons]
    rfl
  | case7 byte s hend _ _ _ hmore ih =>
    have hne : byte ≠ esc := by
      intro hesc
      cases s with
      | nil => exact hend hesc rfl
      | cons next s => exact hmore next s hesc rfl
    rw [total_cons, step_ground_other out hstate hne, ih _ hstate, passed_pushBytes,
      List.append_assoc, List.flatMap_cons]
    rfl

theorem step_out (byte : UInt8) : ∃ (next : ImageTap) (bytes : List UInt8), ∀ out,
    (tap.step png out byte).1 = next ∧ passed (tap.step png out byte).2 = passed out ++ bytes := by
  have hnone : ∀ out : List ImageChunk, passed out = passed out ++ [] :=
    fun out => (List.append_nil _).symm
  cases hstate : tap.state with
  | ground =>
    simp only [step, hstate]
    split
    · exact ⟨_, [], fun out => ⟨rfl, hnone out⟩⟩
    · exact ⟨_, _, fun out => ⟨rfl, passed_pushBytes out _⟩⟩
  | escape =>
    simp only [step, hstate]
    split
    · exact ⟨_, [], fun out => ⟨rfl, hnone out⟩⟩
    split
    · exact ⟨_, [], fun out => ⟨rfl, hnone out⟩⟩
    split
    · exact ⟨_, _, fun out => ⟨rfl, passed_pushBytes out _⟩⟩
    · exact ⟨_, _, fun out => ⟨rfl, passed_pushBytes out _⟩⟩
  | body kind body escaped =>
    cases escaped with
    | true =>
      simp only [step, hstate]
      split
      · exact ⟨_, _, fun out => ⟨rfl, passed_append out _⟩⟩
      · exact ⟨_, _, fun out => ⟨rfl, passed_append out _⟩⟩
    | false =>
      simp only [step, hstate]
      split
      · exact ⟨_, [], fun out => ⟨rfl, hnone out⟩⟩
      split
      · exact ⟨_, _, fun out => ⟨rfl, passed_append out _⟩⟩
      split
      · split
        · exact ⟨_, _, fun out => ⟨rfl, passed_append out _⟩⟩
        · exact ⟨_, [], fun out => ⟨rfl, hnone out⟩⟩
      · exact ⟨_, [], fun out => ⟨rfl, hnone out⟩⟩

theorem feedBytes_out (tap : ImageTap) (input : List UInt8) :
    ∃ (next : ImageTap) (bytes : List UInt8), ∀ out, (feedBytes png tap out input).1 = next ∧
      passed (feedBytes png tap out input).2 = passed out ++ bytes := by
  induction input generalizing tap with
  | nil => exact ⟨tap, [], fun out => ⟨rfl, (List.append_nil _).symm⟩⟩
  | cons byte input ih =>
    obtain ⟨mid, bytes, hstep⟩ := @step_out png tap byte
    obtain ⟨next, more, hmore⟩ := ih mid
    refine ⟨next, bytes ++ more, fun out => ?_⟩
    obtain ⟨hmid, hbytes⟩ := hstep out
    rw [feedBytes_cons, hmid, (hmore _).1, (hmore _).2, hbytes, List.append_assoc]
    exact ⟨rfl, rfl⟩

end ImageTap

def passedThrough (png : List UInt8 → Option (Nat × Nat × List UInt8)) (tap : ImageTap) :
    List (List UInt8) → List UInt8
  | [] => passed tap.flush.2
  | chunk :: chunks =>
    passed (tap.tap png chunk).2 ++ passedThrough png (tap.tap png chunk).1 chunks

/-- How the stream is cut does not matter. -/
theorem passedThrough_eq_total (png : List UInt8 → Option (Nat × Nat × List UInt8))
    (tap : ImageTap) (chunks : List (List UInt8)) :
    passedThrough png tap chunks = ImageTap.total png tap [] chunks.flatten := by
  induction chunks generalizing tap with
  | nil => rfl
  | cons chunk chunks ih =>
    obtain ⟨next, bytes, hout⟩ :=
      ImageTap.feedBytes_out png (ImageTap.feedBytes png tap [] chunk).1 chunks.flatten
    rw [passedThrough, ih, List.flatten_cons, ImageTap.total_append, ImageTap.total,
      ImageTap.total, ImageTap.tap, (hout _).1, (hout _).2, (hout _).1, (hout _).2,
      List.append_assoc]
    have hnil : passed [] = [] := rfl
    rw [hnil, List.nil_append, List.append_assoc]

namespace Piece

/-- What may come out of the tap for a piece. The end of a foreign `APC` string that `BEL`
terminates, and of a string the stream ends in after an `ESC`, is left open. -/
def Emits (piece : Piece) (out : List UInt8) : Prop :=
  match piece with
  | string kind body terminator =>
    if piece.isImage then out = []
    else if terminator = [bel] then ∃ ending, out = kind.intro ++ body ++ ending
    else out = piece.bytes
  | oversized .apc _ => out = []
  | incomplete kind body true => ∃ ending, out = kind.intro ++ body ++ ending
  | piece => out = piece.bytes

theorem emits_emitted_of_cut {kind : BodyKind} {s rest : List UInt8} {piece : Piece}
    (hcut : StringCut kind s piece rest) : piece.Emits piece.emitted := by
  cases hcut with
  | @complete body =>
    have hterminator : [ImageTap.esc, stFinal] ≠ [bel] := by decide
    rw [Emits, if_neg hterminator]
    split
    · next himage => exact emitted_image himage
    · next hforeign => exact if_neg hforeign
  | @bell body =>
    rw [Emits, if_pos rfl]
    split
    · next himage => exact emitted_image himage
    · next hforeign => exact ⟨[ImageTap.esc, stFinal], if_neg hforeign⟩
  | oversized => cases kind <;> rfl
  | broken => rfl
  | incomplete => exact (List.append_nil _).symm
  | escaped => exact ⟨[], (List.append_nil _).symm⟩

theorem emits_emitted (s : List UInt8) : ∀ piece ∈ pieces s, piece.Emits piece.emitted := by
  fun_induction pieces s with
  | case1 => exact fun _ hmem => absurd hmem List.not_mem_nil
  | case2 => exact List.forall_mem_singleton.mpr rfl
  | case3 s _ ih =>
    exact List.forall_mem_cons.mpr ⟨emits_emitted_of_cut (stringPiece_cut .apc s), ih⟩
  | case4 s _ ih =>
    exact List.forall_mem_cons.mpr ⟨emits_emitted_of_cut (stringPiece_cut .dcs s), ih⟩
  | case5 s ih => exact List.forall_mem_cons.mpr ⟨rfl, ih⟩
  | case6 byte s _ _ _ ih => exact List.forall_mem_cons.mpr ⟨rfl, ih⟩
  | case7 byte s _ _ _ _ _ ih => exact List.forall_mem_cons.mpr ⟨rfl, ih⟩

/-- The stream without its image sequences and all strings over the limit, and nothing else. -/
def kept (piece : Piece) : List UInt8 :=
  match piece with
  | oversized _ _ => []
  | piece => if piece.isImage then [] else piece.bytes

end Piece

/-- **The tap conserves bytes.** However the stream is cut into reads, what is passed through is
the stream piece by piece, without the kitty and sixel sequences and the head of the `APC`
strings over the limit. -/
theorem passed_eq_pieces (png : List UInt8 → Option (Nat × Nat × List UInt8))
    (chunks : List (List UInt8)) :
    ∃ outs, passedThrough png .new chunks = outs.flatten ∧
      List.Forall₂ Piece.Emits (pieces chunks.flatten) outs ∧
      (pieces chunks.flatten).flatMap Piece.bytes = chunks.flatten := by
  refine ⟨(pieces chunks.flatten).map Piece.emitted, ?_, ?_, flatMap_pieces _⟩
  · rw [passedThrough_eq_total, ImageTap.total_eq_pieces png _ [] rfl, List.flatMap_def]
    rfl
  · exact List.forall₂_map_right_iff.mpr (List.forall₂_same.mpr (Piece.emits_emitted _))

/-- A `DCS` string one byte over the limit. -/
def oversizedDcs : List UInt8 :=
  0x1b :: 0x50 :: List.replicate (maxSequenceBytes + 1) 0x78

theorem pieces_oversizedDcs :
    pieces oversizedDcs = [.oversized .dcs (List.replicate (maxSequenceBytes + 1) 0x78)] := by
  have htake : (List.replicate (maxSequenceBytes + 1) (0x78 : UInt8)).takeWhile
      BodyKind.dcs.holds = List.replicate (maxSequenceBytes + 1) 0x78 := by
    rw [List.takeWhile_replicate]
    rfl
  have hpiece : stringPiece .dcs (List.replicate (maxSequenceBytes + 1) 0x78) =
      (.oversized .dcs (List.replicate (maxSequenceBytes + 1) 0x78), []) := by
    rw [stringPiece, htake, List.length_replicate, if_pos (Nat.lt_succ_self _),
      List.take_of_length_le (Nat.le_of_eq List.length_replicate), List.drop_eq_nil_of_le]
    exact Nat.le_of_eq List.length_replicate
  rw [oversizedDcs, pieces, hpiece, pieces]

/-- A `DCS` string over the limit is passed through; the `BEL` of a foreign `APC` string and the
`ESC` a stream ends with inside a string are not. -/
theorem passed_ne_kept :
    passedThrough (fun _ => none) .new [oversizedDcs] ≠ (pieces oversizedDcs).flatMap Piece.kept ∧
      passedThrough (fun _ => none) .new [[0x1b, 0x5f, 0x78, 0x07]] ≠
        (pieces [0x1b, 0x5f, 0x78, 0x07]).flatMap Piece.kept ∧
      passedThrough (fun _ => none) .new [[0x1b, 0x5f, 0x78, 0x1b]] ≠
        (pieces [0x1b, 0x5f, 0x78, 0x1b]).flatMap Piece.kept := by
  have hbell : pieces [0x1b, 0x5f, 0x78, 0x07] = [.string .apc [0x78] [bel]] := by
    have hpiece : stringPiece .apc [0x78, 0x07] = (.string .apc [0x78] [bel], []) := by
      decide +kernel
    rw [pieces, hpiece, pieces]
  have hescaped : pieces [0x1b, 0x5f, 0x78, 0x1b] = [.incomplete .apc [0x78] true] := by
    have hpiece : stringPiece .apc [0x78, 0x1b] = (.incomplete .apc [0x78] true, []) := by
      decide +kernel
    rw [pieces, hpiece, pieces]
  have hover : ∀ body, passed [] ++ [Piece.oversized .dcs body].flatMap Piece.emitted ≠
      [Piece.oversized .dcs body].flatMap Piece.kept := fun body => List.cons_ne_nil _ _
  refine ⟨?_, ?_, ?_⟩
  · rw [passedThrough_eq_total, ImageTap.total_eq_pieces _ _ [] rfl, List.flatten_singleton,
      pieces_oversizedDcs]
    exact hover _
  · rw [passedThrough_eq_total, ImageTap.total_eq_pieces _ _ [] rfl, List.flatten_singleton, hbell]
    decide
  · rw [passedThrough_eq_total, ImageTap.total_eq_pieces _ _ [] rfl, List.flatten_singleton,
      hescaped]
    decide

end Goble.Terminal
