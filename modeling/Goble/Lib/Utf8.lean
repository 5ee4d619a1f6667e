import Goble.Lib.Text
import Goble.Lib.Transducer
import Mathlib.Order.Nat

/-!
# Lossy decoding

`String::from_utf8_lossy`: every byte sequence decodes to a text, in which each sequence that no
character begins with is one replacement character. It is a transducer over the bytes (`lossyStep`)
that gives up the character under way at the end of the input.

A text decoded in pieces is therefore the text decoded whole exactly if no piece ends inside a
character that the next byte goes on with (`flatMap_lossy_eq_iff`); every such cut makes the text
longer. What encodes a text decodes to it (`lossy_encode`).
-/

namespace Goble.Text

/-- A character under way: what it still wants, and its bits so far. -/
structure Pending where
  owed : Owed
  code : Nat
deriving DecidableEq, Repr

namespace Pending

/-- Between two characters. -/
def none : Pending := ⟨.none, 0⟩

/-- The byte goes on with the character that is under way. -/
def Continues (p : Pending) (byte : UInt8) : Prop :=
  p.owed.count ≠ 0 ∧ (utf8Step p.owed byte).isSome

instance (p : Pending) (byte : UInt8) : Decidable (p.Continues byte) :=
  inferInstanceAs (Decidable (_ ∧ _))

end Pending

def replacement : Char := Char.ofNat 0xfffd

/-- The bits of the code point in the first byte of a character. -/
def leadBits (byte : UInt8) : Nat :=
  if byte < 0x80 then byte.toNat
  else if byte < 0xe0 then byte.toNat % 0x20
  else if byte < 0xf0 then byte.toNat % 0x10
  else byte.toNat % 8

/-- What a byte that is taken makes of the character: it is complete, or it goes on. -/
def advance (owed : Owed) (code : Nat) : Pending × List Char :=
  if owed.count = 0 then (.none, [Char.ofNat code]) else (⟨owed, code⟩, [])

/-- A byte between two characters. -/
def lossyStart (byte : UInt8) : Pending × List Char :=
  match utf8Step .none byte with
  | some owed => advance owed (leadBits byte)
  | none => (.none, [replacement])

/-- One byte. One that does not go on with the character under way replaces that, and begins
another. -/
def lossyStep (p : Pending) (byte : UInt8) : Pending × List Char :=
  if p.owed.count = 0 then lossyStart byte
  else
    match utf8Step p.owed byte with
    | some owed => advance owed (p.code * 64 + byte.toNat % 64)
    | none =>
      let (p', out) := lossyStart byte
      (p', replacement :: out)

/-- What is under way when the input ends. -/
def Pending.flush (p : Pending) : List Char := if p.owed.count = 0 then [] else [replacement]

/-- What is under way after some bytes. -/
def pendingAfter (bytes : List UInt8) : Pending := (Transducer.run lossyStep .none bytes).1

/-- What the bytes decode to from the middle of a character. -/
def lossyFrom (p : Pending) (bytes : List UInt8) : List Char :=
  let (p', out) := Transducer.run lossyStep p bytes
  out ++ p'.flush

/-- `String::from_utf8_lossy(bytes)` -/
def lossy (bytes : List UInt8) : List Char := lossyFrom .none bytes

example : lossy [0x61, 0xc3, 0xa9, 0xe2, 0x82, 0x62] = ['a', 'é', replacement, 'b'] := by decide

/-- No piece ends inside a character that the bytes after it go on with. -/
def CutsBetween : List (List UInt8) → Prop
  | [] => True
  | piece :: pieces =>
    (∀ byte ∈ pieces.flatten.head?, ¬ (pendingAfter piece).Continues byte) ∧ CutsBetween pieces

instance decidableCutsBetween : ∀ pieces, Decidable (CutsBetween pieces)
  | [] => isTrue trivial
  | _ :: pieces => have := decidableCutsBetween pieces; inferInstanceAs (Decidable (_ ∧ _))

/-! ### Where a cut does nothing -/

variable {p : Pending} {byte : UInt8} {bytes xs ys : List UInt8}

theorem lossyFrom_cons : lossyFrom p (byte :: bytes) =
    (lossyStep p byte).2 ++ lossyFrom (lossyStep p byte).1 bytes := by
  rw [lossyFrom, lossyFrom, Transducer.run_cons]
  dsimp only
  rw [List.append_assoc]

theorem lossy_append : lossy (xs ++ ys) =
    (Transducer.run lossyStep .none xs).2 ++ lossyFrom (pendingAfter xs) ys := by
  rw [lossy, lossyFrom, lossyFrom, Transducer.run_append]
  dsimp only
  rw [List.append_assoc]
  rfl

theorem lossy_eq : lossy xs =
    (Transducer.run lossyStep .none xs).2 ++ (pendingAfter xs).flush := rfl

theorem lossyStep_none : lossyStep .none byte = lossyStart byte := rfl

/-- A byte that does not go on with what is under way. -/
theorem lossyStep_of_not_continues (h : ¬ p.Continues byte) :
    lossyStep p byte = ((lossyStart byte).1, p.flush ++ (lossyStart byte).2) := by
  rw [lossyStep, Pending.flush]
  split
  · rfl
  · next hcount =>
    have hnone : utf8Step p.owed byte = none := by
      rw [← Option.not_isSome_iff_eq_none]
      exact fun hsome => h ⟨hcount, hsome⟩
    rw [hnone]
    rfl

theorem lossyFrom_of_not_continues (h : ∀ byte ∈ ys.head?, ¬ p.Continues byte) :
    lossyFrom p ys = p.flush ++ lossy ys := by
  cases ys with
  | nil => exact (List.append_nil _).symm
  | cons byte ys =>
    rw [lossy, lossyFrom_cons, lossyFrom_cons, lossyStep_of_not_continues (h byte rfl),
      lossyStep_none, List.append_assoc]

/-! ### Where a cut makes the text longer -/

theorem lossyStart_of_continues (h : p.Continues byte) (hleast : 0x80 ≤ p.owed.least)
    (hgreatest : p.owed.greatest ≤ 0xbf) : lossyStart byte = (.none, [replacement]) := by
  obtain ⟨hcount, hsome⟩ := h
  obtain ⟨count, hcount⟩ := Nat.exists_eq_succ_of_ne_zero hcount
  have hrange : p.owed.least ≤ byte ∧ byte ≤ p.owed.greatest := by
    rw [utf8Step, hcount] at hsome
    dsimp only at hsome
    split at hsome
    · next hrange => exact hrange
    · exact absurd hsome (by simp)
  have hlow : ¬ byte < 0x80 := UInt8.not_lt.mpr (UInt8.le_trans hleast hrange.1)
  have hhigh : byte < 0xc2 :=
    UInt8.lt_of_le_of_lt (UInt8.le_trans hrange.2 hgreatest) (by decide)
  have hnone : utf8Step .none byte = none := by
    show (if byte < 0x80 then some Owed.none else if byte < 0xc2 then none else _) = none
    rw [if_neg hlow, if_pos hhigh]
  rw [lossyStart, hnone]

/-- The bounds for the next byte of a character are those of continuation bytes. -/
structure Pending.Sound (p : Pending) : Prop where
  least : 0x80 ≤ p.owed.least
  greatest : p.owed.greatest ≤ 0xbf

theorem Pending.sound_none : Pending.none.Sound := ⟨by decide, by decide⟩

variable {owed : Owed}

theorem utf8Step_sound {owed' : Owed} (h : utf8Step owed byte = some owed') :
    0x80 ≤ owed'.least ∧ owed'.greatest ≤ 0xbf := by
  rw [utf8Step] at h
  split at h
  · split at h
    · obtain rfl := Option.some.inj h
      exact ⟨UInt8.le_refl _, UInt8.le_refl _⟩
    · exact absurd h (by simp)
  · repeat' split at h
    all_goals first
      | (obtain rfl := Option.some.inj h
         decide)
      | exact absurd h (by simp)

variable {code : Nat}

theorem advance_sound {owed' : Owed} (h : utf8Step owed byte = some owed') :
    (advance owed' code).1.Sound := by
  rw [advance]
  split
  · exact Pending.sound_none
  · exact ⟨(utf8Step_sound h).1, (utf8Step_sound h).2⟩

theorem lossyStart_sound : (lossyStart byte).1.Sound := by
  rw [lossyStart]
  split
  · next owed howed => exact advance_sound howed
  · exact Pending.sound_none

theorem lossyStep_sound : (lossyStep p byte).1.Sound := by
  rw [lossyStep]
  split
  · exact lossyStart_sound
  · split
    · next owed howed => exact advance_sound howed
    · exact lossyStart_sound

theorem pendingAfter_sound : (pendingAfter bytes).Sound := by
  rw [pendingAfter]
  suffices h : ∀ p : Pending, p.Sound → (Transducer.run lossyStep p bytes).1.Sound from
    h _ Pending.sound_none
  induction bytes with
  | nil => exact fun _ h => h
  | cons byte bytes ih =>
    intro p _
    rw [Transducer.run_cons]
    exact ih _ lossyStep_sound

theorem length_advance :
    (advance owed code).2.length ≤ 1 ∧
      ((advance owed code).1 ≠ .none → (advance owed code).2 = []) := by
  rw [advance]
  split
  · exact ⟨le_rfl, fun h => absurd rfl h⟩
  · exact ⟨Nat.zero_le _, fun _ => rfl⟩

/-- A character under way decodes to one character at most more than what follows it, and to no
more than that if the next byte goes on with it. -/
theorem length_lossyFrom_le (hp : p.Sound) :
    (lossyFrom p bytes).length ≤ 1 + (lossy bytes).length ∧
      ∀ byte ∈ bytes.head?, p.Continues byte → (lossyFrom p bytes).length ≤ (lossy bytes).length := by
  induction bytes generalizing p with
  | nil =>
    refine ⟨?_, nofun⟩
    show p.flush.length ≤ 1
    rw [Pending.flush]
    split <;> simp
  | cons byte bytes ih =>
    have hgoes : p.Continues byte →
        (lossyFrom p (byte :: bytes)).length ≤ (lossy (byte :: bytes)).length := by
      intro hcontinues
      have hstart := lossyStart_of_continues hcontinues hp.least hp.greatest
      have hwhole : (lossy (byte :: bytes)).length = 1 + (lossy bytes).length := by
        rw [lossy, lossyFrom_cons, lossyStep_none, hstart, List.length_append]
        rfl
      obtain ⟨owed, howed⟩ := Option.isSome_iff_exists.mp hcontinues.2
      have hstep : lossyStep p byte = advance owed (p.code * 64 + byte.toNat % 64) := by
        rw [lossyStep, if_neg hcontinues.1, howed]
      obtain ⟨hone, hnone⟩ := length_advance
      rw [hwhole, lossyFrom_cons, hstep, List.length_append]
      by_cases hdone : (advance owed (p.code * 64 + byte.toNat % 64)).1 = .none
      · rw [hdone]
        exact Nat.add_le_add_right hone _
      · rw [hnone hdone, List.length_nil, Nat.zero_add]
        exact (ih (advance_sound howed)).1
    refine ⟨?_, fun byte' hbyte' => by obtain rfl := Option.some.inj hbyte'; exact hgoes⟩
    by_cases hcontinues : p.Continues byte
    · exact (hgoes hcontinues).trans (Nat.le_add_left _ _)
    · have hflush : p.flush.length ≤ 1 := by
        rw [Pending.flush]
        split <;> simp
      rw [lossyFrom_of_not_continues fun byte' hbyte' => by
        obtain rfl := Option.some.inj hbyte'; exact hcontinues, List.length_append]
      exact Nat.add_le_add_right hflush _

theorem lossy_append_of_cut (h : ∀ byte ∈ ys.head?, ¬ (pendingAfter xs).Continues byte) :
    lossy xs ++ lossy ys = lossy (xs ++ ys) := by
  rw [lossy_append, lossyFrom_of_not_continues h, lossy_eq, List.append_assoc]

/-- One cut inside a character: the whole has no replacement for what the first piece leaves. -/
theorem length_lossy_append_lt {byte : UInt8} (hbyte : byte ∈ ys.head?)
    (h : (pendingAfter xs).Continues byte) :
    (lossy (xs ++ ys)).length < (lossy xs).length + (lossy ys).length := by
  have hle := (length_lossyFrom_le pendingAfter_sound).2 byte hbyte h
  rw [lossy_append, lossy_eq, Pending.flush, if_neg h.1]
  simp only [List.length_append, List.length_singleton]
  omega

theorem length_lossy_append_le :
    (lossy (xs ++ ys)).length ≤ (lossy xs).length + (lossy ys).length := by
  by_cases hcut : ∀ byte ∈ ys.head?, ¬ (pendingAfter xs).Continues byte
  · exact (congrArg List.length (lossy_append_of_cut hcut)).ge.trans_eq List.length_append
  · obtain ⟨byte, hbyte, hcontinues⟩ : ∃ byte ∈ ys.head?, (pendingAfter xs).Continues byte := by
      simpa only [not_forall, not_not, exists_prop] using hcut
    exact (length_lossy_append_lt hbyte hcontinues).le

theorem length_flatMap_lossy (pieces : List (List UInt8)) :
    (lossy pieces.flatten).length ≤ (pieces.flatMap lossy).length := by
  induction pieces with
  | nil => exact le_rfl
  | cons piece pieces ih =>
    rw [List.flatten_cons, List.flatMap_cons, List.length_append]
    exact length_lossy_append_le.trans (Nat.add_le_add_left ih _)

theorem flatMap_lossy {pieces : List (List UInt8)} (h : CutsBetween pieces) :
    pieces.flatMap lossy = lossy pieces.flatten := by
  induction pieces with
  | nil => rfl
  | cons piece pieces ih =>
    rw [List.flatMap_cons, List.flatten_cons, ih h.2, lossy_append_of_cut h.1]

/-- **Pieces.** Decoded one by one they are the whole decoded exactly if no cut is inside a
character. -/
theorem flatMap_lossy_eq_iff (pieces : List (List UInt8)) :
    pieces.flatMap lossy = lossy pieces.flatten ↔ CutsBetween pieces := by
  refine ⟨fun heq => ?_, flatMap_lossy⟩
  have hlength := congrArg List.length heq
  clear heq
  induction pieces with
  | nil => trivial
  | cons piece pieces ih =>
    -- neither the first cut nor the others have added anything
    have hrest := length_flatMap_lossy pieces
    have hfirst := @length_lossy_append_le piece pieces.flatten
    rw [List.flatMap_cons, List.flatten_cons, List.length_append] at hlength
    refine ⟨fun byte hbyte hcontinues => ?_, ih (by omega)⟩
    have hlt := length_lossy_append_lt hbyte hcontinues
    omega

/-! ### Encoding -/

def encode (text : List Char) : List UInt8 := text.flatMap String.utf8EncodeChar

variable {n : Nat}

/-- The first byte of a character, by its number. -/
theorem utf8Step_none (hn : n < 256) :
    utf8Step .none (UInt8.ofNat n) =
      if n < 0x80 then some .none
      else if n < 0xc2 then none
      else if n < 0xe0 then some ⟨1, 0x80, 0xbf⟩
      else if n = 0xe0 then some ⟨2, 0xa0, 0xbf⟩
      else if n = 0xed then some ⟨2, 0x80, 0x9f⟩
      else if n < 0xf0 then some ⟨2, 0x80, 0xbf⟩
      else if n = 0xf0 then some ⟨3, 0x90, 0xbf⟩
      else if n < 0xf4 then some ⟨3, 0x80, 0xbf⟩
      else if n = 0xf4 then some ⟨3, 0x80, 0x8f⟩
      else none := by
  have hbyte : (UInt8.ofNat n).toNat = n := UInt8.toNat_ofNat_of_lt' hn
  simp only [utf8Step, Owed.none, UInt8.lt_iff_toNat_lt, ← UInt8.toNat_inj, hbyte]
  rfl

theorem leadBits_ofNat (hn : n < 256) :
    leadBits (UInt8.ofNat n) =
      if n < 0x80 then n
      else if n < 0xe0 then n % 0x20
      else if n < 0xf0 then n % 0x10
      else n % 8 := by
  have hbyte : (UInt8.ofNat n).toNat = n := UInt8.toNat_ofNat_of_lt' hn
  simp only [leadBits, UInt8.lt_iff_toNat_lt, hbyte]
  rfl

theorem run_lead (bytes : List UInt8) (howed : utf8Step .none (UInt8.ofNat n) = some owed)
    (hcount : owed.count ≠ 0) :
    Transducer.run lossyStep .none (UInt8.ofNat n :: bytes) =
      Transducer.run lossyStep ⟨owed, leadBits (UInt8.ofNat n)⟩ bytes := by
  have hstep : lossyStep .none (UInt8.ofNat n) = (⟨owed, leadBits (UInt8.ofNat n)⟩, []) := by
    rw [lossyStep_none, lossyStart, howed]
    exact if_neg hcount
  rw [Transducer.run_cons, hstep]
  rfl

/-- A byte that goes on with the character under way. -/
theorem lossyStep_continue {count : Nat} {least greatest : UInt8} (hleast : least.toNat ≤ n)
    (hgreatest : n ≤ greatest.toNat) :
    lossyStep ⟨⟨count + 1, least, greatest⟩, code⟩ (UInt8.ofNat n) =
      advance ⟨count, 0x80, 0xbf⟩ (code * 64 + n % 64) := by
  have hbyte : (UInt8.ofNat n).toNat = n :=
    UInt8.toNat_ofNat_of_lt' (Nat.lt_of_le_of_lt hgreatest greatest.toNat_lt)
  have hstep : utf8Step ⟨count + 1, least, greatest⟩ (UInt8.ofNat n) = some ⟨count, 0x80, 0xbf⟩ := by
    rw [utf8Step]
    refine if_pos ⟨?_, ?_⟩
    · rw [UInt8.le_iff_toNat_le, hbyte]
      exact hleast
    · rw [UInt8.le_iff_toNat_le, hbyte]
      exact hgreatest
  rw [lossyStep, if_neg (Nat.succ_ne_zero count), hstep, hbyte]

theorem run_continue {count : Nat} {least greatest : UInt8} (bytes : List UInt8)
    (hleast : least.toNat ≤ n) (hgreatest : n ≤ greatest.toNat) :
    Transducer.run lossyStep ⟨⟨count + 2, least, greatest⟩, code⟩ (UInt8.ofNat n :: bytes) =
      Transducer.run lossyStep ⟨⟨count + 1, 0x80, 0xbf⟩, code * 64 + n % 64⟩ bytes := by
  rw [Transducer.run_cons, lossyStep_continue hleast hgreatest]
  rfl

theorem run_last {least greatest : UInt8} (hleast : least.toNat ≤ n)
    (hgreatest : n ≤ greatest.toNat) :
    Transducer.run lossyStep ⟨⟨1, least, greatest⟩, code⟩ [UInt8.ofNat n] =
      (.none, [Char.ofNat (code * 64 + n % 64)]) := by
  rw [Transducer.run_cons, lossyStep_continue hleast hgreatest]
  rfl

/-- The bytes of a character are decoded to it. -/
theorem run_utf8EncodeChar (c : Char) :
    Transducer.run lossyStep .none (String.utf8EncodeChar c) = (.none, [c]) := by
  have hvalid : c.toNat < 0xd800 ∨ 0xdfff < c.toNat ∧ c.toNat < 0x110000 := c.valid
  have hchar : ∀ n, n = c.toNat → Char.ofNat n = c := by
    rintro n rfl
    exact Char.ofNat_toNat c
  unfold String.utf8EncodeChar
  simp only [show c.val.toNat = c.toNat from rfl]
  generalize c.toNat = v at hvalid hchar
  split
  · -- one byte
    have hlt : v < 0x80 := by omega
    rw [Transducer.run_cons, lossyStep_none, lossyStart, utf8Step_none (by omega), if_pos hlt,
      leadBits_ofNat (by omega), if_pos hlt]
    show (Pending.none, [Char.ofNat v]) = _
    rw [hchar v rfl]
  split
  · -- two bytes
    have howed : utf8Step .none (UInt8.ofNat (v / 64 % 32 + 192)) = some ⟨1, 0x80, 0xbf⟩ := by
      rw [utf8Step_none (by omega), if_neg (by omega), if_neg (by omega), if_pos (by omega)]
    have hbits : leadBits (UInt8.ofNat (v / 64 % 32 + 192)) = v / 64 := by
      rw [leadBits_ofNat (by omega), if_neg (by omega), if_pos (by omega)]
      omega
    rw [run_lead _ howed (by decide), hbits,
      run_last (show 128 ≤ v % 64 + 128 by omega) (show v % 64 + 128 ≤ 191 by omega),
      hchar _ (by omega)]
  split
  · -- three bytes
    have hbits : leadBits (UInt8.ofNat (v / 4096 % 16 + 224)) = v / 4096 := by
      rw [leadBits_ofNat (by omega), if_neg (by omega), if_neg (by omega), if_pos (by omega)]
      omega
    have howed : ∃ owed : Owed, utf8Step .none (UInt8.ofNat (v / 4096 % 16 + 224)) = some owed ∧
        owed.count = 2 ∧ owed.least.toNat ≤ v / 64 % 64 + 128 ∧
          v / 64 % 64 + 128 ≤ owed.greatest.toNat := by
      rw [utf8Step_none (by omega), if_neg (by omega), if_neg (by omega), if_neg (by omega)]
      split
      · exact ⟨_, rfl, rfl, show 160 ≤ _ by omega, show _ ≤ 191 by omega⟩
      split
      · exact ⟨_, rfl, rfl, show 128 ≤ _ by omega, show _ ≤ 159 by omega⟩
      · exact ⟨_, if_pos (by omega), rfl, show 128 ≤ _ by omega, show _ ≤ 191 by omega⟩
    obtain ⟨⟨count, least, greatest⟩, howed, rfl, hleast, hgreatest⟩ := howed
    rw [run_lead _ howed (Nat.succ_ne_zero _), hbits, run_continue _ hleast hgreatest,
      run_last (show 128 ≤ v % 64 + 128 by omega) (show v % 64 + 128 ≤ 191 by omega),
      hchar _ (by omega)]
  · -- four bytes
    have hbits : leadBits (UInt8.ofNat (v / 262144 % 8 + 240)) = v / 262144 := by
      rw [leadBits_ofNat (by omega), if_neg (by omega), if_neg (by omega), if_neg (by omega)]
      omega
    have howed : ∃ owed : Owed, utf8Step .none (UInt8.ofNat (v / 262144 % 8 + 240)) = some owed ∧
        owed.count = 3 ∧ owed.least.toNat ≤ v / 4096 % 64 + 128 ∧
          v / 4096 % 64 + 128 ≤ owed.greatest.toNat := by
      rw [utf8Step_none (by omega), if_neg (by omega), if_neg (by omega), if_neg (by omega),
        if_neg (by omega), if_neg (by omega), if_neg (by omega)]
      split
      · exact ⟨_, rfl, rfl, show 144 ≤ _ by omega, show _ ≤ 191 by omega⟩
      split
      · exact ⟨_, rfl, rfl, show 128 ≤ _ by omega, show _ ≤ 191 by omega⟩
      · exact ⟨_, if_pos (by omega), rfl, show 128 ≤ _ by omega, show _ ≤ 143 by omega⟩
    obtain ⟨⟨count, least, greatest⟩, howed, rfl, hleast, hgreatest⟩ := howed
    rw [run_lead _ howed (Nat.succ_ne_zero _), hbits, run_continue _ hleast hgreatest,
      run_continue _ (show 128 ≤ v / 64 % 64 + 128 by omega)
        (show v / 64 % 64 + 128 ≤ 191 by omega),
      run_last (show 128 ≤ v % 64 + 128 by omega) (show v % 64 + 128 ≤ 191 by omega),
      hchar _ (by omega)]

theorem lossy_encode (text : List Char) : lossy (encode text) = text := by
  have hrun : Transducer.run lossyStep .none (encode text) = (.none, text) := by
    induction text with
    | nil => rfl
    | cons c text ih =>
      rw [encode] at ih ⊢
      rw [List.flatMap_cons, Transducer.run_append, run_utf8EncodeChar, ih]
      rfl
  rw [lossy, lossyFrom, hrun]
  exact List.append_nil text

end Goble.Text
