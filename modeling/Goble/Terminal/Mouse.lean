import Goble.Lib.Text

/-!
# Mouse reports

`encode_mouse` tells the application what happened at the pointer, in the `SGR` form or in the
older one of a byte for each number. `parseSgr` reads the `SGR` form by its grammar,
`ESC [ < b ; x ; y` and `M` or `m`.

A number is written with four digits at most, so a report says what happened only up to row and
column 9998 (`reported_iff`).
-/

namespace Goble.Terminal

structure Modifiers where
  shift : Bool
  alt : Bool
  ctrl : Bool
deriving DecidableEq, Repr

/-- The parts of the terminal mode that the mouse reads. -/
structure TermMode where
  mouseClick : Bool
  mouseDrag : Bool
  mouseMotion : Bool
  sgrMouse : Bool
deriving DecidableEq, Repr

def TermMode.mouseReported (mode : TermMode) : Bool :=
  mode.mouseClick || mode.mouseDrag || mode.mouseMotion

inductive MouseButton where
  | left
  | middle
  | right
deriving DecidableEq, Repr

inductive MouseAction where
  | press (button : MouseButton)
  | release (button : MouseButton)
  | drag (button : MouseButton)
  /-- The pointer moved with no button held. -/
  | move
  | wheelUp
  | wheelDown
deriving DecidableEq, Repr

namespace MouseAction

/-- The button code before the 32 offset xterm applies to it. -/
def code : MouseAction → UInt8
  | press button | release button | drag button =>
    match button with
    | .left => 0
    | .middle => 1
    | .right => 2
  | move => 3
  | wheelUp => 64
  | wheelDown => 65

def isRelease : MouseAction → Bool
  | release _ => true
  | _ => false

def isMotion : MouseAction → Bool
  | drag _ | move => true
  | _ => false

end MouseAction

/-- The largest one-based coordinate the legacy form can carry. -/
def legacyMax : Nat := 223

def allowed (action : MouseAction) (mode : TermMode) : Bool :=
  if !mode.mouseReported then false
  else
    match action with
    | .move => mode.mouseMotion
    | .drag _ => mode.mouseDrag || mode.mouseMotion
    | .press _ | .release _ | .wheelUp | .wheelDown => true

def asciiDigit (n : Nat) : UInt8 := 0x30 + UInt8.ofNat (n % 10)

def pushNumber (value : Nat) : List UInt8 :=
  (if 1000 ≤ value then [asciiDigit (value / 1000)] else []) ++
    (if 100 ≤ value then [asciiDigit (value / 100)] else []) ++
    (if 10 ≤ value then [asciiDigit (value / 10)] else []) ++ [asciiDigit value]

def reportCode (action : MouseAction) (modifiers : Modifiers) : UInt8 :=
  action.code + (if action.isMotion then 32 else 0) + (if modifiers.shift then 4 else 0) +
    (if modifiers.alt then 8 else 0) + (if modifiers.ctrl then 16 else 0)

/-- Encode one pointer report at a zero-based cell, unless the application has not asked for it. -/
def encodeMouse (action : MouseAction) (column line : Nat) (modifiers : Modifiers)
    (mode : TermMode) : Option (List UInt8) :=
  if !allowed action mode then none
  else
    let code := reportCode action modifiers
    let column := (column + 1) % UInt64.size
    let line := (line + 1) % UInt64.size
    if mode.sgrMouse then
      some ([0x1b, 0x5b, 0x3c] ++ pushNumber code.toNat ++ [0x3b] ++
        pushNumber (column % UInt32.size) ++ [0x3b] ++ pushNumber (line % UInt32.size) ++
        [if action.isRelease then 0x6d else 0x4d])
    else
      let legacyCode := if action.isRelease then 3 else code
      some ([0x1b, 0x5b, 0x4d] ++ [32 + legacyCode, 32 + UInt8.ofNat (min column legacyMax),
        32 + UInt8.ofNat (min line legacyMax)])

/-! ### The grammar -/

/-- What a report says; the cell is one-based. -/
structure SgrReport where
  code : Nat
  x : Nat
  y : Nat
  release : Bool
deriving DecidableEq, Repr

def decimalValue (digits : List UInt8) : Nat :=
  digits.foldl (fun n byte => n * 10 + (byte.toNat - 0x30)) 0

/-- A number and what is after it. -/
def parseDecimal (text : List UInt8) : Option (Nat × List UInt8) :=
  match text.takeWhile Text.isAsciiDigit with
  | [] => none
  | digits => some (decimalValue digits, text.dropWhile Text.isAsciiDigit)

/-- `ESC [ < b ; x ; y M`, with `m` for a release. -/
def parseSgr : List UInt8 → Option SgrReport
  | 0x1b :: 0x5b :: 0x3c :: text =>
    match parseDecimal text with
    | some (code, 0x3b :: text) =>
      match parseDecimal text with
      | some (x, 0x3b :: text) =>
        match parseDecimal text with
        | some (y, [0x4d]) => some ⟨code, x, y, false⟩
        | some (y, [0x6d]) => some ⟨code, x, y, true⟩
        | _ => none
      | _ => none
    | _ => none
  | _ => none

/-! ### Numbers -/

theorem toNat_asciiDigit (n : Nat) : (asciiDigit n).toNat = 0x30 + n % 10 := by
  have hlt : n % 10 < 10 := Nat.mod_lt n (by decide)
  have hdigit : (UInt8.ofNat (n % 10)).toNat = n % 10 :=
    UInt8.toNat_ofNat_of_lt' (show n % 10 < 256 by omega)
  rw [asciiDigit, UInt8.toNat_add, hdigit]
  exact Nat.mod_eq_of_lt (show 48 + n % 10 < 256 by omega)

theorem isAsciiDigit_asciiDigit (n : Nat) : Text.isAsciiDigit (asciiDigit n) = true := by
  have hlt : n % 10 < 10 := Nat.mod_lt n (by decide)
  rw [Text.isAsciiDigit, Bool.and_eq_true, decide_eq_true_iff, decide_eq_true_iff,
    UInt8.le_iff_toNat_le, UInt8.le_iff_toNat_le, toNat_asciiDigit]
  exact ⟨Nat.le_add_right _ _, show 48 + n % 10 ≤ 57 by omega⟩

theorem isAsciiDigit_of_mem_pushNumber {value : Nat} {byte : UInt8} (h : byte ∈ pushNumber value) :
    Text.isAsciiDigit byte = true := by
  have hdigit : ∃ n, byte = asciiDigit n := by
    simp only [pushNumber, List.mem_append, List.mem_ite_nil_right, List.mem_singleton] at h
    obtain ((⟨-, h⟩ | ⟨-, h⟩) | ⟨-, h⟩) | h := h
    all_goals exact ⟨_, h⟩
  obtain ⟨n, rfl⟩ := hdigit
  exact isAsciiDigit_asciiDigit n

theorem decimalValue_pushNumber (value : Nat) : decimalValue (pushNumber value) = value % 10000 := by
  have hdigit : ∀ n, (asciiDigit n).toNat - 0x30 = n % 10 := fun n => by
    rw [toNat_asciiDigit, Nat.add_sub_cancel_left]
  unfold decimalValue pushNumber
  repeat' split
  all_goals
    simp only [List.nil_append, List.cons_append, List.foldl_cons, List.foldl_nil, hdigit]
    omega

theorem parseDecimal_pushNumber (value : Nat) {byte : UInt8} (rest : List UInt8)
    (h : Text.isAsciiDigit byte = false) :
    parseDecimal (pushNumber value ++ byte :: rest) = some (value % 10000, byte :: rest) := by
  have htake : (pushNumber value ++ byte :: rest).takeWhile Text.isAsciiDigit =
      pushNumber value := by
    rw [List.takeWhile_append_of_pos fun b hb => isAsciiDigit_of_mem_pushNumber hb,
      List.takeWhile_cons_of_neg (by simp [h]), List.append_nil]
  have hdrop : (pushNumber value ++ byte :: rest).dropWhile Text.isAsciiDigit = byte :: rest := by
    rw [List.dropWhile_append_of_pos fun b hb => isAsciiDigit_of_mem_pushNumber hb,
      List.dropWhile_cons_of_neg (by simp [h])]
  rw [parseDecimal, htake]
  split
  · next hnil => exact absurd hnil (by simp [pushNumber])
  · rw [hdrop, decimalValue_pushNumber]

/-- What the grammar makes of three numbers. -/
theorem parseSgr_report (code x y : Nat) (release : Bool) :
    parseSgr ([0x1b, 0x5b, 0x3c] ++ pushNumber code ++ [0x3b] ++ pushNumber x ++ [0x3b] ++
      pushNumber y ++ [if release then 0x6d else 0x4d]) =
        some ⟨code % 10000, x % 10000, y % 10000, release⟩ := by
  have hsemicolon : Text.isAsciiDigit 0x3b = false := by decide
  have hnumbers : parseSgr ([0x1b, 0x5b, 0x3c] ++ pushNumber code ++ [0x3b] ++ pushNumber x ++
      [0x3b] ++ pushNumber y ++ [if release then 0x6d else 0x4d]) =
        match parseDecimal (pushNumber y ++ [if release then 0x6d else 0x4d]) with
        | some (y, [0x4d]) => some ⟨code % 10000, x % 10000, y, false⟩
        | some (y, [0x6d]) => some ⟨code % 10000, x % 10000, y, true⟩
        | _ => none := by
    simp only [List.append_assoc, List.cons_append, List.nil_append, parseSgr,
      parseDecimal_pushNumber _ _ hsemicolon]
  rw [hnumbers]
  have hlast : ∀ final : UInt8, Text.isAsciiDigit final = false →
      parseDecimal (pushNumber y ++ [final]) = some (y % 10000, [final]) :=
    fun final => parseDecimal_pushNumber y []
  cases release with
  | true => simp only [hlast 0x6d (by decide), if_true]
  | false => simp only [hlast 0x4d (by decide), Bool.false_eq_true, if_false]

/-! ### Reports -/

/-- The report of an action at a cell says what happened, and where. -/
def Reported (action : MouseAction) (column line : Nat) (modifiers : Modifiers)
    (mode : TermMode) : Prop :=
  (encodeMouse action column line modifiers mode).bind parseSgr =
    some ⟨(reportCode action modifiers).toNat, column + 1, line + 1, action.isRelease⟩

/-- A coordinate that survives the casts and the four digits. -/
theorem mod_eq_iff (n : Nat) : n % UInt64.size % UInt32.size % 10000 = n ↔ n < 10000 := by
  refine ⟨fun h => ?_, fun h => ?_⟩
  · rw [← h]
    exact Nat.mod_lt _ (by decide)
  · rw [Nat.mod_eq_of_lt (Nat.lt_trans h (by decide : 10000 < UInt64.size)),
      Nat.mod_eq_of_lt (Nat.lt_trans h (by decide : 10000 < UInt32.size)), Nat.mod_eq_of_lt h]

/-- **Where the mouse is heard.** An action the application has asked for in the `SGR` form is
reported as what it is, in every row and column up to 9998, and in none after that. -/
theorem reported_iff (action : MouseAction) (column line : Nat) (modifiers : Modifiers)
    {mode : TermMode} (hallowed : allowed action mode) (hsgr : mode.sgrMouse) :
    Reported action column line modifiers mode ↔ column + 1 < 10000 ∧ line + 1 < 10000 := by
  have hencode : (encodeMouse action column line modifiers mode).bind parseSgr =
      some ⟨(reportCode action modifiers).toNat % 10000,
        (column + 1) % UInt64.size % UInt32.size % 10000,
        (line + 1) % UInt64.size % UInt32.size % 10000, action.isRelease⟩ := by
    have hsome : encodeMouse action column line modifiers mode =
        some ([0x1b, 0x5b, 0x3c] ++ pushNumber (reportCode action modifiers).toNat ++ [0x3b] ++
          pushNumber ((column + 1) % UInt64.size % UInt32.size) ++ [0x3b] ++
          pushNumber ((line + 1) % UInt64.size % UInt32.size) ++
          [if action.isRelease then 0x6d else 0x4d]) := by
      unfold encodeMouse
      rw [if_neg (by simp [hallowed])]
      exact if_pos hsgr
    rw [hsome]
    exact parseSgr_report _ _ _ _
  have hcode : (reportCode action modifiers).toNat % 10000 = (reportCode action modifiers).toNat :=
    Nat.mod_eq_of_lt (Nat.lt_trans (reportCode action modifiers).toNat_lt (by decide))
  rw [Reported, hencode, Option.some.injEq, SgrReport.mk.injEq, mod_eq_iff, mod_eq_iff]
  exact ⟨fun h => ⟨h.2.1, h.2.2.1⟩, fun h => ⟨hcode, h.1, h.2, rfl⟩⟩

def sgrClicks : TermMode := ⟨true, false, false, true⟩

theorem reported_corner : Reported (.release .middle) 9998 0 ⟨true, false, true⟩ sgrClicks :=
  (reported_iff _ 9998 0 _ rfl rfl).mpr (by decide)

/-- The first column whose number has five digits is reported as `0000`. -/
theorem not_reported_column :
    (encodeMouse (.press .left) 9999 0 ⟨false, false, false⟩ sgrClicks).bind parseSgr =
        some ⟨0, 0, 1, false⟩ ∧
      ¬ Reported (.press .left) 9999 0 ⟨false, false, false⟩ sgrClicks := by
  have hreport : (encodeMouse (.press .left) 9999 0 ⟨false, false, false⟩ sgrClicks).bind parseSgr =
      some ⟨0, 0, 1, false⟩ := by decide +kernel
  refine ⟨hreport, fun h => ?_⟩
  have hx := congrArg (Option.map SgrReport.x) (hreport.symm.trans h)
  exact absurd (Option.some.inj hx) (Nat.succ_ne_zero 9999).symm

end Goble.Terminal
