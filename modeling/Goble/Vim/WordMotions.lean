import Goble.Lib.Lists
import Goble.Vim.Words

/-!
# Where word motions stop

A word starts at a character that is not whitespace and does not continue the one before it, and
ends at one that the character after it does not continue. Each motion is the first such index on its
side of the caret, or an end of the text. The one exception is `ge` in whitespace that begins the
text: with no word behind it, it runs forward over all of it (`wordMotions_iff`).

`continues` is an equivalence of classes for both kinds of words, so a run that is compared with its
first or last character is compared with its neighbours as well.
-/

namespace Goble.Vim

/-! ### Words by their ends -/

def WordStart (chars : List Char) (kind : WordKind) (i : Nat) : Prop :=
  i < chars.length ∧ kindAt chars i ≠ .whitespace ∧
    (i = 0 ∨ (kindAt chars (i - 1)).continues (kindAt chars i) kind = false)

def WordEnd (chars : List Char) (kind : WordKind) (i : Nat) : Prop :=
  i < chars.length ∧ kindAt chars i ≠ .whitespace ∧
    (i + 1 = chars.length ∨ (kindAt chars i).continues (kindAt chars (i + 1)) kind = false)

def FirstAbove (P : Nat → Prop) (caret default n : Nat) : Prop :=
  (caret < n ∧ P n ∧ ∀ i, caret < i → i < n → ¬ P i) ∨ (∀ i, caret < i → ¬ P i) ∧ n = default

def LastBelow (P : Nat → Prop) (caret n : Nat) : Prop :=
  (n < caret ∧ P n ∧ ∀ i, n < i → i < caret → ¬ P i) ∨ (∀ i, i < caret → ¬ P i) ∧ n = 0

structure WordMotionsExact (chars : List Char) (kind : WordKind) (caret : Nat) : Prop where
  startForward :
    FirstAbove (WordStart chars kind) caret chars.length (wordStartForward chars caret kind)
  startBackward : LastBelow (WordStart chars kind) caret (wordStartBackward chars caret kind)
  endForward :
    FirstAbove (WordEnd chars kind) caret (chars.length - 1) (wordEndForward chars caret kind)
  endBackward : LastBelow (WordEnd chars kind) caret (wordEndBackward chars caret kind)
  never_forward : wordStartBackward chars caret kind ≤ caret ∧
    wordEndBackward chars caret kind ≤ caret

structure BlankBehind (chars : List Char) (kind : WordKind) (caret : Nat) : Prop where
  pos : caret ≠ 0
  first : kindAt chars 0 = .whitespace
  second : kindAt chars 1 = .whitespace
  no_end : ∀ i, i < caret → ¬ WordEnd chars kind i

theorem LastBelow.le {P : Nat → Prop} {caret n : Nat} (h : LastBelow P caret n) : n ≤ caret := by
  obtain ⟨hlt, -⟩ | ⟨-, rfl⟩ := h
  · exact Nat.le_of_lt hlt
  · exact Nat.zero_le caret

/-! ### Classes -/

namespace CharKind

variable {a b c : CharKind} {kind : WordKind}

theorem continues_self (a : CharKind) (kind : WordKind) : a.continues a kind = true := by
  cases a <;> cases kind <;> rfl

theorem continues_symm (h : a.continues b kind = true) : b.continues a kind = true := by
  revert h
  cases a <;> cases b <;> cases kind <;> decide

theorem continues_trans (h : a.continues b kind = true) (k : b.continues c kind = true) :
    a.continues c kind = true := by
  revert h k
  cases a <;> cases b <;> cases c <;> cases kind <;> decide

theorem continues_whitespace (h : a.continues b kind = true) :
    a = .whitespace ↔ b = .whitespace := by
  revert h
  cases a <;> cases b <;> cases kind <;> decide

end CharKind

variable {chars rest : List Char} {kind : WordKind} {p : Char → Bool} {i j caret n : Nat}

theorem kindAt_of_drop {c : Char} (h : chars.drop i = c :: rest) :
    kindAt chars i = .of c ∧ i < chars.length ∧ chars.drop (i + 1) = rest := by
  obtain ⟨hc, hlt, hrest⟩ := drop_eq_cons h
  refine ⟨?_, hlt, hrest⟩
  rw [kindAt, charAt, List.getD_eq_getElem?_getD, hc]
  rfl

theorem backWhile_spec (p : Char → Bool) (chars : List Char) (i : Nat) :
    backWhile p chars i ≤ i ∧
      (∀ t, backWhile p chars i ≤ t → t < i → p (charAt chars t) = true) ∧
      (backWhile p chars i = 0 ∨ p (charAt chars (backWhile p chars i - 1)) = false) := by
  induction i with
  | zero => exact ⟨Nat.le_refl 0, fun t _ hlt => absurd hlt (Nat.not_lt_zero t), .inl rfl⟩
  | succ i ih =>
    unfold backWhile
    split
    · next hp =>
      obtain ⟨hle, hrun, hstop⟩ := ih
      refine ⟨Nat.le_succ_of_le hle, fun t ht hlt => ?_, hstop⟩
      obtain hlt | rfl := Nat.lt_succ_iff_lt_or_eq.mp hlt
      · exact hrun t ht hlt
      · exact hp
    · next hp =>
      refine ⟨Nat.le_refl _, fun t ht hlt => absurd hlt (Nat.not_lt.mpr ht), .inr ?_⟩
      exact Bool.eq_false_iff.mpr hp

theorem backOver_spec (p : Char → Bool) (chars : List Char) (i : Nat) :
    backOver p chars i ≤ i ∧
      (∀ t, backOver p chars i < t → t ≤ i → p (charAt chars t) = true) ∧
      (backOver p chars i = 0 ∨ p (charAt chars (backOver p chars i)) = false) := by
  induction i with
  | zero => exact ⟨Nat.le_refl 0, fun t ht hle => absurd hle (Nat.not_le.mpr ht), .inl rfl⟩
  | succ i ih =>
    unfold backOver
    split
    · next hp =>
      obtain ⟨hle, hrun, hstop⟩ := ih
      refine ⟨Nat.le_succ_of_le hle, fun t ht hle => ?_, hstop⟩
      obtain hlt | rfl := Nat.lt_or_eq_of_le hle
      · exact hrun t ht (Nat.le_of_lt_succ hlt)
      · exact hp
    · next hp =>
      refine ⟨Nat.le_refl _, fun t ht hle => absurd hle (Nat.not_le.mpr ht), .inr ?_⟩
      exact Bool.eq_false_iff.mpr hp

/-! ### Forward -/

/-- The loop of `w` stops at the first start from its index on. -/
theorem wordStartFrom_spec (chars : List Char) (kind : WordKind) {context : CharKind}
    (hrest : chars.drop i = rest) (hpos : 0 < i) (hcontext : context = kindAt chars (i - 1))
    (hi : i ≤ chars.length) :
    i ≤ wordStartFrom kind context i rest ∧
      (∀ t, i ≤ t → t < wordStartFrom kind context i rest → ¬ WordStart chars kind t) ∧
      (WordStart chars kind (wordStartFrom kind context i rest) ∨
        wordStartFrom kind context i rest = chars.length) := by
  induction rest generalizing context i with
  | nil =>
    have hlen : i = chars.length := Nat.le_antisymm hi (List.drop_eq_nil_iff.mp hrest)
    exact ⟨Nat.le_refl i, fun t ht hlt => absurd hlt (Nat.not_lt.mpr ht), .inr hlen⟩
  | cons c rest ih =>
    obtain ⟨hkind, hlt, hdrop⟩ := kindAt_of_drop hrest
    unfold wordStartFrom
    dsimp only
    split
    · next hstart =>
      obtain ⟨hbreak, hblank⟩ := Bool.and_eq_true_iff.mp hstart
      refine ⟨Nat.le_refl i, fun t ht hlt => absurd hlt (Nat.not_lt.mpr ht), .inl ⟨hlt, ?_, ?_⟩⟩
      · rw [hkind]
        exact of_decide_eq_true hblank
      · rw [← hcontext, hkind]
        exact .inr (by simpa using hbreak)
    · next hno =>
      have hprevious : CharKind.of c = kindAt chars (i + 1 - 1) := hkind.symm
      obtain ⟨hle, hnone, hstop⟩ := ih hdrop (Nat.succ_pos i) hprevious hlt
      refine ⟨by omega, fun t ht hlt' => ?_, hstop⟩
      obtain hlt'' | rfl := Nat.lt_or_eq_of_le ht
      · exact hnone t hlt'' hlt'
      · rintro ⟨-, hblank, hzero | hbreak⟩
        · omega
        · refine hno (Bool.and_eq_true_iff.mpr ⟨?_, decide_eq_true ?_⟩)
          · rw [hcontext, ← hkind, hbreak]
            rfl
          · rw [← hkind]
            exact hblank

theorem startForward_spec (hcaret : caret < chars.length) :
    FirstAbove (WordStart chars kind) caret chars.length (wordStartForward chars caret kind) := by
  unfold wordStartForward
  rw [if_neg (Nat.not_le.mpr hcaret)]
  obtain ⟨hle, hnone, hstart | hend⟩ := wordStartFrom_spec chars kind rfl
    (Nat.succ_pos caret) rfl hcaret
  · exact .inl ⟨hle, hstart, fun t ht hlt => hnone t ht hlt⟩
  · refine .inr ⟨fun t ht hstart => ?_, hend⟩
    exact hnone t ht (hend ▸ hstart.1) hstart

/-- The loop of `e` stops at the first end from its index on, or at the last index. -/
theorem wordEndFrom_spec (chars : List Char) (kind : WordKind) (hrest : chars.drop i = rest)
    (hi : i < chars.length) :
    i ≤ wordEndFrom kind i rest ∧
      (∀ t, i ≤ t → t < wordEndFrom kind i rest → ¬ WordEnd chars kind t) ∧
      (WordEnd chars kind (wordEndFrom kind i rest) ∨
        wordEndFrom kind i rest = chars.length - 1) := by
  induction rest generalizing i with
  | nil =>
    have hle : chars.length ≤ i := List.drop_eq_nil_iff.mp hrest
    omega
  | cons c rest ih =>
    obtain ⟨hkind, -, hdrop⟩ := kindAt_of_drop hrest
    have hhere : ∀ t, i ≤ t → t < i → ¬ WordEnd chars kind t :=
      fun t ht hlt => absurd hlt (Nat.not_lt.mpr ht)
    cases rest with
    | nil =>
      have hle : chars.length ≤ i + 1 := List.drop_eq_nil_iff.mp hdrop
      exact ⟨Nat.le_refl i, hhere, .inr (show i = chars.length - 1 by omega)⟩
    | cons next rest =>
      obtain ⟨hnext, hlt, -⟩ := kindAt_of_drop hdrop
      unfold wordEndFrom
      dsimp only
      split
      · next hend =>
        obtain ⟨hbreak, hblank⟩ := Bool.and_eq_true_iff.mp hend
        refine ⟨Nat.le_refl i, hhere, .inl ⟨hi, ?_, .inr ?_⟩⟩
        · rw [hkind]
          exact of_decide_eq_true hblank
        · rw [hkind, hnext]
          simpa using hbreak
      · next hno =>
        obtain ⟨hle, hnone, hstop⟩ := ih hdrop hlt
        refine ⟨by omega, fun t ht hlt' => ?_, hstop⟩
        obtain hlt'' | rfl := Nat.lt_or_eq_of_le ht
        · exact hnone t hlt'' hlt'
        · rintro ⟨-, hblank, hlast | hbreak⟩
          · omega
          · refine hno (Bool.and_eq_true_iff.mpr ⟨?_, decide_eq_true ?_⟩)
            · rw [← hkind, ← hnext, hbreak]
              rfl
            · rw [← hkind]
              exact hblank

theorem endForward_spec (hcaret : caret < chars.length) :
    FirstAbove (WordEnd chars kind) caret (chars.length - 1) (wordEndForward chars caret kind) := by
  have hmin : min caret (chars.length - 1) = caret := by omega
  unfold wordEndForward
  rw [if_neg (by omega)]
  dsimp only
  rw [hmin]
  by_cases hlast : chars.length ≤ caret + 1
  · rw [if_pos hlast]
    exact .inr ⟨fun t ht hend => by have := hend.1; omega, by omega⟩
  · rw [if_neg hlast]
    obtain ⟨hle, hnone, hend⟩ := wordEndFrom_spec chars kind (i := caret + 1) rfl
      (Nat.not_le.mp hlast)
    by_cases hstop : WordEnd chars kind (wordEndFrom kind (caret + 1) (chars.drop (caret + 1)))
    · exact .inl ⟨hle, hstop, fun t ht hlt => hnone t ht hlt⟩
    · have hlen := hend.resolve_left hstop
      refine .inr ⟨fun t ht ht' => ?_, hlen⟩
      obtain hlt | hge := Nat.lt_or_ge t (chars.length - 1)
      · exact hnone t ht (hlen ▸ hlt) ht'
      · obtain rfl : t = chars.length - 1 := by have := ht'.1; omega
        exact hstop (hlen ▸ ht')

/-! ### Backward -/

/-- Where whitespace is skipped, what is left is whitespace only if it begins the text. -/
theorem backOver_whitespace (chars : List Char) (i : Nat) :
    backOver (fun c => CharKind.of c = .whitespace) chars i ≤ i ∧
      (∀ t, backOver (fun c => CharKind.of c = .whitespace) chars i < t → t ≤ i →
        kindAt chars t = .whitespace) ∧
      (kindAt chars (backOver (fun c => CharKind.of c = .whitespace) chars i) = .whitespace →
        backOver (fun c => CharKind.of c = .whitespace) chars i = 0) := by
  obtain ⟨hle, hrun, hstop⟩ :=
    backOver_spec (fun c => CharKind.of c = .whitespace) chars i
  refine ⟨hle, fun t ht hti => of_decide_eq_true (hrun t ht hti), fun hblank => ?_⟩
  refine hstop.resolve_right fun hno => ?_
  exact of_decide_eq_false hno hblank

theorem backWhile_continues (chars : List Char) (cls : CharKind) (kind : WordKind) (i : Nat) :
    backWhile (fun c => (CharKind.of c).continues cls kind) chars i ≤ i ∧
      (∀ t, backWhile (fun c => (CharKind.of c).continues cls kind) chars i ≤ t → t < i →
        (kindAt chars t).continues cls kind = true) ∧
      (backWhile (fun c => (CharKind.of c).continues cls kind) chars i = 0 ∨
        (kindAt chars (backWhile (fun c => (CharKind.of c).continues cls kind) chars i - 1)).continues
          cls kind = false) :=
  backWhile_spec (fun c => (CharKind.of c).continues cls kind) chars i

theorem startBackward_spec (hcaret : caret < chars.length) :
    LastBelow (WordStart chars kind) caret (wordStartBackward chars caret kind) := by
  have hmin : min caret (chars.length - 1) = caret := by omega
  have hempty : chars.isEmpty = false := by
    rw [List.isEmpty_eq_false_iff]
    exact List.ne_nil_of_length_pos (Nat.zero_lt_of_lt hcaret)
  unfold wordStartBackward
  rw [hempty]
  dsimp only
  rw [hmin]
  by_cases hzero : caret = 0
  · rw [if_pos hzero]
    exact .inr ⟨fun t ht => by omega, rfl⟩
  rw [if_neg hzero]
  obtain ⟨hle, hblank, hfirst⟩ := backOver_whitespace chars (caret - 1)
  generalize backOver (fun c => CharKind.of c = .whitespace) chars (caret - 1) = i at *
  obtain ⟨hstart, hrun, hbegin⟩ := backWhile_continues chars (kindAt chars i) kind i
  generalize backWhile (fun c => (CharKind.of c).continues (kindAt chars i) kind) chars i = j at *
  show LastBelow (WordStart chars kind) caret j
  have hcls : ∀ t, j ≤ t → t ≤ i → (kindAt chars t).continues (kindAt chars i) kind = true := by
    intro t ht hti
    obtain hlt | rfl := Nat.lt_or_eq_of_le hti
    · exact hrun t ht hlt
    · exact CharKind.continues_self _ _
  by_cases hword : kindAt chars i = .whitespace
  · -- all that is behind the caret is whitespace
    have hi : i = 0 := hfirst hword
    refine .inr ⟨fun t ht hword' => ?_, by omega⟩
    obtain rfl | hlt := Nat.eq_zero_or_pos t
    · exact hword'.2.1 (hi ▸ hword)
    · exact hword'.2.1 (hblank t (by omega) (by omega))
  · refine .inl ⟨by omega, ⟨by omega, ?_, ?_⟩, fun t htj htc hword' => ?_⟩
    · exact fun hspace => hword ((CharKind.continues_whitespace (hcls j (Nat.le_refl j) hstart)).mp
        hspace)
    · refine hbegin.imp_right fun hbreak => ?_
      rw [Bool.eq_false_iff] at hbreak ⊢
      exact fun hcontinues => hbreak
        (CharKind.continues_trans hcontinues (hcls j (Nat.le_refl j) hstart))
    · obtain ⟨-, hspace, hzero | hbreak⟩ := hword'
      · omega
      · obtain hti | hti := Nat.lt_or_ge i t
        · exact hspace (hblank t hti (by omega))
        · have hcontinues := CharKind.continues_trans (hcls (t - 1) (by omega) (by omega))
            (CharKind.continues_symm (hcls t (Nat.le_of_lt htj) hti))
          rw [hbreak] at hcontinues
          cases hcontinues

theorem takeWhile_continues (chars : List Char) (cls : CharKind) (kind : WordKind)
    (hi : i < chars.length) :
    ((chars.drop i).takeWhile fun c => (CharKind.of c).continues cls kind).length = 0 ↔
      (kindAt chars i).continues cls kind = false := by
  cases hrest : chars.drop i with
  | nil =>
    have hle := List.drop_eq_nil_iff.mp hrest
    omega
  | cons c rest =>
    rw [(kindAt_of_drop hrest).1, List.takeWhile_cons]
    cases (CharKind.of c).continues cls kind with
    | true => exact iff_of_false (Nat.succ_ne_zero _) nofun
    | false => exact iff_of_true rfl rfl

structure LeavesWord (chars : List Char) (kind : WordKind) (caret i : Nat) : Prop where
  le : i ≤ caret
  run : ∀ t, i ≤ t → t ≤ caret → (kindAt chars t).continues (kindAt chars caret) kind = true
  blank : kindAt chars caret = .whitespace → i = caret
  stop : i = 0 ∨ kindAt chars caret = .whitespace ∨
    (kindAt chars (i - 1)).continues (kindAt chars caret) kind = false

theorem leavesWord (chars : List Char) (kind : WordKind) (caret : Nat) :
    LeavesWord chars kind caret
      (if kindAt chars caret ≠ .whitespace then
        backWhile (fun c => (CharKind.of c).continues (kindAt chars caret) kind) chars caret
      else caret) := by
  split
  · next hword =>
    obtain ⟨hle, hrun, hstop⟩ := backWhile_continues chars (kindAt chars caret) kind caret
    refine ⟨hle, fun t ht htc => ?_, fun hblank => absurd hblank hword, hstop.imp_right .inr⟩
    obtain hlt | rfl := Nat.lt_or_eq_of_le htc
    · exact hrun t ht hlt
    · exact CharKind.continues_self _ _
  · next hblank =>
    refine ⟨Nat.le_refl caret, fun t ht htc => ?_, fun _ => rfl, .inr (.inl ?_)⟩
    · rw [Nat.le_antisymm htc ht]
      exact CharKind.continues_self _ _
    · exact Decidable.not_not.mp hblank

theorem LeavesWord.no_end (h : LeavesWord chars kind caret i) (hcaret : caret < chars.length)
    {t : Nat} (ht : i ≤ t) (htc : t < caret) : ¬ WordEnd chars kind t := by
  rintro ⟨-, -, hlast | hbreak⟩
  · omega
  · have hcontinues := CharKind.continues_trans (h.run t ht (Nat.le_of_lt htc))
      (CharKind.continues_symm (h.run (t + 1) (by omega) htc))
    rw [hbreak] at hcontinues
    cases hcontinues

theorem LeavesWord.break_behind (h : LeavesWord chars kind caret i) (hpos : i ≠ 0) (hj : j < i)
    (hword : kindAt chars j ≠ .whitespace)
    (hblank : ∀ t, j < t → t ≤ i - 1 → kindAt chars t = .whitespace) :
    (kindAt chars (j + 1)).continues (kindAt chars j) kind = false := by
  rw [Bool.eq_false_iff]
  intro hcontinues
  obtain hlt | hge := Nat.lt_or_ge j (i - 1)
  · exact hword ((CharKind.continues_whitespace hcontinues).mp (hblank (j + 1) (by omega) hlt))
  · obtain rfl : j + 1 = i := by omega
    have hcls := h.run (j + 1) (Nat.le_refl _) h.le
    obtain hzero | hspace | hbreak := h.stop
    · exact hpos hzero
    · exact hword ((CharKind.continues_whitespace hcontinues).mp
        ((CharKind.continues_whitespace hcls).mpr hspace))
    · rw [Nat.add_sub_cancel] at hbreak
      rw [CharKind.continues_trans (CharKind.continues_symm hcontinues) hcls] at hbreak
      cases hbreak

/-- `ge` is exact unless the text begins with whitespace that it runs over. -/
theorem endBackward_iff (hcaret : caret < chars.length) :
    LastBelow (WordEnd chars kind) caret (wordEndBackward chars caret kind) ↔
      ¬ BlankBehind chars kind caret := by
  have hmin : min caret (chars.length - 1) = caret := by omega
  have hempty : chars.isEmpty = false := by
    rw [List.isEmpty_eq_false_iff]
    exact List.ne_nil_of_length_pos (Nat.zero_lt_of_lt hcaret)
  unfold wordEndBackward
  rw [hempty]
  dsimp only
  rw [hmin]
  have hleaves := leavesWord chars kind caret
  generalize (if kindAt chars caret ≠ .whitespace then
    backWhile (fun c => (CharKind.of c).continues (kindAt chars caret) kind) chars caret
    else caret) = i at hleaves ⊢
  by_cases hzero : i = 0
  · -- the caret is in the first word, or on the first character
    rw [if_neg Bool.false_ne_true, if_pos hzero]
    refine iff_of_true (.inr ⟨fun t ht => ?_, rfl⟩) fun hbehind => ?_
    · exact hleaves.no_end hcaret (hzero ▸ Nat.zero_le t) ht
    · have hfirst := hleaves.run 0 (Nat.le_of_eq hzero) (Nat.zero_le caret)
      have hblank := (CharKind.continues_whitespace hfirst).mp hbehind.first
      exact hbehind.pos ((hleaves.blank hblank).symm.trans hzero)
  rw [if_neg Bool.false_ne_true, if_neg hzero]
  obtain ⟨hle, hblank, hfirst⟩ := backOver_whitespace chars (i - 1)
  generalize backOver (fun c => CharKind.of c = .whitespace) chars (i - 1) = j at hle hblank hfirst ⊢
  have hcaret' := hleaves.le
  by_cases hword : kindAt chars j = .whitespace
  · -- all that is behind the word of the caret is whitespace
    obtain rfl : j = 0 := hfirst hword
    have hnone : ∀ t, t < caret → ¬ WordEnd chars kind t := by
      intro t ht hend
      obtain hti | hti := Nat.lt_or_ge t i
      · obtain rfl | hpos := Nat.eq_zero_or_pos t
        · exact hend.2.1 hword
        · exact hend.2.1 (hblank t hpos (by omega))
      · exact hleaves.no_end hcaret hti ht hend
    have hone : 1 < chars.length := by omega
    have hrun := takeWhile_continues chars (kindAt chars 0) kind hone
    rw [Nat.zero_add, Nat.zero_add]
    generalize ((chars.drop 1).takeWhile fun c =>
      (CharKind.of c).continues (kindAt chars 0) kind).length = n at hrun ⊢
    constructor
    · rintro (⟨hn, hend, -⟩ | ⟨-, hn⟩) hbehind
      · exact hnone n hn hend
      · have hbreak := hrun.mp hn
        rw [hword, hbehind.second, CharKind.continues_self] at hbreak
        cases hbreak
    · intro hbehind
      refine .inr ⟨hnone, hrun.mpr ?_⟩
      rw [Bool.eq_false_iff]
      intro hcontinues
      refine hbehind ⟨by omega, hword, ?_, hnone⟩
      exact (CharKind.continues_whitespace hcontinues).mpr hword
  · have hbreak := hleaves.break_behind hzero (by omega) hword hblank
    have hnext : j + 1 < chars.length := by omega
    rw [(takeWhile_continues chars (kindAt chars j) kind hnext).mpr hbreak, Nat.add_zero]
    have hend : WordEnd chars kind j := by
      refine ⟨by omega, hword, .inr ?_⟩
      rw [Bool.eq_false_iff] at hbreak ⊢
      exact fun hcontinues => hbreak (CharKind.continues_symm hcontinues)
    refine iff_of_true (.inl ⟨by omega, hend, fun t htj htc hend' => ?_⟩) fun hbehind => ?_
    · obtain hti | hti := Nat.lt_or_ge t i
      · exact hend'.2.1 (hblank t htj (by omega))
      · exact hleaves.no_end hcaret hti htc hend'
    · exact hbehind.no_end j (by omega) hend

/-- **When the word motions are exact.** -/
theorem wordMotions_iff (chars : List Char) (kind : WordKind) (caret : Nat)
    (hcaret : caret < chars.length) :
    WordMotionsExact chars kind caret ↔ ¬ BlankBehind chars kind caret := by
  rw [← endBackward_iff hcaret]
  constructor
  · exact fun h => h.endBackward
  · intro h
    have hstart : LastBelow (WordStart chars kind) caret (wordStartBackward chars caret kind) :=
      startBackward_spec hcaret
    exact ⟨startForward_spec hcaret, hstart, endForward_spec hcaret, h, hstart.le, h.le⟩

theorem wordMotions_iff_words :
    WordMotionsExact "foo bar".toList .word 4 ↔ ¬ BlankBehind "foo bar".toList .word 4 :=
  wordMotions_iff "foo bar".toList .word 4 (by decide)

/-- In three characters of whitespace `ge` moves forward. -/
theorem not_wordMotionsExact :
    ¬ WordMotionsExact "   ".toList .word 1 ∧ wordEndBackward "   ".toList 1 .word = 2 := by
  refine ⟨fun h => ?_, by decide⟩
  obtain ⟨hlt, -⟩ | ⟨-, hzero⟩ := h.endBackward
  · exact absurd hlt (by decide)
  · exact absurd hzero (by decide)

end Goble.Vim
