import Goble.Vim.Termination

/-!
# What a finished command leaves behind

The counts and the selected register wait in slots of the engine until a command takes them. Each arm
of the normal-mode table takes them on its own or does not, so a prefix that was typed for one
command can meet a later one: `3D` leaves the count, and `"aw` the register. Which arms take what is
read off the key and what is half typed (`takesCounts`, `usesRegister`), and a run leaves nothing
behind as long as no prefix is typed before an arm that does not take it (`leavesNothing`).
-/

namespace Goble.Vim

/-- Nothing waits for the next command. -/
structure VimState.Blank (s : VimState) : Prop where
  count : s.count = none
  count2 : s.count2 = none
  register : s.register = '\x22'

namespace Editor

variable (e : Editor) (p : Press) (key : Key)

/-- A press that is a command or completes one, whatever its outcome. -/
def Completes : Prop := (p.isPlain ∧ e.vim.reading.half p.key = false) ∨ p.isRedo

/-- A command is over: it reports a change, or it is complete and reports none. -/
def Finished (r : Editor × VimOutcome) : Prop :=
  r.1.vim.pending = none ∧
    (r.2 = .moved ∨ r.2 = .edited ∨ r.2 = .consumed ∧ e.Completes p)

/-! ### Its condition -/

def takesCounts : Bool :=
  match e.vim.pending, key.named with
  | none, .char c => Reading.takesCounts c || c = 'R'
  | some .g, .char c => c ∈ ['g', 'e', 'E', '~', 'u', 'U']
  | some (.operator _), .char _ => true
  | some (.textObject ..), _ | some (.find _), _ | some (.operatorFind ..), _
  | some .replace, _ => true
  | _, _ => false

/-- Whether a key that completes a command reads or writes a register. -/
def usesRegister : Bool :=
  match e.vim.pending, key.named with
  | none, .char c => c ∈ ['x', 'X', 'D', 'C', 's', 'S', 'Y', '~', 'p', 'P']
  | some .g, .char c => c ∈ ['~', 'u', 'U']
  | some (.operator operator), .char c =>
    Operator.fromChar c = some operator ||
      (motionRange c e.vim.counts e.buffer (operator = .change) e.vim.lastFind).isSome
  | some (.operatorFind _ motion), .char c =>
    (findRange e.buffer { motion with target := c } e.vim.counts).isSome
  | some (.textObject operator around), .char c =>
    (textObject c around (operator = .change) e.buffer).isSome
  | _, _ => false

def NoCounts : Prop := e.vim.count = none ∧ e.vim.count2 = none

def TidyKey : Prop :=
  (e.takesCounts key = true ∨ e.NoCounts) ∧ (e.usesRegister key = true ∨ e.vim.register = '\x22')

/-- `Ctrl-R` with nothing to redo leaves everything as it is. -/
def TidyRedo : Prop :=
  if e.vim.redo = [] then e.vim.pending = none → e.vim.Blank else e.vim.register = '\x22'

def lastIteration [CaseTable] (change : LastChange) : Editor × VimOutcome :=
  (replayed change)^[max e.vim.counts 1 - 1] ((e.record (.char '.')).startReplay, .consumed)

def beforeLast [CaseTable] (change : LastChange) : Editor :=
  (typed change.keys.dropLast (e.lastIteration change)).1

/-- A dot command without a change does nothing. With one, the last recorded key is held to the same
as any other, where the replay types it; a count that is left is dropped with the insert session it
opens. -/
def TidyDot [CaseTable] : Prop :=
  match e.vim.lastChange with
  | none => e.vim.Blank
  | some change =>
    Clean change.keys ∧ ∃ key, change.keys.getLast? = some key ∧
      (e.beforeLast change).vim.reading.half key = false ∧
      ((e.beforeLast change).takesCounts key = true ∨ (e.beforeLast change).NoCounts ∨
        opens (normalKey key (e.beforeLast change)) = true) ∧
      ((e.beforeLast change).usesRegister key = true ∨
        (e.beforeLast change).vim.register = '\x22')

/-- The condition, for a press in normal mode. -/
structure TidyPress [CaseTable] : Prop where
  key : p.isPlain → e.readsDot p.key = false → e.vim.reading.half p.key = false →
    (e.vim.pending = none → p.key.named.isChar = true) → e.TidyKey p.key
  dot : p.isPlain → e.readsDot p.key = true → e.TidyDot
  redo : p.isRedo → e.TidyRedo

end Editor

/-- A command that is over in normal mode leaves no count and no register selected. -/
def LeavesNothing [CaseTable] (s : VimState) : Event → Prop
  | .press p buffer =>
    s.mode = .normal → ∀ r, (⟨s, buffer, none⟩ : Editor).press p = some r →
      (⟨s, buffer, none⟩ : Editor).Finished p r → r.1.vim.Blank
  | _ => True

def TidyEvent [CaseTable] (s : VimState) : Event → Prop
  | .press p buffer => s.mode = .normal → (⟨s, buffer, p.clipboard⟩ : Editor).TidyPress p
  | _ => True

/-! ### The register -/

def Call.usesRegister : Call → Bool
  | applyOperator .. | toggle _ | paste .. => true
  | _ => false

namespace Editor

variable {e : Editor} {key : Key} {p : Press}

theorem register_rememberChange (e : Editor) (insert : Option (List Char)) :
    (e.rememberChange insert).vim.register = e.vim.register := by
  unfold rememberChange VimState.rememberChange
  split <;> rfl

theorem register_writeRegister (e : Editor) (name : Char) (text : List Char) (linewise : Bool) :
    (e.writeRegister name text linewise).vim.register = e.vim.register := by
  unfold writeRegister
  dsimp only
  split_ifs <;> rfl

variable [CaseTable]

theorem register_applyOperator (operator : Operator) (range : Range) (linewise : Bool) :
    (e.applyOperator operator range linewise).1.vim.register = '\x22' := by
  unfold applyOperator
  dsimp only
  split
  · rfl
  · cases operator with
    | yank => exact register_writeRegister _ _ _ _
    | delete => exact (register_rememberChange _ _).trans (register_writeRegister _ _ _ _)
    | change => exact register_writeRegister _ _ _ _
    | toggleCase | lowercase | uppercase =>
      dsimp only
      split
      · exact register_rememberChange _ _
      · rfl

theorem register_perform (e : Editor) (call : Call) :
    (perform (e, call)).1.vim.register =
      if call.usesRegister = true then '\x22' else e.vim.register := by
  cases call with
  | applyOperator operator range linewise => exact register_applyOperator operator range linewise
  | toggle count =>
    show (e.toggle count).1.vim.register = '\x22'
    unfold toggle
    dsimp only
    split
    · exact register_applyOperator _ _ _
    · exact register_applyOperator _ _ _
  | paste count before =>
    show (e.paste count before).1.vim.register = '\x22'
    unfold paste
    dsimp only
    split
    · rfl
    · exact register_rememberChange _ _
  | moveCaret count step =>
    show (e.moveCaret count step).1.vim.register = e.vim.register
    unfold moveCaret
    dsimp only
    split <;> rfl
  | findMove motion count =>
    show (e.findMove motion count).1.vim.register = e.vim.register
    unfold findMove
    dsimp only
    split
    · rfl
    · split <;> rfl
  | enterInsert place => cases place <;> rfl
  | overwrite count c =>
    show (e.overwrite count c).1.vim.register = e.vim.register
    unfold overwrite
    split
    · exact register_rememberChange _ _
    · rfl
  | undo =>
    show e.undo.1.vim.register = e.vim.register
    unfold undo
    split <;> rfl
  | pasteOver range text =>
    exact register_rememberChange _ _
  | consumed | passthrough | select | swapEnds | leaveVisual => rfl

/-! ### The table -/

omit [CaseTable]

theorem usesRegister_normalCommand (c : Char) (e : Editor) :
    (normalCommand c e).2.usesRegister =
      decide (c ∈ ['x', 'X', 'D', 'C', 's', 'S', 'Y', '~', 'p', 'P']) := by
  unfold normalCommand
  dsimp only
  split
  all_goals
    first
    | rfl
    | (split <;> rfl)
    | exact (decide_eq_false (by simp_all)).symm

theorem usesRegister_operate (operator : Operator) (range : Option Range) :
    (operate operator range).usesRegister = range.isSome := by
  cases range <;> rfl

/-- A key that completes an operator is neither one more digit nor the first of two. -/
theorem not_half_operator {digit : Prop} [Decidable digit] {c : Char}
    (h : decide (digit ∨ c ∈ ['i', 'a', 'f', 'F', 't', 'T']) = false) :
    ¬ digit ∧ ¬ (c = 'i' ∨ c = 'a') ∧ c ∉ ['f', 'F', 't', 'T'] := by
  have hnot := of_decide_eq_false h
  refine ⟨fun hdigit => hnot (.inl hdigit), ?_, fun hmem => hnot (.inr ?_)⟩
  · rintro (rfl | rfl) <;> exact hnot (.inr (by decide))
  · exact List.mem_cons_of_mem _ (List.mem_cons_of_mem _ hmem)

theorem record_eq (e : Editor) (key : Key) :
    ∃ command, e.record key = { e with vim := { e.vim with command } } := by
  unfold record VimState.record
  split
  · exact ⟨_, rfl⟩
  · exact ⟨e.vim.command, rfl⟩

/-- The keys that complete a command make a call on a register where the predicate says so. -/
theorem usesRegister_normalKey (hhalf : e.vim.reading.half key = false) :
    (normalKey key e).2.usesRegister = e.usesRegister key := by
  unfold Reading.half at hhalf
  unfold normalKey usesRegister
  rw [show e.vim.reading.pending = e.vim.pending from rfl] at hhalf
  cases hpending : e.vim.pending with
  | none =>
    rw [hpending] at hhalf
    cases hkey : key.named with
    | char c =>
      rw [hkey] at hhalf
      have hdigit : ¬ (c.isDigit = true ∧ (c ≠ '0' ∨ e.vim.count.isSome = true)) :=
        fun h => of_decide_eq_false hhalf (.inl h)
      dsimp only
      rw [if_neg hdigit]
      exact usesRegister_normalCommand c _
    | _ => rfl
  | some pending =>
    rw [hpending] at hhalf
    cases pending with
    | g =>
      dsimp only [normalPending, gCommand]
      cases hkey : key.named with
      | char c =>
        dsimp only
        split
        all_goals
          first
          | rfl
          | exact (decide_eq_false (by simp_all)).symm
      | _ => rfl
    | operator operator =>
      cases hkey : key.named with
      | char c =>
        rw [hkey] at hhalf
        obtain ⟨command, hrecord⟩ := record_eq e (.char c)
        obtain ⟨hdigit, hobject, hfind⟩ := not_half_operator hhalf
        rw [hrecord]
        dsimp only [normalPending]
        rw [if_neg (show ¬ (c.isDigit = true ∧ (c ≠ '0' ∨ e.vim.count2.isSome = true)) from hdigit),
          if_neg hobject, if_neg hfind]
        split
        · next hsame =>
          rw [decide_eq_true hsame]
          rfl
        · next hother =>
          rw [decide_eq_false hother, Bool.false_or]
          exact usesRegister_operate _ _
      | _ => rfl
    | operatorFind operator motion =>
      cases hkey : key.named with
      | char c =>
        obtain ⟨command, hrecord⟩ := record_eq e (.char c)
        rw [hrecord]
        exact usesRegister_operate _ _
      | _ => rfl
    | textObject operator around =>
      cases hkey : key.named with
      | char c =>
        obtain ⟨command, hrecord⟩ := record_eq e (.char c)
        rw [hrecord]
        exact usesRegister_operate _ _
      | _ => rfl
    | visualObject around =>
      cases hkey : key.named with
      | char c =>
        dsimp only [normalPending]
        split <;> rfl
      | _ => rfl
    | find motion => cases key.named <;> rfl
    | replace => cases key.named <;> rfl
    | register => cases hhalf

/-- A key that completes a command leaves the selected register to its call. -/
theorem register_of_not_half (hhalf : e.vim.reading.half key = false) :
    (normalKey key e).1.vim.register = e.vim.register := by
  refine (register_normalKey key e).resolve_right fun hselects => ?_
  unfold Reading.half at hhalf
  rw [show e.vim.reading.pending = some .register from hselects.1] at hhalf
  cases hhalf

theorem noCounts_afterCommand {count count2 : Option Nat} {c : Char}
    (hc : c ∉ ['f', 'F', 't', 'T', 'g', 'r', 'd', 'c', 'y', '\x22']) :
    (Reading.afterCommand ⟨none, count, count2⟩ c).count = none ∧
        (Reading.afterCommand ⟨none, count, count2⟩ c).count2 = none ↔
      (Reading.takesCounts c || c = 'R') = true ∨ count = none ∧ count2 = none := by
  unfold Reading.afterCommand
  split
  case h_11 => exact iff_of_true ⟨rfl, rfl⟩ (.inl rfl)
  case h_12 =>
    next hR =>
    rw [decide_eq_false hR, Bool.or_false]
    cases Reading.takesCounts c with
    | true => exact iff_of_true ⟨rfl, rfl⟩ (.inl rfl)
    | false => exact ⟨.inr, fun h => h.resolve_left Bool.false_ne_true⟩
  all_goals exact absurd (by decide) hc

theorem noCounts_next_iff (hhalf : e.vim.reading.half key = false) :
    (e.vim.reading.next key).count = none ∧ (e.vim.reading.next key).count2 = none ↔
      e.takesCounts key = true ∨ e.NoCounts := by
  have hreading : e.vim.reading = ⟨e.vim.pending, e.vim.count, e.vim.count2⟩ := rfl
  have hkept : ∀ {b : Bool}, b = false →
      (e.vim.count = none ∧ e.vim.count2 = none ↔
        b = true ∨ e.vim.count = none ∧ e.vim.count2 = none) := by
    intro b hb
    rw [hb]
    exact ⟨.inr, fun h => h.resolve_left Bool.false_ne_true⟩
  unfold Reading.half at hhalf
  unfold Reading.next takesCounts NoCounts
  rw [hreading] at hhalf ⊢
  cases hpending : e.vim.pending with
  | none =>
    rw [hpending] at hhalf
    cases hkey : key.named with
    | char c =>
      rw [hkey] at hhalf
      have hnot := of_decide_eq_false hhalf
      dsimp only
      rw [if_neg fun hdigit => hnot (.inl hdigit)]
      exact noCounts_afterCommand fun hmem => hnot (.inr hmem)
    | _ => exact hkept rfl
  | some pending =>
    rw [hpending] at hhalf
    cases pending with
    | register => cases hhalf
    | visualObject around => exact hkept rfl
    | textObject | find | operatorFind | replace => exact iff_of_true ⟨rfl, rfl⟩ (.inl rfl)
    | g =>
      cases hkey : key.named with
      | char c =>
        dsimp only [Reading.afterPending]
        split
        · next hmem => exact iff_of_true ⟨rfl, rfl⟩ (.inl (decide_eq_true hmem))
        · next hmem => exact hkept (decide_eq_false hmem)
      | _ => exact hkept rfl
    | operator operator =>
      cases hkey : key.named with
      | char c =>
        rw [hkey] at hhalf
        obtain ⟨hdigit, hobject, hfind⟩ := not_half_operator hhalf
        dsimp only [Reading.afterPending]
        rw [if_neg hdigit, if_neg hobject, if_neg hfind]
        exact iff_of_true ⟨rfl, rfl⟩ (.inl rfl)
      | _ => exact hkept rfl

variable [CaseTable]

/-- **What a key that completes a command leaves**, the dot command apart. -/
theorem blank_normalKey_iff (hhalf : e.vim.reading.half key = false) :
    (perform (normalKey key e)).1.vim.Blank ↔ e.TidyKey key := by
  have hregister := register_perform (normalKey key e).1 (normalKey key e).2
  rw [usesRegister_normalKey hhalf, register_of_not_half hhalf] at hregister
  have hcounts := noCounts_next_iff hhalf
  rw [← reading_press] at hcounts
  constructor
  · intro hblank
    refine ⟨hcounts.mp ⟨hblank.count, hblank.count2⟩, ?_⟩
    by_cases huses : e.usesRegister key = true
    · exact .inl huses
    · rw [if_neg huses] at hregister
      exact .inr (hregister.symm.trans hblank.register)
  · rintro ⟨htakes, huses⟩
    obtain ⟨hcount, hcount2⟩ := hcounts.mpr htakes
    refine ⟨hcount, hcount2, hregister.trans ?_⟩
    obtain huses | hunnamed := huses
    · rw [if_pos huses]
    · rw [hunnamed, ite_self]

/-- A call does not hand the key back, but for the one that is only that. -/
theorem outcome_perform (e : Editor) {call : Call} (h : call ≠ .passthrough) :
    (perform (e, call)).2 ≠ .passthrough := by
  cases call with
  | passthrough => exact absurd rfl h
  | consumed | pasteOver | select | swapEnds | leaveVisual => exact nofun
  | moveCaret count step =>
    show (e.moveCaret count step).2 ≠ _
    unfold moveCaret
    dsimp only
    split <;> exact nofun
  | findMove motion count =>
    show (e.findMove motion count).2 ≠ _
    unfold findMove
    dsimp only
    split
    · exact nofun
    · split <;> exact nofun
  | enterInsert place => cases place <;> exact nofun
  | applyOperator operator range linewise =>
    show (e.applyOperator operator range linewise).2 ≠ _
    have happlied := applied_applyOperator e operator range linewise
    generalize e.applyOperator operator range linewise = r at happlied ⊢
    cases happlied <;> exact nofun
  | toggle count =>
    show (e.toggle count).2 ≠ _
    unfold toggle
    dsimp only
    have happlied := applied_applyOperator e .toggleCase
      ⟨e.buffer.caret, min (e.buffer.caret + count) e.buffer.len⟩ false
    generalize e.applyOperator .toggleCase _ false = r at happlied ⊢
    cases happlied <;> exact nofun
  | overwrite count c =>
    show (e.overwrite count c).2 ≠ _
    unfold overwrite
    split <;> exact nofun
  | undo =>
    show e.undo.2 ≠ _
    unfold undo
    split <;> exact nofun
  | paste count before =>
    show (e.paste count before).2 ≠ _
    unfold paste
    dsimp only
    split <;> exact nofun

omit [CaseTable] in
theorem normalKey_ne_passthrough (hchar : e.vim.pending = none → key.named.isChar = true) :
    (normalKey key e).2 ≠ .passthrough := by
  intro hcall
  unfold normalKey at hcall
  cases hpending : e.vim.pending with
  | none =>
    rw [hpending] at hcall
    cases hkey : key.named with
    | char c =>
      rw [hkey] at hcall
      dsimp only at hcall
      split at hcall
      · cases hcall
      · have hfrom := fromCommand c (e.record (.char c))
        rw [hcall] at hfrom
        cases hfrom
    | _ =>
      have hfalse := hchar hpending
      rw [hkey] at hfalse
      cases hfalse
  | some pending =>
    rw [hpending] at hcall
    have hfrom := fromPending pending key.named (e.record key.named)
    rw [show (normalPending pending key.named (e.record key.named)).2 = _ from hcall] at hfrom
    cases hfrom

omit [CaseTable] in
theorem pending_next (hhalf : e.vim.reading.half key = false) :
    (e.vim.reading.next key).pending = none := by
  have hreading : e.vim.reading = ⟨e.vim.pending, e.vim.count, e.vim.count2⟩ := rfl
  unfold Reading.half at hhalf
  unfold Reading.next
  rw [hreading] at hhalf ⊢
  cases hpending : e.vim.pending with
  | none =>
    rw [hpending] at hhalf
    cases hkey : key.named with
    | char c =>
      rw [hkey] at hhalf
      have hnot := of_decide_eq_false hhalf
      have hc : c ∉ ['f', 'F', 't', 'T', 'g', 'r', 'd', 'c', 'y', '\x22'] :=
        fun hmem => hnot (.inr hmem)
      dsimp only
      rw [if_neg fun hdigit => hnot (.inl hdigit)]
      unfold Reading.afterCommand
      split
      case h_11 => rfl
      case h_12 => split <;> rfl
      all_goals exact absurd (by decide) hc
    | _ => rfl
  | some pending =>
    rw [hpending] at hhalf
    cases pending with
    | register => rfl
    | visualObject | textObject | find | operatorFind | replace => rfl
    | g =>
      cases key.named with
      | char c =>
        dsimp only [Reading.afterPending]
        split <;> rfl
      | _ => rfl
    | operator operator =>
      cases hkey : key.named with
      | char c =>
        rw [hkey] at hhalf
        obtain ⟨hdigit, hobject, hfind⟩ := not_half_operator hhalf
        dsimp only [Reading.afterPending]
        rw [if_neg hdigit, if_neg hobject, if_neg hfind]
        rfl
      | _ => rfl

/-! ### The dot command -/

omit [CaseTable] in
theorem register_insert (e : Editor) (c : Char) :
    (e.insert (.char c)).1.vim.register = e.vim.register := rfl

omit [CaseTable] in
theorem register_inserted (text : List Char) (r : Editor × VimOutcome) :
    (inserted text r).1.vim.register = r.1.vim.register := by
  induction text generalizing r with
  | nil => rfl
  | cons c text ih => exact (ih _).trans (register_insert _ _)

omit [CaseTable] in
theorem mode_inserted (text : List Char) (r : Editor × VimOutcome) :
    (inserted text r).1.vim.mode = r.1.vim.mode := by
  induction text generalizing r with
  | nil => rfl
  | cons c text ih => exact (ih _).trans rfl

omit [CaseTable] in
theorem register_closed (r : Editor × VimOutcome) :
    (closed r).1.vim.register = r.1.vim.register := by
  unfold closed
  split
  · next hmode =>
    unfold escape
    rw [hmode]
    show r.1.vim.finishInsert.register = _
    unfold VimState.finishInsert
    split <;> rfl
  · rfl

omit [CaseTable] in
/-- The escape after a change drops the counts. -/
theorem closed_reading_of_insert {r : Editor × VimOutcome} (hmode : r.1.vim.mode = .insert) :
    (closed r).1.vim.reading = .idle := by
  unfold closed
  rw [if_pos hmode]
  unfold escape
  rw [hmode]
  rfl

theorem mode_of_opens {x : Editor × Call} (h : opens x = true) :
    (perform x).1.vim.mode = .insert := by
  obtain ⟨e, call⟩ := x
  cases call with
  | enterInsert place => cases place <;> rfl
  | applyOperator operator range linewise =>
    cases operator with
    | change =>
      have hslice : e.buffer.slice range ≠ [] := of_decide_eq_true h
      have happlied := applied_applyOperator e .change range linewise
      show (e.applyOperator .change range linewise).1.vim.mode = .insert
      generalize e.applyOperator .change range linewise = r at happlied ⊢
      cases happlied with
      | nothing empty => exact absurd empty hslice
      | yanked slice yank => cases yank
      | deleted slice delete => cases delete
      | changed => rfl
      | recased slice recase => obtain h | h | h := recase <;> cases h
    | _ => cases h
  | _ => cases h

/-- **A dot command leaves nothing** if the last key it replays does not, where it is typed. -/
theorem blank_dot {depth : Nat} {r : Editor × VimOutcome} (hdot : e.readsDot key = true)
    (htidy : e.TidyDot) (hr : e.normal depth key = some r) : r.1.vim.Blank := by
  obtain ⟨d, rfl⟩ := exists_depth hdot hr
  have hkey : key = .char '.' := by
    simp only [readsDot, Bool.and_eq_true, decide_eq_true_eq] at hdot
    exact hdot.2
  subst hkey
  unfold TidyDot at htidy
  cases hchange : e.vim.lastChange with
  | none =>
    rw [hchange] at htidy
    rw [dot_of_no_change hdot hchange] at hr
    obtain rfl := Option.some.inj hr
    obtain ⟨command, hrecord⟩ := record_eq e (.char '.')
    rw [hrecord]
    exact ⟨htidy.count, htidy.count2, htidy.register⟩
  | some change =>
    rw [hchange] at htidy
    obtain ⟨hclean, last, hlast, hhalf, hcounts, huses⟩ := htidy
    rw [dot_of_clean hdot hchange hclean] at hr
    obtain rfl := Option.some.inj hr
    -- the last key, where it is typed
    obtain ⟨front, hfront⟩ := List.getLast?_eq_some_iff.mp hlast
    have htyped : typed change.keys (e.lastIteration change) =
        perform (normalKey last (e.beforeLast change)) := by
      unfold beforeLast
      rw [hfront, List.dropLast_concat]
      exact List.foldl_append
    have hredone : ((e.record (.char '.')).redone change).1.vim.Blank ↔
        (replayed change (e.lastIteration change)).1.vim.Blank := by
      obtain ⟨n, hn⟩ := exists_repeats e.vim
      have hiterate : (replayed change)^[max (e.record (.char '.')).vim.counts 1]
          ((e.record (.char '.')).startReplay, .consumed) =
            replayed change (e.lastIteration change) := by
        rw [counts_record, lastIteration, hn, Nat.add_sub_cancel, Function.iterate_succ_apply']
      unfold redone
      rw [hiterate]
      exact ⟨fun h => ⟨h.count, h.count2, h.register⟩, fun h => ⟨h.count, h.count2, h.register⟩⟩
    rw [hredone]
    have hregister := register_perform (normalKey last (e.beforeLast change)).1
      (normalKey last (e.beforeLast change)).2
    rw [usesRegister_normalKey hhalf, register_of_not_half hhalf] at hregister
    have hunnamed : (perform (normalKey last (e.beforeLast change))).1.vim.register = '\x22' := by
      obtain huses | hunnamed := huses
      · exact hregister.trans (if_pos huses)
      · exact hregister.trans (by rw [hunnamed, ite_self])
    have hcount : (replayed change (e.lastIteration change)).1.vim.reading.count = none ∧
        (replayed change (e.lastIteration change)).1.vim.reading.count2 = none := by
      unfold replayed
      rw [htyped]
      by_cases hmode : (inserted change.insert
          (perform (normalKey last (e.beforeLast change)))).1.vim.mode = .insert
      · rw [closed_reading_of_insert hmode]
        exact ⟨rfl, rfl⟩
      · unfold closed
        rw [if_neg hmode, inserted_reading, reading_press, noCounts_next_iff hhalf]
        obtain htakes | hnone | hopens := hcounts
        · exact .inl htakes
        · exact .inr hnone
        · rw [mode_inserted, mode_of_opens hopens] at hmode
          exact absurd rfl hmode
    refine ⟨hcount.1, hcount.2, ?_⟩
    unfold replayed
    rw [register_closed, register_inserted, htyped]
    exact hunnamed

/-! ### Every press -/

omit [CaseTable] in
theorem finished_redo_iff {f : Editor} (hredo : p.isRedo) :
    f.Finished p e.redo ↔ (e.vim.redo = [] → e.vim.pending = none) := by
  unfold Finished redo
  cases e.vim.redo with
  | nil =>
    constructor
    · exact fun h _ => h.1
    · exact fun h => ⟨h rfl, .inr (.inr ⟨rfl, .inr hredo⟩)⟩
  | cons entry rest =>
    refine iff_of_true ⟨rfl, .inr (.inl rfl)⟩ ?_
    exact nofun

omit [CaseTable] in
/-- **What `Ctrl-R` leaves.** -/
theorem blank_redo_iff {f : Editor} (hredo : p.isRedo) :
    (f.Finished p e.redo → e.redo.1.vim.Blank) ↔ e.TidyRedo := by
  rw [finished_redo_iff hredo]
  unfold TidyRedo redo
  cases hentries : e.vim.redo with
  | nil =>
    rw [if_pos rfl]
    exact ⟨fun h hpending => h fun _ => hpending, fun h hpending => h (hpending rfl)⟩
  | cons entry rest =>
    rw [if_neg (List.cons_ne_nil _ _)]
    constructor
    · intro h
      exact (h nofun).register
    · intro hregister _
      exact ⟨rfl, rfl, hregister⟩

theorem finished_normalKey {f : Editor} (hf : f.vim = e.vim) (hplain : p.isPlain)
    (hhalf : e.vim.reading.half p.key = false)
    (hchar : e.vim.pending = none → p.key.named.isChar = true) :
    f.Finished p (perform (normalKey p.key e)) := by
  have hpending := pending_next hhalf
  rw [← reading_press] at hpending
  refine ⟨hpending, ?_⟩
  have hout := outcome_perform (normalKey p.key e).1 (normalKey_ne_passthrough hchar)
  cases hr : (perform (normalKey p.key e)).2 with
  | moved => exact .inl rfl
  | edited => exact .inr (.inl rfl)
  | consumed => exact .inr (.inr ⟨rfl, .inl ⟨hplain, by rw [hf]; exact hhalf⟩⟩)
  | passthrough => exact absurd hr hout

omit [CaseTable] in
theorem not_isRedo (hplain : p.isPlain) : ¬ p.isRedo := by
  intro hredo
  have hctrl := hplain.2.2.1
  rw [hredo.2.2.1] at hctrl
  cases hctrl

theorem half_of_finished {f : Editor} (hf : f.vim = e.vim) (hplain : p.isPlain)
    (hfinished : f.Finished p (perform (normalKey p.key e))) :
    e.vim.reading.half p.key = false ∧ (e.vim.pending = none → p.key.named.isChar = true) := by
  obtain ⟨-, hout⟩ := hfinished
  have hconsumed : (perform (normalKey p.key e)).2 = .consumed →
      e.vim.reading.half p.key = false := by
    intro hr
    rw [hr] at hout
    obtain hmoved | hedited | ⟨-, ⟨-, hhalf⟩ | hredo⟩ := hout
    · cases hmoved
    · cases hedited
    · rw [← hf]
      exact hhalf
    · exact absurd hredo (not_isRedo hplain)
  constructor
  · by_contra hnot
    rw [Bool.not_eq_false] at hnot
    refine Bool.false_ne_true ((hconsumed ?_).symm.trans hnot)
    rw [← Prod.eta (normalKey p.key e), (normalKey_of_half hnot).1]
    rfl
  · intro hpending
    cases hkey : p.key.named with
    | char c => rfl
    | _ =>
      have hpass : normalKey p.key e = (e, .passthrough) := by
        unfold normalKey
        rw [hpending, hkey]
      rw [hpass] at hout
      obtain hmoved | hedited | ⟨hother, -⟩ := hout
      · cases hmoved
      · cases hedited
      · cases hother

/-- Escape, and the keys that stay the host's, end no command. -/
theorem not_finished {r : Editor × VimOutcome} (hmode : e.vim.mode = .normal)
    (hplain : ¬ p.isPlain) (hredo : ¬ p.isRedo) (hpress : e.press p = some r) :
    ¬ e.Finished p r := by
  rintro ⟨-, hout⟩
  have hchanged : r.2 = .moved ∨ r.2 = .edited := by
    obtain hmoved | hedited | ⟨-, ⟨hp, -⟩ | hp⟩ := hout
    · exact .inl hmoved
    · exact .inr hedited
    · exact absurd hp hplain
    · exact absurd hp hredo
  cases handled hpress with
  | escape esc =>
    unfold escape at hchanged
    rw [show (e.facing p).vim.mode = .normal from hmode] at hchanged
    dsimp only at hchanged
    split at hchanged
    · obtain h | h := hchanged <;> cases h
    · obtain h | h := hchanged <;> cases h
  | ignored esc plain quiet =>
    obtain rfl | rfl := quiet
    · obtain h | h := hchanged <;> cases h
    · obtain h | h := hchanged <;> cases h
  | redo redo => exact hredo redo
  | insert plain | replace plain | normal plain | visual plain => exact hplain plain
  | dot dot => exact hplain dot.1

end Editor

section Runs

variable [CaseTable] {s : VimState} {event : Event} {p : Press} {buffer : VimBuffer}

theorem leavesNothing_of_tidy (htidy : TidyEvent s event) : LeavesNothing s event := by
  cases event with
  | reset | setUnnamedClipboard => trivial
  | press p buffer =>
    intro hmode r hpress hfinished
    have htidy : (⟨s, buffer, p.clipboard⟩ : Editor).TidyPress p := htidy hmode
    by_cases hredo : p.isRedo
    · rw [Editor.press_of_redo hredo hmode] at hpress
      obtain rfl := Option.some.inj hpress
      exact (Editor.blank_redo_iff hredo).mpr (htidy.redo hredo) hfinished
    by_cases hplain : p.isPlain
    · by_cases hdot : (⟨s, buffer, p.clipboard⟩ : Editor).readsDot p.key = true
      · rw [Editor.press_of_plain hplain, hmode] at hpress
        exact Editor.blank_dot hdot (htidy.dot hplain hdot) hpress
      · rw [Bool.not_eq_true] at hdot
        rw [Editor.press_normal (e := ⟨s, buffer, none⟩) hplain hmode hdot] at hpress
        obtain rfl := Option.some.inj hpress
        obtain ⟨hhalf, hchar⟩ :=
          Editor.half_of_finished (e := ⟨s, buffer, p.clipboard⟩) rfl hplain hfinished
        exact (Editor.blank_normalKey_iff hhalf).mpr (htidy.key hplain hdot hhalf hchar)
    · exact absurd hfinished (Editor.not_finished hmode hplain hredo hpress)

theorem tidy_of_leavesNothing (hdot : s.reading.command p.key ≠ some '.')
    (hleaves : LeavesNothing s (.press p buffer)) : TidyEvent s (.press p buffer) := by
  intro hmode
  have hreads : (⟨s, buffer, p.clipboard⟩ : Editor).readsDot p.key = false := by
    rw [← Bool.not_eq_true, Editor.readsDot_iff]
    exact hdot
  refine ⟨fun hplain _ hhalf hchar => ?_, fun _ hdot => ?_, fun hredo => ?_⟩
  · refine (Editor.blank_normalKey_iff hhalf).mp (hleaves hmode _ ?_ ?_)
    · exact Editor.press_normal (e := ⟨s, buffer, none⟩) hplain hmode hreads
    · exact Editor.finished_normalKey rfl hplain hhalf hchar
  · rw [hreads] at hdot
    cases hdot
  · refine (Editor.blank_redo_iff hredo).mp fun hfinished => hleaves hmode _ ?_ hfinished
    exact Editor.press_of_redo hredo hmode

/-- **What a finished command leaves behind.** In a run whose presses all meet the condition, every
command that is over in normal mode leaves no count and no register selected. The dot command apart,
a press in any state leaves nothing exactly if it meets the condition. -/
theorem leavesNothing :
    (∀ events : List Event,
      engine.Along TidyEvent .new events → engine.Along LeavesNothing .new events) ∧
    ∀ (s : VimState) (p : Press) (buffer : VimBuffer), s.reading.command p.key ≠ some '.' →
      (LeavesNothing s (.press p buffer) ↔ TidyEvent s (.press p buffer)) := by
  constructor
  · exact fun events htidy => htidy.mono fun _ _ => leavesNothing_of_tidy
  · exact fun s p buffer hdot => ⟨tidy_of_leavesNothing hdot, leavesNothing_of_tidy⟩

end Runs

/-- `x` takes the count and the register. -/
theorem leavesNothing_x :
    letI := asciiCase
    engine.Along LeavesNothing .new (events "abcd".toList [.escape, .char 'x']) := by
  let _ := asciiCase
  refine leavesNothing.1 _ ⟨?_, fun s hs => ⟨?_, fun _ _ => trivial⟩⟩
  · -- in insert mode
    exact fun hmode => nomatch hmode
  · obtain rfl := Option.some.inj hs
    refine fun _ => ⟨fun _ _ _ _ => ?_, fun _ hdot => ?_, fun hredo => ?_⟩
    · exact ⟨.inl rfl, .inl rfl⟩
    · exact absurd hdot (by decide)
    · exact absurd hredo (by decide)

/-- `3D` leaves the count to the next command, and `"aw` the register. -/
theorem not_leavesNothing :
    letI := asciiCase
    (∃ s, engine.exec .new (events "abcd".toList [.escape, .char '3']) = some s ∧
      ¬ LeavesNothing s (.press (.of (.char 'D')) ⟨"abcd".toList, 0⟩)) ∧
    ∃ s, engine.exec .new (events "abcd".toList [.escape, .char '\x22', .char 'a']) = some s ∧
      ¬ LeavesNothing s (.press (.of (.char 'w')) ⟨"abcd".toList, 0⟩) := by
  let _ := asciiCase
  constructor
  · refine ⟨_, rfl, fun hleaves => ?_⟩
    have hblank := hleaves rfl _ rfl ⟨rfl, .inr (.inl rfl)⟩
    exact absurd hblank.count (by decide)
  · refine ⟨_, rfl, fun hleaves => ?_⟩
    have hblank := hleaves rfl _ rfl ⟨rfl, .inl rfl⟩
    exact absurd hblank.register (by decide)

end Goble.Vim
