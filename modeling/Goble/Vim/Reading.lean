import Goble.Vim.Calls

/-!
# What is half typed

The pending command and the two counts are a `Reading`. A key of the normal-mode table changes it the
same way whatever the text, the mode and the registers are (`reading_press`), so what recorded keys
will be read as can be told from the keys alone: which of them are only half of a command
(`Reading.half`), whether they are one command (`Reading.single`), and whether a `.` among them is
the dot command (`Reading.readsDot`) or the argument of another.
-/

namespace Goble.Vim

structure Reading where
  pending : Option Pending
  count : Option Nat
  count2 : Option Nat
deriving DecidableEq

def VimState.reading (s : VimState) : Reading := ⟨s.pending, s.count, s.count2⟩

namespace Reading

/-- Nothing half typed. -/
def idle : Reading := ⟨none, none, none⟩

variable (r : Reading)

/-- A digit that goes into the count before the operator, where a leading `0` is a motion. -/
def digit (c : Char) : Prop := c.isDigit ∧ (c ≠ '0' ∨ r.count.isSome)

def digit2 (c : Char) : Prop := c.isDigit ∧ (c ≠ '0' ∨ r.count2.isSome)

instance (c : Char) : Decidable (r.digit c) := inferInstanceAs (Decidable (_ ∧ _))

instance (c : Char) : Decidable (r.digit2 c) := inferInstanceAs (Decidable (_ ∧ _))

def uncounted : Reading := { r with count := none, count2 := none }

def takesCounts (c : Char) : Bool :=
  c ∈ ['h', 'l', ' ', 'j', 'k', 'w', 'W', 'b', 'B', 'e', 'E', '0', '^', 'G', '$', '%', ';', ',', 'x',
    'X', 's', '~', 'u', 'p', 'P']

/-- What a command leaves half typed. -/
def afterCommand (c : Char) : Reading :=
  match c with
  | 'f' | 'F' | 't' | 'T' => { r with pending := some (.find (findMotionOf c)) }
  | 'g' => { r with pending := some .g }
  | 'r' => { r with pending := some .replace }
  | 'd' | 'c' | 'y' => { r with pending := some (.operator ((Operator.fromChar c).getD .delete)) }
  | '\x22' => { r with pending := some .register }
  | 'R' => idle
  | _ => if takesCounts c then r.uncounted else r

/-- What the key after a half-typed command leaves half typed. -/
def afterPending (pending : Pending) (key : Key) : Reading :=
  match pending, key with
  | .operator operator, .char c =>
    if r.digit2 c then { r with count2 := VimState.pushDigit r.count2 c }
    else if c = 'i' ∨ c = 'a' then { r with pending := some (.textObject operator (c = 'a')) }
    else if c ∈ ['f', 'F', 't', 'T'] then
      { r with pending := some (.operatorFind operator (findMotionOf c)) }
    else idle
  | .g, .char c => if c ∈ ['g', 'e', 'E', '~', 'u', 'U'] then idle else { r with pending := none }
  | .operator _, _ | .g, _ | .register, _ | .visualObject _, _ => { r with pending := none }
  | .textObject .., _ | .find _, _ | .operatorFind .., _ | .replace, _ => idle

/-- What a key leaves half typed. -/
def next (key : Key) : Reading :=
  match r.pending with
  | some pending => r.afterPending pending key.named
  | none =>
    match key.named with
    | .char c =>
      if r.digit c then { r with count := VimState.pushDigit r.count c } else r.afterCommand c
    | _ => r

/-- The command a key is read as, if it is not part of another. -/
def command (key : Key) : Option Char :=
  match r.pending, key.named with
  | none, .char c => if r.digit c then none else some c
  | _, _ => none

def half (key : Key) : Bool :=
  match r.pending, key.named with
  | none, .char c => r.digit c ∨ c ∈ ['f', 'F', 't', 'T', 'g', 'r', 'd', 'c', 'y', '\x22']
  | some (.operator _), .char c => r.digit2 c ∨ c ∈ ['i', 'a', 'f', 'F', 't', 'T']
  | some .register, _ => true
  | _, _ => false

/-- Whether the keys are one command: the last completes what the others half typed. -/
def single : Reading → List Key → Bool
  | _, [] => false
  | r, [key] => !r.half key && r.command key ≠ some '.'
  | r, key :: keys => r.half key && single (r.next key) keys

def lastCommand : Reading → List Key → Option Char
  | _, [] => none
  | r, [key] => r.command key
  | r, key :: keys => lastCommand (r.next key) keys

def readsDot : Reading → List Key → Bool
  | _, [] => false
  | r, key :: keys => r.command key = some '.' || readsDot (r.next key) keys

end Reading

/-! ### Lists of keys -/

variable {key : Key}

namespace Reading

/-- What a list of keys leaves half typed. -/
def after (r : Reading) (keys : List Key) : Reading := keys.foldl next r

theorem readsDot_append (r : Reading) (keys more : List Key) :
    r.readsDot (keys ++ more) = (r.readsDot keys || (r.after keys).readsDot more) := by
  induction keys generalizing r with
  | nil => rfl
  | cons key keys ih => simp only [List.cons_append, readsDot, ih, Bool.or_assoc]; rfl

theorem command_eq_some {r : Reading} {c : Char} (hc : c.isDigit = false) :
    r.command key = some c ↔ r.pending = none ∧ key.named = .char c := by
  have hdigit : ¬r.digit c := fun h => absurd (hc.symm.trans h.1) nofun
  unfold command
  constructor
  · intro h
    split at h
    · next d hpending hd =>
      split_ifs at h
      exact ⟨hpending, Option.some.inj h ▸ hd⟩
    · cases h
  · rintro ⟨hpending, hkey⟩
    rw [hpending, hkey]
    exact if_neg hdigit

theorem command_of_half {r : Reading} (h : r.half key = true) :
    r.command key ≠ some '.' := by
  intro hdot
  obtain ⟨hpending, hkey⟩ := (command_eq_some rfl).mp hdot
  have hdigit : ¬r.digit '.' := fun h => absurd h.1 (by decide)
  simp [half, hpending, hkey, hdigit] at h

theorem single_cons_cons (r : Reading) (key key' : Key) (keys : List Key) :
    r.single (key :: key' :: keys) = (r.half key && (r.next key).single (key' :: keys)) := rfl

theorem readsDot_of_single {r : Reading} {keys : List Key} (h : r.single keys = true) :
    r.readsDot keys = false := by
  induction keys generalizing r with
  | nil => rfl
  | cons key keys ih =>
    cases keys with
    | nil =>
      rw [single, Bool.and_eq_true, decide_eq_true_eq] at h
      rw [readsDot, decide_eq_false h.2]
      rfl
    | cons key' keys =>
      rw [single_cons_cons, Bool.and_eq_true] at h
      rw [readsDot, ih h.2, decide_eq_false (command_of_half h.1)]
      rfl

theorem after_append (r : Reading) (keys more : List Key) :
    r.after (keys ++ more) = (r.after keys).after more := List.foldl_append

end Reading

/-- The keys can be read again and again, from nothing half typed, without a dot command. -/
def Clean (keys : List Key) : Prop :=
  ∀ n, Reading.idle.readsDot (List.replicate n keys).flatten = false

/-- Once is enough for keys that leave nothing half typed. -/
theorem clean_of_idle {keys : List Key} (hdot : Reading.idle.readsDot keys = false)
    (hidle : Reading.idle.after keys = .idle) : Clean keys := by
  intro n
  induction n with
  | zero => rfl
  | succ n ih =>
    rw [List.replicate_succ, List.flatten_cons, Reading.readsDot_append, hdot, hidle, ih]
    rfl

theorem Clean.again {keys : List Key} (h : Clean keys) (n : Nat) :
    (Reading.idle.after (List.replicate n keys).flatten).readsDot keys = false := by
  have hmore := h (n + 1)
  rw [List.replicate_succ', List.flatten_append, List.flatten_singleton, Reading.readsDot_append,
    Bool.or_eq_false_iff] at hmore
  exact hmore.2

/-! ### What the tables leave half typed -/

/-- What a call leaves half typed: a motion drops the counts. -/
def Call.settle : Call → Reading → Reading
  | .moveCaret _ _, r => r.uncounted
  | _, r => r

namespace Editor

section Frames

variable (e : Editor)

@[simp] theorem record_reading (key : Key) : (e.record key).vim.reading = e.vim.reading := by
  unfold record VimState.record
  split <;> rfl

@[simp] theorem rememberChange_reading (insert : Option (List Char)) :
    (e.rememberChange insert).vim.reading = e.vim.reading := by
  unfold rememberChange VimState.rememberChange
  split <;> rfl

@[simp] theorem writeRegister_reading (name : Char) (text : List Char) (linewise : Bool) :
    (e.writeRegister name text linewise).vim.reading = e.vim.reading := by
  unfold writeRegister
  dsimp only
  split_ifs <;> rfl

end Frames

section Tables

variable {e : Editor}

theorem settle_normalCommand (c : Char) (e : Editor) :
    (normalCommand c e).2.settle (normalCommand c e).1.vim.reading =
      e.vim.reading.afterCommand c := by
  unfold normalCommand
  split
  all_goals first | rfl | (split <;> rfl) | skip
  -- no command: nothing is half typed by it, and no counts are taken
  have htakes : Reading.takesCounts c = false := by simp_all [Reading.takesCounts]
  unfold Reading.afterCommand
  split
  all_goals first | contradiction | (rw [htakes]; rfl)

theorem settle_gCommand (c : Char) (h : e.vim.pending = none) :
    (gCommand (.char c) e).2.settle (gCommand (.char c) e).1.vim.reading =
      e.vim.reading.afterPending .g (.char c) := by
  have hidle : e.vim.reading.uncounted = .idle := by
    change (⟨e.vim.pending, none, none⟩ : Reading) = _
    rw [h]
    rfl
  unfold gCommand
  dsimp only
  split
  all_goals first | exact hidle | skip
  have hc : c ∉ ['g', 'e', 'E', '~', 'u', 'U'] := by simp_all
  unfold Reading.afterPending
  simp only [if_neg hc]
  change (⟨e.vim.pending, e.vim.count, e.vim.count2⟩ : Reading) = _
  rw [h]
  rfl

theorem settle_operate (operator : Operator) (range : Option Range) (r : Reading) :
    (operate operator range).settle r = r := by
  cases range <;> rfl

theorem settle_normalPending {pending : Pending} (key : Key) (h : e.vim.pending = some pending) :
    (normalPending pending key e).2.settle (normalPending pending key e).1.vim.reading =
      e.vim.reading.afterPending pending key := by
  unfold normalPending
  cases pending with
  | g =>
    cases key with
    | char c => exact settle_gCommand c rfl
    | _ => rfl
  | register =>
    cases key with
    | char c =>
      dsimp only
      split <;> rfl
    | _ => rfl
  | operator operator =>
    cases key with
    | char c =>
      have hdigit : e.vim.reading.digit2 c ↔
          c.isDigit = true ∧ (c ≠ '0' ∨ e.vim.count2.isSome = true) := Iff.rfl
      simp only [Reading.afterPending, hdigit]
      split_ifs
      · simp only [Call.settle, VimState.pushCount, h, Option.isSome_some, if_true]
        simp [VimState.reading, setPending, h]
      · rfl
      · rfl
      · rfl
      · exact settle_operate _ _ _
    | _ => rfl
  | textObject | operatorFind =>
    cases key with
    | char c => exact settle_operate _ _ _
    | _ => rfl
  | visualObject =>
    cases key with
    | char c =>
      dsimp only
      split <;> rfl
    | _ => rfl
  | find | replace =>
    cases key <;> rfl

theorem settle_normalKey (key : Key) (e : Editor) :
    (normalKey key e).2.settle (normalKey key e).1.vim.reading = e.vim.reading.next key := by
  have hdigit : ∀ c, e.vim.reading.digit c ↔
      c.isDigit = true ∧ (c ≠ '0' ∨ e.vim.count.isSome = true) := fun _ => Iff.rfl
  unfold normalKey Reading.next
  cases hpending : e.vim.pending with
  | some pending =>
    have hrecord : (e.record key.named).vim.pending = some pending :=
      (congrArg Reading.pending (record_reading e key.named)).trans hpending
    have hreading : e.vim.reading.pending = some pending := hpending
    simp only [hreading]
    rw [settle_normalPending _ hrecord, record_reading]
  | none =>
    have hreading : e.vim.reading.pending = none := hpending
    simp only [hreading]
    cases key.named with
    | char c =>
      have hrecord : (e.record (.char c)).vim.pending = none :=
        (congrArg Reading.pending (record_reading e (.char c))).trans hpending
      simp only [hdigit]
      split_ifs
      · have hread := record_reading e (.char c)
        simp only [Call.settle, VimState.pushCount, hrecord, Option.isSome_none, Bool.false_eq_true,
          if_false]
        rw [← hread]
        rfl
      · rw [settle_normalCommand, record_reading]
    | _ => rfl

end Tables

variable [CaseTable] (e : Editor)

theorem applyOperator_reading (operator : Operator) (range : Range) (linewise : Bool) :
    (e.applyOperator operator range linewise).1.vim.reading = e.vim.reading := by
  unfold applyOperator
  dsimp only
  split_ifs
  · rfl
  · cases operator with
    | yank => exact writeRegister_reading _ _ _ _
    | delete => exact (rememberChange_reading _ _).trans (writeRegister_reading _ _ _ _)
    | change => exact writeRegister_reading _ _ _ _
    | toggleCase | lowercase | uppercase =>
      dsimp only
      split
      · exact rememberChange_reading _ _
      · rfl

theorem reading_perform {call : Call} (hundo : call = .undo → e.vim.reading = .idle) :
    (perform (e, call)).1.vim.reading = call.settle e.vim.reading := by
  cases call with
  | moveCaret count step =>
    simp only [perform, moveCaret]
    split_ifs <;> rfl
  | undo =>
    simp only [perform, undo]
    split
    · rfl
    · exact (hundo rfl).symm
  | findMove motion count =>
    simp only [perform, findMove]
    split_ifs
    · rfl
    · split <;> rfl
  | enterInsert place => cases place <;> rfl
  | applyOperator operator range linewise => exact applyOperator_reading e operator range linewise
  | toggle count =>
    simp only [perform, toggle]
    split_ifs <;> exact applyOperator_reading e _ _ _
  | overwrite count c =>
    simp only [perform, overwrite]
    split
    · exact rememberChange_reading _ _
    · rfl
  | paste count before =>
    simp only [perform, paste]
    split_ifs
    · rfl
    all_goals exact rememberChange_reading _ _
  | pasteOver range text => exact rememberChange_reading _ _
  | consumed | passthrough | select | swapEnds | leaveVisual => rfl

omit [CaseTable] in
theorem readsDot_iff {e : Editor} :
    e.readsDot key = true ↔ e.vim.reading.command key = some '.' := by
  have hpending : e.vim.reading.pending = e.vim.pending := rfl
  rw [Reading.command_eq_some rfl, hpending, readsDot, Bool.and_eq_true, decide_eq_true_eq,
    Option.isNone_iff_eq_none]
  refine and_congr_right fun _ => ⟨fun h => by rw [h]; rfl, fun h => ?_⟩
  exact Key.eq_of_named h (by decide)

omit [CaseTable] in
theorem normalKey_of_half {e : Editor} (h : e.vim.reading.half key = true) :
    (normalKey key e).2 = .consumed ∧ (normalKey key e).1.vim.mode = e.vim.mode := by
  unfold Reading.half at h
  unfold normalKey
  cases hpending : e.vim.pending with
  | none =>
    have hreading : e.vim.reading.pending = none := hpending
    rw [hreading] at h
    cases hkey : key.named with
    | char c =>
      rw [hkey] at h
      dsimp only
      split_ifs with hdigit
      · exact ⟨rfl, (pushCount_mode _ _).trans (record_mode _ _)⟩
      · have hc := (of_decide_eq_true h).resolve_left hdigit
        simp only [List.mem_cons, List.not_mem_nil, or_false] at hc
        rcases hc with rfl | rfl | rfl | rfl | rfl | rfl | rfl | rfl | rfl | rfl <;>
          exact ⟨rfl, record_mode _ _⟩
    | _ => simp [hkey] at h
  | some pending =>
    have hreading : e.vim.reading.pending = some pending := hpending
    rw [hreading] at h
    cases pending with
    | operator operator =>
      cases hkey : key.named with
      | char c =>
        rw [hkey] at h
        have hcount : (e.record (.char c)).vim.count2 = e.vim.count2 :=
          congrArg Reading.count2 (record_reading e (.char c))
        simp only [normalPending, hcount]
        split_ifs with hdigit hobject hfind
        · exact ⟨rfl, (pushCount_mode _ _).trans (record_mode _ _)⟩
        · exact ⟨rfl, record_mode _ _⟩
        · exact ⟨rfl, record_mode _ _⟩
        all_goals
          have hc := (of_decide_eq_true h).resolve_left hdigit
          simp_all
      | _ => simp [hkey] at h
    | register =>
      cases key.named with
      | char c =>
        refine ⟨rfl, ?_⟩
        simp only [normalPending]
        split_ifs <;> exact record_mode _ _
      | _ => exact ⟨rfl, record_mode _ _⟩
    | _ => simp at h

/-- **What a key leaves half typed** does not depend on what it is typed into. -/
theorem reading_press (key : Key) (e : Editor) :
    (perform (normalKey key e)).1.vim.reading = e.vim.reading.next key := by
  have hidle : (normalKey key e).2 = .undo → (normalKey key e).1.vim.reading = .idle := by
    intro hundo
    obtain ⟨hpending, hkey⟩ := normalKey_eq_undo hundo
    have hread := settle_normalKey key e
    have hreading : e.vim.reading.pending = none := hpending
    rw [hundo] at hread
    simp only [Reading.next, hreading, hkey] at hread
    rw [show (normalKey key e).1.vim.reading = _ from hread]
    change (⟨e.vim.pending, none, none⟩ : Reading) = _
    rw [hpending]
    rfl
  rw [← settle_normalKey]
  exact reading_perform _ hidle

end Editor

end Goble.Vim
