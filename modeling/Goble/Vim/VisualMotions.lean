import Mathlib.Data.List.Forall2
import Goble.Vim.Caret

/-!
# The motions of visual mode

Visual mode has a table of its own for the motions. Arm by arm it is that of normal mode
(`visualCommand_eq`), so a motion of one key lands where it does there. Around the arms it is not:
visual mode reads no counts, and takes a `0` of one for the line motion; and it never looks at the
half-typed `f` of its own table, so the character to find is read as a command
(`visualMotion_iff`).
-/

namespace Goble.Vim

/-! ### Motions and counts as they are typed -/

def stepKeys : List Char :=
  ['h', 'l', 'w', 'W', 'b', 'B', 'e', 'E', '0', '^', '$', '%', ';', ',']

/-- The motions that wait for the character to find. -/
def findKeys : List Char := ['f', 'F', 't', 'T']

inductive Motion where
  | step (key : Char) (mem : key ∈ stepKeys)
  | find (key : Char) (mem : key ∈ findKeys) (target : Char)

def Motion.keys : Motion → List Char
  | step key _ => [key]
  | find key _ target => [key, target]

structure TypedCount where
  digits : List Char
  isDigit : ∀ c ∈ digits, c.isDigit = true
  head : digits.head? ≠ some '0'

def pushDigits (digits : List Char) (slot : Option Nat) : Option Nat :=
  digits.foldl VimState.pushDigit slot

/-- The count normal mode reads from digits. -/
def countOf (digits : List Char) : Nat :=
  VimState.counts { VimState.new with count := pushDigits digits none }

/-! ### Where a motion lands -/

def motionStep (c : Char) (chars : List Char) (pos : Nat) : Nat :=
  match c with
  | 'h' => pos - 1
  | 'l' => min (pos + 1) (chars.length - 1)
  | '0' => 0
  | '^' => firstNonBlank chars
  | '$' => chars.length - 1
  | '%' => (matchingBracketIndex chars pos).getD pos
  | c => wordMotion c (wordKind c) chars pos

def findLanding (motion : FindMotion) (count : Nat) (chars : List Char) (caret : Nat) : Nat :=
  (findCaretIndex chars caret motion count).getD caret

/-- Where a motion of one key lands, from a character of the text. -/
def landing (c : Char) (count : Nat) (lastFind : Option FindMotion) (chars : List Char)
    (caret : Nat) : Nat :=
  if c = ';' ∨ c = ',' then
    match lastFind with
    | none => caret
    | some motion => findLanding (motion.again c) count chars caret
  else
    let steps := if c ∈ ['0', '^', '$'] then 1 else max count 1
    min ((motionStep c chars)^[steps] caret) (chars.length - 1)

/-- Where the caret of visual mode is once a count has been typed. -/
def typedCaret (digits : List Char) (caret : Nat) : Nat := if '0' ∈ digits then 0 else caret

/-- Whether a command of visual mode leaves the anchor where it is, and visual mode on. -/
def Keeps (c : Char) (anchor caret : Nat) : Prop :=
  match c with
  | 'v' | 'd' | 'x' | 'c' | 's' | 'y' | 'Y' | '~' | 'u' | 'U' | 'p' | 'P' => False
  | 'o' => anchor = caret
  | 'V' => anchor = 0
  | _ => True

/-- Where the caret is after a command of visual mode that keeps the anchor. -/
def visualLanding (c : Char) (lastFind : Option FindMotion) (chars : List Char) (caret : Nat) :
    Nat :=
  match c with
  | ' ' => landing 'l' 1 lastFind chars caret
  | 'G' => landing '$' 1 lastFind chars caret
  | c => if c ∈ stepKeys then landing c 1 lastFind chars caret else caret

structure Selecting (e : Editor) : Prop where
  mode : e.vim.mode.isVisual = true
  reading : e.vim.reading = .idle
  caret : e.buffer.caret < e.buffer.len

def Press.Types (p : Press) (c : Char) : Prop := p.isPlain ∧ p.key = .char c

def MovesAlike [CaseTable] (e : Editor) (ps : List Press) : Prop :=
  ∃ f g, (Editor.session e).exec e ps = some f ∧
    (Editor.session e).exec (e.setMode .normal) ps = some g ∧
    f.buffer.caret = g.buffer.caret ∧ f.buffer.text = e.buffer.text ∧
    f.vim.anchor = e.vim.anchor ∧ f.vim.mode.isVisual = true

/-- What the two tables make of a count and a motion comes to the same. A motion of one key, from
where visual mode has the caret by then and without the count, lands where it does with the count.
The character to find, as a command of visual mode, keeps the anchor and lands where it is found. -/
def Alike (e : Editor) (digits : List Char) : Motion → Prop
  | .step c _ =>
    let text := e.buffer.text
    let caret := e.buffer.caret
    landing c 1 e.vim.lastFind text (typedCaret digits caret) =
      -- after a digit `0` is one more digit
      if c = '0' ∧ digits ≠ [] then caret
      else landing c (countOf digits) e.vim.lastFind text caret
  | .find c _ target =>
    let text := e.buffer.text
    let caret := typedCaret digits e.buffer.caret
    Keeps target e.vim.anchor caret ∧
      visualLanding target e.vim.lastFind text caret =
        findLanding { findMotionOf c with target } (countOf digits) text e.buffer.caret

/-! ### One key -/

structure MovedTo (e f : Editor) (caret : Nat) : Prop where
  buffer : f.buffer = ⟨e.buffer.text, caret⟩
  mode : f.vim.mode = e.vim.mode
  anchor : f.vim.anchor = e.vim.anchor
  lastFind : f.vim.lastFind = e.vim.lastFind

namespace MovedTo

variable {e f g : Editor} {caret caret' : Nat}

theorem trans (h : MovedTo e f caret) (k : MovedTo f g caret') : MovedTo e g caret' where
  buffer := by rw [k.buffer, h.buffer]
  mode := k.mode.trans h.mode
  anchor := k.anchor.trans h.anchor
  lastFind := k.lastFind.trans h.lastFind

theorem text (h : MovedTo e f caret) : f.buffer.text = e.buffer.text := by rw [h.buffer]

theorem caret_eq (h : MovedTo e f caret) : f.buffer.caret = caret := by rw [h.buffer]

end MovedTo

namespace Editor

variable {e : Editor} {c : Char}

theorem movedTo_record (e : Editor) (p : Press) (key : Key) :
    MovedTo e ((e.facing p).record key) e.buffer.caret where
  buffer := (kept_record _ key).buffer
  mode := record_mode _ key
  anchor := record_anchor _ key
  lastFind := by
    unfold record VimState.record
    split <;> rfl

theorem normalCaret_of_lt {caret len : Nat} (h : caret < len) : normalCaret caret len = caret := by
  unfold normalCaret
  split <;> omega

theorem isEmpty_of_lt (h : e.buffer.caret < e.buffer.len) : e.buffer.text.isEmpty = false := by
  rw [List.isEmpty_eq_false_iff]
  exact List.ne_nil_of_length_pos (Nat.zero_lt_of_lt h)

theorem movedTo_moveCaret (h : e.buffer.caret < e.buffer.len) (count : Nat)
    (step : List Char → Nat → Nat) :
    MovedTo e (e.moveCaret count step).1
      (min ((step e.buffer.text)^[max count 1] e.buffer.caret) (e.buffer.len - 1)) := by
  have hempty : e.dropCounts.buffer.text.isEmpty = false := isEmpty_of_lt h
  have hcaret : normalCaret e.dropCounts.buffer.caret e.dropCounts.buffer.text.length =
      e.buffer.caret := normalCaret_of_lt h
  unfold moveCaret
  dsimp only
  rw [hempty, hcaret]
  exact ⟨rfl, rfl, rfl, rfl⟩

theorem movedTo_findMove (h : e.buffer.caret < e.buffer.len) (motion : FindMotion) (count : Nat) :
    MovedTo e (e.findMove motion count).1
      (findLanding motion count e.buffer.text e.buffer.caret) := by
  have hcaret : normalCaret e.buffer.caret e.buffer.text.length = e.buffer.caret :=
    normalCaret_of_lt h
  unfold findMove findLanding
  dsimp only
  rw [isEmpty_of_lt h, hcaret]
  cases findCaretIndex e.buffer.text e.buffer.caret motion count with
  | none => exact ⟨rfl, rfl, rfl, rfl⟩
  | some pos => exact ⟨rfl, rfl, rfl, rfl⟩

variable [CaseTable]

theorem movedTo_again (h : e.buffer.caret < e.buffer.len) (hc : c = ';' ∨ c = ',') :
    MovedTo e (perform (normalCommand c e)).1
      (landing c e.vim.counts e.vim.lastFind e.buffer.text e.buffer.caret) := by
  have hcommand : normalCommand c e =
      match e.vim.lastFind with
      | none => (e.dropCounts, .consumed)
      | some motion => (e.dropCounts, .findMove (motion.again c) e.vim.counts) := by
    obtain rfl | rfl := hc <;> rfl
  unfold landing
  rw [hcommand, if_pos hc]
  cases e.vim.lastFind with
  | none => exact ⟨rfl, rfl, rfl, rfl⟩
  | some motion =>
    have hdrop : MovedTo e e.dropCounts e.buffer.caret := ⟨rfl, rfl, rfl, rfl⟩
    exact hdrop.trans (movedTo_findMove (e := e.dropCounts) h (motion.again c) e.vim.counts)

theorem movedTo_normalCommand (h : e.buffer.caret < e.buffer.len) (hc : c ∈ stepKeys) :
    MovedTo e (perform (normalCommand c e)).1
      (landing c e.vim.counts e.vim.lastFind e.buffer.text e.buffer.caret) := by
  have hmove : ∀ (f : Editor) (count : Nat) (step : List Char → Nat → Nat) (caret : Nat),
      MovedTo e f e.buffer.caret →
      caret = min ((step e.buffer.text)^[max count 1] e.buffer.caret) (e.buffer.len - 1) →
      MovedTo e (perform (f, .moveCaret count step)).1 caret := by
    intro f count step caret hf hcaret
    have hlt : f.buffer.caret < f.buffer.len := by
      rw [hf.buffer]
      exact h
    have hmoved := hf.trans (movedTo_moveCaret hlt count step)
    rw [hf.buffer] at hmoved
    rw [hcaret]
    exact hmoved
  simp only [stepKeys, List.mem_cons, List.not_mem_nil, or_false] at hc
  obtain rfl | rfl | rfl | rfl | rfl | rfl | rfl | rfl | rfl | rfl | rfl | rfl | hagain := hc
  case inr.inr.inr.inr.inr.inr.inr.inr.inr.inr.inr.inr =>
    exact movedTo_again h hagain
  all_goals
    refine hmove _ _ _ _ ⟨rfl, rfl, rfl, rfl⟩ ?_
    rfl

omit [CaseTable] in
theorem visualCommand_eq (hc : c ∈ stepKeys ++ findKeys) :
    visualCommand c e = normalCommand c e := by
  simp only [stepKeys, findKeys, List.mem_append, List.mem_cons, List.not_mem_nil, or_false] at hc
  obtain (rfl | rfl | rfl | rfl | rfl | rfl | rfl | rfl | rfl | rfl | rfl | rfl | rfl | rfl) |
    rfl | rfl | rfl | rfl := hc
  all_goals rfl

theorem movedTo_visualCommand (h : e.buffer.caret < e.buffer.len) (hc : c ∈ stepKeys) :
    MovedTo e (perform (visualCommand c e)).1
      (landing c e.vim.counts e.vim.lastFind e.buffer.text e.buffer.caret) := by
  rw [visualCommand_eq (List.mem_append_left _ hc)]
  exact movedTo_normalCommand h hc

theorem isVisual_perform {x : Editor × Call} (hmode : x.1.vim.mode = .normal) :
    (perform x).1.vim.mode.isVisual = false := by
  obtain ⟨f, call⟩ := x
  dsimp only at hmode
  have hshape := shape_perform f call
  generalize perform (f, call) = r at hshape ⊢
  cases hshape with
  | stay wrote | home wrote | place n wrote =>
    exact congrArg VimMode.isVisual (wrote.mode.trans hmode)
  | edit b wrote =>
    refine Eq.trans (congrArg VimMode.isVisual (rememberChange_mode _ none)) ?_
    exact congrArg VimMode.isVisual (wrote.mode.trans hmode)
  | scrap past => exact congrArg VimMode.isVisual hmode
  | leave | enter | change => rfl
  | undo =>
    unfold undo
    split
    · rw [hmode]; rfl
    · rfl

theorem visualCommand_keeps (h : e.buffer.caret < e.buffer.len)
    (hvisual : e.vim.mode.isVisual = true) (hcounts : e.vim.counts = 1)
    (hkeeps : Keeps c e.vim.anchor e.buffer.caret) :
    (perform (visualCommand c e)).1.buffer =
        ⟨e.buffer.text, visualLanding c e.vim.lastFind e.buffer.text e.buffer.caret⟩ ∧
      (perform (visualCommand c e)).1.vim.anchor = e.vim.anchor ∧
      (perform (visualCommand c e)).1.vim.mode.isVisual = true := by
  have hmoved : ∀ {f : Editor} {caret : Nat}, MovedTo e f caret →
      f.buffer = ⟨e.buffer.text, caret⟩ ∧ f.vim.anchor = e.vim.anchor ∧
        f.vim.mode.isVisual = true := by
    intro f caret hf
    exact ⟨hf.buffer, hf.anchor, (congrArg VimMode.isVisual hf.mode).trans hvisual⟩
  have hland : ∀ c ∈ stepKeys, MovedTo e (perform (visualCommand c e)).1
      (landing c 1 e.vim.lastFind e.buffer.text e.buffer.caret) := by
    intro c hc
    rw [← hcounts]
    exact movedTo_visualCommand h hc
  by_cases hspace : c = ' '
  · rw [hspace]
    exact hmoved (hland 'l' (by decide))
  by_cases hg : c = 'G'
  · rw [hg]
    exact hmoved (hland '$' (by decide))
  by_cases hstep : c ∈ stepKeys
  · have hlanding : visualLanding c e.vim.lastFind e.buffer.text e.buffer.caret =
        landing c 1 e.vim.lastFind e.buffer.text e.buffer.caret := by
      unfold visualLanding
      split
      · exact absurd rfl hspace
      · exact absurd rfl hg
      · exact if_pos hstep
    rw [hlanding]
    exact hmoved (hland c hstep)
  have hstay : visualLanding c e.vim.lastFind e.buffer.text e.buffer.caret = e.buffer.caret := by
    unfold visualLanding
    split
    · exact absurd rfl hspace
    · exact absurd rfl hg
    · exact if_neg hstep
  rw [hstay]
  unfold visualCommand
  split
  -- what is left answers only, but for `o` and `V`
  all_goals
    first
    | exact absurd (by decide) hstep
    | exact absurd rfl hspace
    | exact absurd rfl hg
    | exact hkeeps.elim
    | exact ⟨rfl, rfl, hvisual⟩
    | exact ⟨congrArg (VimBuffer.mk e.buffer.text) hkeeps, hkeeps.symm, hvisual⟩
    | exact ⟨rfl, hkeeps.symm, rfl⟩

omit [CaseTable] in
theorem visualCommand_mode
    (hc : c ∈ ['d', 'x', 'c', 's', 'y', 'Y', '~', 'u', 'U', 'p', 'P']) :
    (visualCommand c e).1.vim.mode = .normal := by
  simp only [List.mem_cons, List.not_mem_nil, or_false] at hc
  unfold visualCommand
  dsimp only
  cases e.vim.selection e.buffer.caret e.buffer.len with
  | none => obtain rfl | rfl | rfl | rfl | rfl | rfl | rfl | rfl | rfl | rfl | rfl := hc <;> rfl
  | some range =>
    obtain rfl | rfl | rfl | rfl | rfl | rfl | rfl | rfl | rfl | rfl | rfl := hc <;> rfl

theorem visualCommand_not_keeps (hkeeps : ¬ Keeps c e.vim.anchor e.buffer.caret)
    (hanchor : (perform (visualCommand c e)).1.vim.anchor = e.vim.anchor) :
    (perform (visualCommand c e)).1.vim.mode.isVisual = false := by
  unfold Keeps at hkeeps
  split at hkeeps
  case h_1 => rfl
  case h_13 => exact absurd hanchor.symm hkeeps
  case h_14 => exact absurd hanchor.symm hkeeps
  case h_15 => exact absurd trivial hkeeps
  all_goals
    refine isVisual_perform (visualCommand_mode ?_)
    decide

/-! ### Presses -/

variable {p : Press} {s : Editor}

omit [CaseTable] in
theorem visualKey_char (hpending : ∀ around, e.vim.pending ≠ some (.visualObject around)) :
    visualKey (.char c) e = visualCommand c (e.record (.char c)) := by
  unfold visualKey
  split
  · next hobject => exact absurd hobject (hpending _)
  · rfl

theorem step_visual (hp : p.Types c) (hvisual : e.vim.mode.isVisual = true)
    (hpending : ∀ around, e.vim.pending ≠ some (.visualObject around)) :
    (session s).step e p =
      some (perform (visualCommand c ((e.facing p).record (.char c)))).1 := by
  obtain ⟨hplain, hkey⟩ := hp
  have hmode : ∃ kind, e.vim.mode = .visual kind := by
    cases hmode : e.vim.mode with
    | visual kind => exact ⟨kind, rfl⟩
    | normal | insert | replace => rw [hmode] at hvisual; cases hvisual
  obtain ⟨kind, hmode⟩ := hmode
  show (e.press p).map Prod.fst = _
  rw [press_of_plain hplain, hmode, hkey]
  exact congrArg (fun x => some (perform x).1) (visualKey_char hpending)

theorem step_normal (hp : p.Types c) (hmode : e.vim.mode = .normal)
    (hdot : e.vim.pending = none → c ≠ '.') :
    (session s).step e p = some (perform (normalKey (.char c) (e.facing p))).1 := by
  obtain ⟨hplain, hkey⟩ := hp
  have hreads : e.readsDot p.key = false := by
    rw [hkey, readsDot, Bool.and_eq_false_iff, decide_eq_false_iff_not]
    cases hpending : e.vim.pending with
    | none => exact .inr fun hc => hdot hpending (Key.char.inj hc)
    | some pending => exact .inl rfl
  show (e.press p).map Prod.fst = _
  rw [press_normal hplain hmode hreads, hkey]
  rfl

omit [CaseTable] in
theorem counts_of_reading {s t : VimState} (h : s.reading = t.reading) : s.counts = t.counts := by
  have hcount : s.count = t.count := congrArg Reading.count h
  have hcount2 : s.count2 = t.count2 := congrArg Reading.count2 h
  unfold VimState.counts
  rw [hcount, hcount2]

omit [CaseTable] in
theorem visualCommand_digit (hc : c.isDigit = true) (hne : c ≠ '0') :
    visualCommand c e = (e, .consumed) := by
  unfold visualCommand
  split
  all_goals
    first
    | rfl
    | exact absurd rfl hne
    | exact absurd hc (by decide)

omit [CaseTable] in
theorem moveCaret_reading (count : Nat) (step : List Char → Nat → Nat) :
    (e.moveCaret count step).1.vim.reading = e.vim.reading.uncounted := by
  unfold moveCaret
  dsimp only
  split <;> rfl

omit [CaseTable] in
theorem selecting_of_movedTo {f : Editor} {caret : Nat} (he : Selecting e) (hf : MovedTo e f caret)
    (hreading : f.vim.reading = .idle) (hcaret : caret < e.buffer.len) : Selecting f where
  mode := (congrArg VimMode.isVisual hf.mode).trans he.mode
  reading := hreading
  caret := by
    rw [hf.buffer]
    exact hcaret

omit [CaseTable] in
theorem selecting_record (he : Selecting e) (p : Press) (key : Key) :
    Selecting ((e.facing p).record key) := by
  refine selecting_of_movedTo he (movedTo_record e p key) ?_ he.caret
  rw [record_reading]
  exact he.reading

omit [CaseTable] in
theorem ne_object (he : Selecting e) (around : Bool) :
    e.vim.pending ≠ some (.visualObject around) := by
  rw [show e.vim.pending = none from congrArg Reading.pending he.reading]
  exact nofun

omit [CaseTable] in
theorem landing_zero (count : Nat) (lastFind : Option FindMotion) (chars : List Char)
    (caret : Nat) : landing '0' count lastFind chars caret = 0 := by
  show min 0 (chars.length - 1) = 0
  exact Nat.zero_min _

theorem step_digit_visual (he : Selecting e) (hp : p.Types c) (hc : c.isDigit = true) :
    ∃ f, (session s).step e p = some f ∧
      MovedTo e f (if c = '0' then 0 else e.buffer.caret) ∧ Selecting f := by
  have hrecord := movedTo_record e p (.char c)
  have hselecting := selecting_record he p (.char c)
  refine ⟨_, step_visual hp he.mode (ne_object he), ?_⟩
  by_cases hzero : c = '0'
  · subst hzero
    have hmoved := hrecord.trans (movedTo_visualCommand hselecting.caret (c := '0') (by decide))
    rw [landing_zero] at hmoved
    rw [if_pos rfl]
    refine ⟨hmoved, selecting_of_movedTo he hmoved ?_ (Nat.zero_lt_of_lt he.caret)⟩
    rw [show perform (visualCommand '0' _) = moveCaret _ 1 fun _ _ => 0 from rfl,
      moveCaret_reading, hselecting.reading]
    rfl
  · rw [if_neg hzero, visualCommand_digit hc hzero]
    exact ⟨hrecord, hselecting⟩

theorem exec_digits_visual {digits : List Char} (he : Selecting e) {ps : List Press}
    (hps : List.Forall₂ Press.Types ps digits) (hdigits : ∀ c ∈ digits, c.isDigit = true) :
    ∃ f, (session s).exec e ps = some f ∧
      MovedTo e f (typedCaret digits e.buffer.caret) ∧ Selecting f := by
  induction hps generalizing e with
  | nil => exact ⟨e, rfl, ⟨rfl, rfl, rfl, rfl⟩, he⟩
  | @cons p c ps digits hp hps ih =>
    obtain ⟨f, hstep, hf, hselecting⟩ :=
      step_digit_visual (s := s) he hp (hdigits c (List.mem_cons_self ..))
    obtain ⟨g, hexec, hg, hdone⟩ :=
      ih hselecting fun c hc => hdigits c (List.mem_cons_of_mem _ hc)
    refine ⟨g, ?_, ?_, hdone⟩
    · rw [Machine.exec_cons, hstep]
      exact hexec
    · have hcaret : typedCaret digits (if c = '0' then 0 else e.buffer.caret) =
          typedCaret (c :: digits) e.buffer.caret := by
        unfold typedCaret
        by_cases hmem : '0' ∈ digits
        · rw [if_pos hmem, if_pos (List.mem_cons_of_mem _ hmem)]
        · rw [if_neg hmem]
          by_cases hzero : c = '0'
          · rw [if_pos hzero, if_pos (by rw [hzero]; exact List.mem_cons_self ..)]
          · rw [if_neg hzero, if_neg]
            exact List.not_mem_cons_of_ne_of_not_mem (Ne.symm hzero) hmem
      rw [← hcaret, ← hf.caret_eq]
      exact hf.trans hg

omit [CaseTable] in
theorem normalKey_digit (hpending : e.vim.pending = none) (hc : c.isDigit = true)
    (hcount : c ≠ '0' ∨ e.vim.count.isSome = true) :
    normalKey (.char c) e =
      ({ e.record (.char c) with vim := (e.record (.char c)).vim.pushCount c }, .consumed) := by
  unfold normalKey
  rw [hpending]
  exact if_pos ⟨hc, hcount⟩

omit [CaseTable] in
theorem normalKey_command (hpending : e.vim.pending = none)
    (hc : ¬ (c.isDigit = true ∧ (c ≠ '0' ∨ e.vim.count.isSome = true))) :
    normalKey (.char c) e = normalCommand c (e.record (.char c)) := by
  unfold normalKey
  rw [hpending]
  exact if_neg hc

omit [CaseTable] in
theorem movedTo_pushCount (e : Editor) (c : Char) :
    MovedTo e { e with vim := e.vim.pushCount c } e.buffer.caret where
  buffer := rfl
  mode := pushCount_mode _ _
  anchor := pushCount_anchor _ _
  lastFind := by
    unfold VimState.pushCount
    dsimp only
    split <;> rfl

omit [CaseTable] in
theorem pushCount_reading {s : VimState} {slot : Option Nat} (c : Char)
    (h : s.reading = ⟨none, slot, none⟩) :
    (s.pushCount c).reading = ⟨none, VimState.pushDigit slot c, none⟩ := by
  have hpending : s.pending = none := congrArg Reading.pending h
  have hcount : s.count = slot := congrArg Reading.count h
  have hcount2 : s.count2 = none := congrArg Reading.count2 h
  unfold VimState.pushCount
  rw [hpending, hcount]
  show (⟨none, VimState.pushDigit slot c, s.count2⟩ : Reading) = _
  rw [hcount2]

theorem exec_digits_normal {digits : List Char} {slot : Option Nat}
    (hmode : e.vim.mode = .normal) (hreading : e.vim.reading = ⟨none, slot, none⟩)
    {ps : List Press} (hps : List.Forall₂ Press.Types ps digits)
    (hdigits : ∀ c ∈ digits, c.isDigit = true)
    (hhead : digits.head? ≠ some '0' ∨ slot.isSome = true) :
    ∃ g, (session s).exec e ps = some g ∧ MovedTo e g e.buffer.caret ∧
      g.vim.reading = ⟨none, pushDigits digits slot, none⟩ := by
  induction hps generalizing e slot with
  | nil => exact ⟨e, rfl, ⟨rfl, rfl, rfl, rfl⟩, hreading⟩
  | @cons p c ps digits hp hps ih =>
    have hc : c.isDigit = true := hdigits c (List.mem_cons_self ..)
    have hpending : e.vim.pending = none := congrArg Reading.pending hreading
    have hcount : c ≠ '0' ∨ e.vim.count.isSome = true := by
      rw [show e.vim.count = slot from congrArg Reading.count hreading]
      exact hhead.imp_left fun hne hzero => hne (congrArg some hzero)
    have hstep : (session s).step e p = some _ := step_normal hp hmode fun _ hdot => by
      rw [hdot] at hc
      cases hc
    rw [normalKey_digit (e := e.facing p) hpending hc hcount] at hstep
    have hmoved := (movedTo_record e p (.char c)).trans (movedTo_pushCount _ c)
    have hrecorded : ((e.facing p).record (.char c)).vim.reading = ⟨none, slot, none⟩ := by
      rw [record_reading]
      exact hreading
    obtain ⟨g, hexec, hg, hdone⟩ := ih (hmoved.mode.trans hmode)
      (pushCount_reading c hrecorded)
      (fun c hc => hdigits c (List.mem_cons_of_mem _ hc)) (.inr rfl)
    refine ⟨g, ?_, ?_, hdone⟩
    · rw [Machine.exec_cons, hstep]
      exact hexec
    · exact hmoved.trans hg

/-! ### The last keys -/

variable {slot : Option Nat}

omit [CaseTable] in
theorem counts_record_facing (e : Editor) (p : Press) (key : Key) :
    ((e.facing p).record key).vim.counts = e.vim.counts := by
  refine counts_of_reading ?_
  rw [record_reading]
  rfl

omit [CaseTable] in
theorem zero_of_isDigit (hc : c ∈ stepKeys) (hdigit : c.isDigit = true) : c = '0' := by
  simp only [stepKeys, List.mem_cons, List.not_mem_nil, or_false] at hc
  obtain rfl | rfl | rfl | rfl | rfl | rfl | rfl | rfl | rfl | rfl | rfl | rfl | rfl | rfl := hc
  all_goals first | rfl | exact absurd hdigit (by decide)

omit [CaseTable] in
theorem not_isDigit_of_find (hc : c ∈ findKeys) : c.isDigit = false := by
  simp only [findKeys, List.mem_cons, List.not_mem_nil, or_false] at hc
  obtain rfl | rfl | rfl | rfl := hc <;> rfl

theorem step_motion_normal (h : e.buffer.caret < e.buffer.len) (hmode : e.vim.mode = .normal)
    (hreading : e.vim.reading = ⟨none, slot, none⟩) (hp : p.Types c) (hc : c ∈ stepKeys) :
    ∃ f, (session s).step e p = some f ∧ f.buffer.caret =
      if c = '0' ∧ slot.isSome = true then e.buffer.caret
      else landing c e.vim.counts e.vim.lastFind e.buffer.text e.buffer.caret := by
  have hpending : e.vim.pending = none := congrArg Reading.pending hreading
  have hcount : e.vim.count = slot := congrArg Reading.count hreading
  have hstep : (session s).step e p = some _ := step_normal hp hmode fun _ hdot => by
    rw [hdot] at hc
    exact absurd hc (by decide)
  refine ⟨_, hstep, ?_⟩
  by_cases hzero : c = '0' ∧ slot.isSome = true
  · have hdigit : c.isDigit = true := by rw [hzero.1]; rfl
    rw [normalKey_digit (e := e.facing p) hpending hdigit (.inr (hcount ▸ hzero.2)), if_pos hzero]
    exact ((movedTo_record e p (.char c)).trans (movedTo_pushCount _ c)).caret_eq
  · have hno : ¬ (c.isDigit = true ∧ (c ≠ '0' ∨ (e.facing p).vim.count.isSome = true)) := by
      rintro ⟨hdigit, hne | hsome⟩
      · exact hne (zero_of_isDigit hc hdigit)
      · exact hzero ⟨zero_of_isDigit hc hdigit, hcount ▸ hsome⟩
    have hrecord := movedTo_record e p (.char c)
    have hlt : ((e.facing p).record (.char c)).buffer.caret <
        ((e.facing p).record (.char c)).buffer.len := by
      rw [hrecord.buffer]
      exact h
    have hmoved := movedTo_normalCommand hlt hc
    rw [counts_record_facing, hrecord.lastFind, hrecord.buffer] at hmoved
    rw [normalKey_command (e := e.facing p) hpending hno, if_neg hzero]
    exact hmoved.caret_eq

theorem step_motion_visual (he : Selecting e) (hp : p.Types c) (hc : c ∈ stepKeys) :
    ∃ f, (session s).step e p = some f ∧
      MovedTo e f (landing c 1 e.vim.lastFind e.buffer.text e.buffer.caret) := by
  refine ⟨_, step_visual hp he.mode (ne_object he), ?_⟩
  have hrecord := movedTo_record e p (.char c)
  have hmoved := movedTo_visualCommand (selecting_record he p (.char c)).caret hc
  have hcounts : e.vim.counts = 1 := counts_of_reading (t := VimState.new) he.reading
  rw [counts_record_facing, hcounts, hrecord.lastFind, hrecord.buffer] at hmoved
  exact hrecord.trans hmoved

omit [CaseTable] in
theorem normalCommand_find (hc : c ∈ findKeys) :
    normalCommand c e = (e.setPending (some (.find (findMotionOf c))), .consumed) := by
  simp only [findKeys, List.mem_cons, List.not_mem_nil, or_false] at hc
  obtain rfl | rfl | rfl | rfl := hc <;> rfl

omit [CaseTable] in
theorem movedTo_setPending (e : Editor) (pending : Option Pending) :
    MovedTo e (e.setPending pending) e.buffer.caret := ⟨rfl, rfl, rfl, rfl⟩

structure Seeking (e f : Editor) (c : Char) : Prop where
  moved : MovedTo e f e.buffer.caret
  pending : f.vim.pending = some (.find (findMotionOf c))
  counts : f.vim.counts = e.vim.counts

omit [CaseTable] in
theorem seeking_normalCommand (e : Editor) (p : Press) (hc : c ∈ findKeys) :
    ∃ f, normalCommand c ((e.facing p).record (.char c)) = (f, .consumed) ∧ Seeking e f c := by
  refine ⟨_, normalCommand_find hc, ?_, rfl, ?_⟩
  · exact (movedTo_record e p (.char c)).trans (movedTo_setPending _ _)
  · exact counts_record_facing e p (.char c)

theorem step_find_normal (hmode : e.vim.mode = .normal) (hpending : e.vim.pending = none)
    (hp : p.Types c) (hc : c ∈ findKeys) :
    ∃ f, (session s).step e p = some f ∧ Seeking e f c := by
  have hno : ¬ (c.isDigit = true ∧ (c ≠ '0' ∨ (e.facing p).vim.count.isSome = true)) := by
    rintro ⟨hdigit, -⟩
    rw [not_isDigit_of_find hc] at hdigit
    cases hdigit
  have hstep : (session s).step e p = some _ := step_normal hp hmode fun _ hdot => by
    rw [hdot] at hc
    exact absurd hc (by decide)
  obtain ⟨f, hcommand, hf⟩ := seeking_normalCommand e p hc
  rw [normalKey_command (e := e.facing p) hpending hno, hcommand] at hstep
  exact ⟨f, hstep, hf⟩

theorem step_find_visual (he : Selecting e) (hp : p.Types c) (hc : c ∈ findKeys) :
    ∃ f, (session s).step e p = some f ∧ Seeking e f c := by
  have hstep : (session s).step e p = some _ := step_visual hp he.mode (ne_object he)
  obtain ⟨f, hcommand, hf⟩ := seeking_normalCommand e p hc
  rw [visualCommand_eq (List.mem_append_right _ hc), hcommand] at hstep
  exact ⟨f, hstep, hf⟩

variable {f : Editor} {target : Char} {q : Press}

theorem step_target_normal (h : e.buffer.caret < e.buffer.len) (hmode : e.vim.mode = .normal)
    (hf : Seeking e f c) (hq : q.Types target) :
    ∃ g, (session s).step f q = some g ∧ g.buffer.caret =
      findLanding { findMotionOf c with target } e.vim.counts e.buffer.text e.buffer.caret := by
  have hsome : f.vim.pending = none → target ≠ '.' := by
    rw [hf.pending]
    exact nofun
  refine ⟨_, step_normal hq (hf.moved.mode.trans hmode) hsome, ?_⟩
  have hkey : normalKey (.char target) (f.facing q) =
      normalPending (.find (findMotionOf c)) (.char target)
        ((f.facing q).record (.char target)) := by
    unfold normalKey
    rw [show (f.facing q).vim.pending = _ from hf.pending]
    rfl
  have hrecord := hf.moved.trans (movedTo_record f q (.char target))
  rw [hf.moved.caret_eq] at hrecord
  have hcounts : ((f.facing q).record (.char target)).vim.counts = e.vim.counts :=
    (counts_record_facing f q (.char target)).trans hf.counts
  rw [hkey, ← hcounts]
  generalize (f.facing q).record (.char target) = r at hrecord
  have hlt : r.buffer.caret < r.buffer.len := by
    rw [hrecord.buffer]
    exact h
  have hmoved := movedTo_findMove (e := (normalPending (.find (findMotionOf c)) (.char target) r).1)
    hlt { findMotionOf c with target } r.vim.counts
  refine Eq.trans hmoved.caret_eq ?_
  show findLanding _ _ r.buffer.text r.buffer.caret = _
  rw [hrecord.buffer]

omit [CaseTable] in
/-- Between the keys of a find, visual mode reads the next one as a command. -/
theorem seeking_visual (he : Selecting e) (hf : Seeking e f c) (target : Char) (q : Press) :
    MovedTo e ((f.facing q).record (.char target)) e.buffer.caret ∧
      ((f.facing q).record (.char target)).vim.counts = 1 := by
  have hrecord := hf.moved.trans (movedTo_record f q (.char target))
  rw [hf.moved.caret_eq] at hrecord
  refine ⟨hrecord, ?_⟩
  rw [counts_record_facing, hf.counts]
  exact counts_of_reading (t := VimState.new) he.reading

theorem step_target_visual (he : Selecting e) (hf : Seeking e f c) (hq : q.Types target) :
    ∃ g, (session s).step f q = some g ∧
      (g.buffer.text = e.buffer.text ∧ g.vim.anchor = e.vim.anchor ∧
        g.vim.mode.isVisual = true ↔ Keeps target e.vim.anchor e.buffer.caret) ∧
      (Keeps target e.vim.anchor e.buffer.caret → g.buffer.caret =
        visualLanding target e.vim.lastFind e.buffer.text e.buffer.caret) := by
  have hvisual : f.vim.mode.isVisual = true :=
    (congrArg VimMode.isVisual hf.moved.mode).trans he.mode
  have hobject : ∀ around, f.vim.pending ≠ some (.visualObject around) := by
    rw [hf.pending]
    exact nofun
  refine ⟨_, step_visual hq hvisual hobject, ?_⟩
  obtain ⟨hmoved, hcounts⟩ := seeking_visual he hf target q
  generalize (f.facing q).record (.char target) = r at hmoved hcounts
  have hlt : r.buffer.caret < r.buffer.len := by
    rw [hmoved.buffer]
    exact he.caret
  have hmode : r.vim.mode.isVisual = true :=
    (congrArg VimMode.isVisual hmoved.mode).trans he.mode
  have hkeeps : Keeps target e.vim.anchor e.buffer.caret ↔
      Keeps target r.vim.anchor r.buffer.caret := by
    rw [hmoved.anchor, hmoved.caret_eq]
  refine ⟨⟨fun hall => ?_, fun hk => ?_⟩, fun hk => ?_⟩
  · by_contra hnot
    rw [hkeeps] at hnot
    have hleft := visualCommand_not_keeps hnot (hall.2.1.trans hmoved.anchor.symm)
    rw [hall.2.2] at hleft
    cases hleft
  · obtain ⟨hbuffer, hanchor, hstays⟩ := visualCommand_keeps hlt hmode hcounts (hkeeps.mp hk)
    refine ⟨?_, hanchor.trans hmoved.anchor, hstays⟩
    rw [hbuffer]
    exact hmoved.text
  · obtain ⟨hbuffer, -, -⟩ := visualCommand_keeps hlt hmode hcounts (hkeeps.mp hk)
    rw [hbuffer, hmoved.lastFind, hmoved.buffer]

end Editor

open Editor

section Motions

variable [CaseTable] {e : Editor} {count : TypedCount} {ps : List Press} {p q : Press} {c : Char}

omit [CaseTable] in
theorem isSome_pushDigits (digits : List Char) :
    (pushDigits digits none).isSome = true ↔ digits ≠ [] := by
  have hsome : ∀ (digits : List Char) (n : Nat), (pushDigits digits (some n)).isSome = true := by
    intro digits
    induction digits with
    | nil => exact fun _ => rfl
    | cons c digits ih => exact fun _ => ih _
  cases digits with
  | nil => simp [pushDigits]
  | cons c digits => exact iff_of_true (hsome digits _) (List.cons_ne_nil c digits)

theorem exec_count (he : Selecting e) (hps : List.Forall₂ Press.Types ps count.digits) :
    (∃ f, (session e).exec e ps = some f ∧
      MovedTo e f (typedCaret count.digits e.buffer.caret) ∧ Selecting f) ∧
    ∃ g, (session e).exec (e.setMode .normal) ps = some g ∧
      MovedTo (e.setMode .normal) g e.buffer.caret ∧
      g.vim.reading = ⟨none, pushDigits count.digits none, none⟩ ∧
      g.vim.counts = countOf count.digits := by
  refine ⟨exec_digits_visual he hps count.isDigit, ?_⟩
  obtain ⟨g, hexec, hg, hreading⟩ := exec_digits_normal (e := e.setMode .normal) (s := e) rfl
    (he.reading : e.vim.reading = _) hps count.isDigit (.inl count.head)
  exact ⟨g, hexec, hg, hreading, counts_of_reading hreading⟩

/-- The answers of two runs that end. -/
theorem movesAlike_iff {f g : Editor} (hvisual : (session e).exec e ps = some f)
    (hnormal : (session e).exec (e.setMode .normal) ps = some g) :
    MovesAlike e ps ↔ f.buffer.caret = g.buffer.caret ∧ f.buffer.text = e.buffer.text ∧
      f.vim.anchor = e.vim.anchor ∧ f.vim.mode.isVisual = true := by
  constructor
  · rintro ⟨f', g', hf', hg', hall⟩
    obtain rfl := Option.some.inj (hvisual.symm.trans hf')
    obtain rfl := Option.some.inj (hnormal.symm.trans hg')
    exact hall
  · exact fun hall => ⟨f, g, hvisual, hnormal, hall⟩

theorem exec_concat {s f g : Editor} (hexec : (session s).exec e ps = some f)
    (hstep : (session s).step f p = some g) :
    (session s).exec e (ps ++ [p]) = some g := by
  rw [Machine.exec_append, hexec]
  show (session s).exec f [p] = _
  rw [Machine.exec_cons, hstep]
  rfl

theorem movesAlike_step (he : Selecting e) (hps : List.Forall₂ Press.Types ps count.digits)
    (hp : p.Types c) (hc : c ∈ stepKeys) :
    MovesAlike e (ps ++ [p]) ↔ Alike e count.digits (.step c hc) := by
  obtain ⟨⟨f, hexecf, hf, hselecting⟩, g, hexecg, hg, hreading, hcounts⟩ := exec_count he hps
  obtain ⟨f', hstepf, hf'⟩ := step_motion_visual (s := e) hselecting hp hc
  have hlt : g.buffer.caret < g.buffer.len := by
    rw [hg.buffer]
    exact he.caret
  obtain ⟨g', hstepg, hg'⟩ :=
    step_motion_normal (s := e) hlt (hg.mode.trans rfl) hreading hp hc
  rw [movesAlike_iff (exec_concat hexecf hstepf) (exec_concat hexecg hstepg)]
  have hmoved := hf.trans hf'
  have hrest : f'.buffer.text = e.buffer.text ∧ f'.vim.anchor = e.vim.anchor ∧
      f'.vim.mode.isVisual = true :=
    ⟨hmoved.text, hmoved.anchor, (congrArg VimMode.isVisual hmoved.mode).trans he.mode⟩
  rw [and_iff_left hrest, hg', hmoved.caret_eq, hcounts, hg.lastFind, hg.buffer, hf.lastFind,
    hf.buffer]
  simp only [isSome_pushDigits]
  rfl

theorem movesAlike_find {target : Char} (he : Selecting e)
    (hps : List.Forall₂ Press.Types ps count.digits) (hp : p.Types c) (hc : c ∈ findKeys)
    (hq : q.Types target) :
    MovesAlike e (ps ++ [p, q]) ↔ Alike e count.digits (.find c hc target) := by
  obtain ⟨⟨f, hexecf, hf, hselecting⟩, g, hexecg, hg, hreading, hcounts⟩ := exec_count he hps
  obtain ⟨f₁, hfindf, hf₁⟩ := step_find_visual (s := e) hselecting hp hc
  obtain ⟨f₂, htargetf, hkeeps, hcaret⟩ := step_target_visual (s := e) hselecting hf₁ hq
  have hlt : g.buffer.caret < g.buffer.len := by
    rw [hg.buffer]
    exact he.caret
  have hmode : g.vim.mode = .normal := hg.mode.trans rfl
  obtain ⟨g₁, hfindg, hg₁⟩ :=
    step_find_normal (s := e) hmode (congrArg Reading.pending hreading) hp hc
  obtain ⟨g₂, htargetg, hg₂⟩ := step_target_normal (s := e) hlt hmode hg₁ hq
  rw [show ps ++ [p, q] = ps ++ [p] ++ [q] by rw [List.append_assoc]; rfl,
    movesAlike_iff (exec_concat (exec_concat hexecf hfindf) htargetf)
      (exec_concat (exec_concat hexecg hfindg) htargetg)]
  rw [hf.anchor, hf.buffer] at hkeeps
  rw [hf.anchor, hf.lastFind, hf.buffer] at hcaret
  rw [hg₂, hcounts, hg.buffer]
  show _ ↔ Keeps target e.vim.anchor _ ∧ _
  constructor
  · rintro ⟨hland, hrest⟩
    have hkept := hkeeps.mp hrest
    exact ⟨hkept, (hcaret hkept).symm.trans hland⟩
  · rintro ⟨hkept, hland⟩
    exact ⟨(hcaret hkept).trans hland, hkeeps.mpr hkept⟩

/-- **When a motion of visual mode is that of normal mode.** Typed in visual mode, a count and a
motion move the caret where they do in normal mode, and leave the text, the anchor and the mode,
exactly when the motion comes to the same from where the count has left the caret, without the
count, and a character to find is one that visual mode, reading it as a command, answers like that. -/
theorem visualMotion_iff (e : Editor) (he : Selecting e) (count : TypedCount) (motion : Motion)
    (ps qs : List Press) (hps : List.Forall₂ Press.Types ps count.digits)
    (hqs : List.Forall₂ Press.Types qs motion.keys) :
    MovesAlike e (ps ++ qs) ↔ Alike e count.digits motion := by
  cases motion with
  | step c hc =>
    obtain _ | ⟨hp, hnil⟩ := hqs
    obtain _ | _ := hnil
    exact movesAlike_step he hps hp hc
  | find c hc target =>
    obtain _ | ⟨hp, hqs⟩ := hqs
    obtain _ | ⟨hq, hnil⟩ := hqs
    obtain _ | _ := hnil
    exact movesAlike_find he hps hp hc hq

end Motions

def selectingFirst (text : List Char) : Editor :=
  ⟨{ VimState.new with mode := .visual .charwise }, ⟨text, 0⟩, none⟩

theorem selecting_selectingFirst {text : List Char} (h : 0 < text.length) :
    Selecting (selectingFirst text) := ⟨rfl, rfl, h⟩

theorem types_of (c : Char) : (Press.of (.char c)).Types c :=
  ⟨⟨by rintro (h | h) <;> simp [Press.of, ModifiersState.none] at h, rfl, rfl, rfl⟩, rfl⟩

def noCount : TypedCount where
  digits := []
  isDigit _ hc := absurd hc List.not_mem_nil
  head := nofun

def threeTimes : TypedCount where
  digits := ['3']
  isDigit _ hc := by rw [List.mem_singleton.mp hc]; rfl
  head := by decide

theorem visualMotion_iff_l :
    @MovesAlike asciiCase (selectingFirst "abcd".toList) ([] ++ [Press.of (.char 'l')]) ↔
      Alike (selectingFirst "abcd".toList) noCount.digits (.step 'l' (by decide)) :=
  @visualMotion_iff asciiCase _ (selecting_selectingFirst (by decide)) noCount (.step 'l' (by decide))
    [] [Press.of (.char 'l')] .nil (.cons (types_of 'l') .nil)

/-- `3l` moves by one character, and `fd` deletes the selection. -/
theorem not_visualMotion :
    ¬ @MovesAlike asciiCase (selectingFirst "abcd".toList)
        [Press.of (.char '3'), Press.of (.char 'l')] ∧
      ¬ @MovesAlike asciiCase (selectingFirst "abcd".toList)
        [Press.of (.char 'f'), Press.of (.char 'd')] := by
  have he : Selecting (selectingFirst "abcd".toList) := selecting_selectingFirst (by decide)
  constructor
  · intro hmoves
    have halike := (@movesAlike_step asciiCase _ threeTimes _ _ _ he (.cons (types_of '3') .nil)
      (types_of 'l') (by decide)).mp hmoves
    exact absurd (show (1 : Nat) = 3 from halike) (by decide)
  · intro hmoves
    have halike := (@movesAlike_find asciiCase _ noCount _ _ _ _ _ he .nil (types_of 'f')
      (by decide) (types_of 'd')).mp hmoves
    exact halike.1

end Goble.Vim
