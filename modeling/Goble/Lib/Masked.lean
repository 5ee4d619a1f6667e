import Mathlib.Data.List.Basic
import Mathlib.Data.List.TakeWhile

/-!
# Texts with literals and comments

What stands in a literal or in a comment is no code. A `Grammar` says which literals and comments
there are besides double-quoted strings and line comments; a `Reading` of a text is where one is
after a part of it; `mask` keeps the code and blanks the rest.

A *call* is a name that stands as a whole identifier, followed by white space and an opening
parenthesis. Calls in a text are found word by word: a character that starts no identifier has no
part in one (`calls_cons`), and an identifier is one call or none (`calls_word`).
-/

namespace Goble.Masked

/-- The literals and comments of a language, besides double-quoted strings and line comments. -/
structure Grammar where
  /-- Literals between single quotes, with escapes. -/
  chars : Bool
  /-- Literals between back quotes, in which `$` and a brace open code. -/
  backQuotes : Bool
  /-- Nested block comments. -/
  blocks : Bool

inductive Mode
  | code
  /-- Code, after a slash. -/
  | slash
  | quoted (quote : Char) (escaped : Bool)
  | backQuoted (dollar : Bool)
  | line
  /-- The character before is kept, unless it is part of a mark. -/
  | block (depth : Nat) (last : Char)
deriving DecidableEq

/-- Where one is in a text. -/
structure Reading where
  mode : Mode
  /-- The back-quoted literals that code stands in, with the braces open in each. -/
  nest : List Nat
deriving DecidableEq

namespace Reading

def start : Reading := ⟨.code, []⟩

/-- Whether the next character may be code. -/
def isCode (r : Reading) : Bool :=
  match r.mode with
  | .code | .slash => true
  | _ => false

variable (g : Grammar)

def nextCode (nest : List Nat) (c : Char) : Reading :=
  if c = '\x22' then ⟨.quoted c false, nest⟩
  else if c = '\x27' ∧ g.chars then ⟨.quoted c false, nest⟩
  else if c = '\x60' ∧ g.backQuotes then ⟨.backQuoted false, nest⟩
  else if c = '/' then ⟨.slash, nest⟩
  else match nest with
    -- outside every back-quoted literal, braces are code like any other
    | [] => ⟨.code, []⟩
    | depth :: nest =>
      if c = '\x7b' then ⟨.code, (depth + 1) :: nest⟩
      else if c = '\x7d' then
        match depth with
        -- the brace that closes the code in a literal
        | 0 => ⟨.backQuoted false, nest⟩
        | depth + 1 => ⟨.code, depth :: nest⟩
      else ⟨.code, depth :: nest⟩

def next (r : Reading) (c : Char) : Reading :=
  match r.mode with
  | .code => nextCode g r.nest c
  | .slash =>
    if c = '/' then ⟨.line, r.nest⟩
    else if c = '*' ∧ g.blocks then ⟨.block 0 ' ', r.nest⟩
    else nextCode g r.nest c
  | .quoted quote escaped =>
    if escaped then ⟨.quoted quote false, r.nest⟩
    else if c = '\x5c' then ⟨.quoted quote true, r.nest⟩
    else if c = quote then ⟨.code, r.nest⟩
    else r
  | .backQuoted dollar =>
    if c = '\x60' then ⟨.code, r.nest⟩
    else if dollar ∧ c = '\x7b' then ⟨.code, 0 :: r.nest⟩
    else ⟨.backQuoted (c = '$'), r.nest⟩
  | .line => if c = '\n' then ⟨.code, r.nest⟩ else r
  | .block depth last =>
    if last = '/' ∧ c = '*' then ⟨.block (depth + 1) ' ', r.nest⟩
    else if last = '*' ∧ c = '/' then
      match depth with
      | 0 => ⟨.code, r.nest⟩
      | depth + 1 => ⟨.block depth ' ', r.nest⟩
    else ⟨.block depth c, r.nest⟩

end Reading

/-- What stands for a character that is no code. It is part of no call. -/
def blank : Char := '\x22'

def mask (g : Grammar) : Reading → List Char → List Char
  | _, [] => []
  | r, c :: text => (if r.isCode then c else blank) :: mask g (r.next g c) text

/-! ### Calls -/

/-- A character that an identifier starts with. -/
def isStart (c : Char) : Bool := c.isAlpha || c == '_'

/-- A character of an identifier. -/
def isWord (c : Char) : Bool := c.isAlphanum || c == '_'

variable {c : Char}

theorem isWord_of_isStart (h : isStart c = true) : isWord c = true := by
  rw [isWord, Char.isAlphanum]
  rw [isStart, Bool.or_eq_true] at h
  obtain h | h := h
  · simp [h]
  · simp [h]

theorem isDigit_of_isWord (h : isWord c = true) (hstart : isStart c = false) :
    c.isDigit = true := by
  rw [isWord, Char.isAlphanum] at h
  rw [isStart, Bool.or_eq_false_iff] at hstart
  simpa [hstart] using h

theorem isDigit_eq_false (h : isStart c = true) : c.isDigit = false := by
  refine Bool.eq_false_iff.mpr fun hdigit => ?_
  rw [isStart, Bool.or_eq_true, beq_iff_eq] at h
  -- digits stand before the letters of either case, and before the underscore
  obtain h | rfl := h
  · delta Char.isAlpha Char.isUpper Char.isLower at h
    delta Char.isDigit at hdigit
    simp only [Bool.or_eq_true, Bool.and_eq_true, decide_eq_true_eq,
      UInt32.le_iff_toNat_le] at hdigit h
    obtain h | h := h
    · have hle := h.1.trans hdigit.2
      exact absurd hle (by decide)
    · have hle := h.1.trans hdigit.2
      exact absurd hle (by decide)
  · exact absurd hdigit (by decide)

/-- No identifier goes on after `before`: the characters of one that end it are digits, of a
number. -/
def Whole (before : List Char) : Prop :=
  ∀ c ∈ before.reverse.takeWhile isWord, c.isDigit = true

def Identifiers (names : List (List Char)) : Prop :=
  ∀ name ∈ names, ∃ c rest, name = c :: rest ∧ isStart c = true ∧ ∀ d ∈ rest, isWord d = true

def Opens (space : Char → Bool) (text : List Char) : Prop :=
  ∃ gap after, text = gap ++ '(' :: after ∧ ∀ c ∈ gap, space c = true

structure CallAt (names : List (List Char)) (space : Char → Bool) (text : List Char)
    (place : Nat) : Prop where
  split : ∃ before name rest, text = before ++ (name ++ rest) ∧ before.length = place ∧
    name ∈ names ∧ Whole before ∧ Opens space rest

def Calls (names : List (List Char)) (space : Char → Bool) (text : List Char) : Prop :=
  ∃ place, CallAt names space text place

theorem calls_iff {names : List (List Char)} {space : Char → Bool} {text : List Char} :
    Calls names space text ↔ ∃ before name rest, text = before ++ (name ++ rest) ∧
      name ∈ names ∧ Whole before ∧ Opens space rest := by
  constructor
  · rintro ⟨place, before, name, rest, heq, -, hrest⟩
    exact ⟨before, name, rest, heq, hrest⟩
  · rintro ⟨before, name, rest, heq, hrest⟩
    exact ⟨before.length, before, name, rest, heq, rfl, hrest⟩

theorem all_of_length_takeWhile {text : List Char}
    (h : (text.takeWhile isWord).length = text.length) : ∀ c ∈ text, isWord c = true :=
  List.takeWhile_eq_self_iff.mp ((List.takeWhile_prefix isWord).eq_of_length h)

theorem whole_nil : Whole [] := fun c hc => by cases hc

theorem Whole.of_append {before after : List Char} (h : Whole (before ++ after)) :
    Whole after := by
  intro c hc
  refine h c ?_
  rw [List.reverse_append, List.takeWhile_append]
  split
  · exact List.mem_append_left _ (List.takeWhile_subset _ hc)
  · exact hc

theorem whole_cons (hc : isStart c = false) {before : List Char} :
    Whole (c :: before) ↔ Whole before := by
  constructor
  · intro h
    exact @Whole.of_append [c] before h
  · intro h d hd
    rw [List.reverse_cons, List.takeWhile_append] at hd
    -- either the word reaches back to `c`, or it ends before it
    split at hd
    · next hall =>
      obtain hd | hd := List.mem_append.mp hd
      · have hword := all_of_length_takeWhile hall
        exact h d (by rwa [List.takeWhile_eq_self_iff.mpr hword])
      · have hmem := List.takeWhile_subset _ hd
        obtain rfl := List.mem_singleton.mp hmem
        exact isDigit_of_isWord (List.mem_takeWhile_imp hd) hc
    · exact h d hd

section Calls

variable {names : List (List Char)} {space : Char → Bool}

theorem calls_nil (hnames : Identifiers names) : ¬ Calls names space [] := by
  rw [calls_iff]
  rintro ⟨before, name, rest, heq, hname, -⟩
  obtain ⟨c, tail, rfl, -⟩ := hnames name hname
  simp at heq

theorem calls_cons (hnames : Identifiers names) (hc : isStart c = false) (text : List Char) :
    Calls names space (c :: text) ↔ Calls names space text := by
  rw [calls_iff, calls_iff]
  constructor
  · rintro ⟨before, name, rest, heq, hname, hwhole, hrest⟩
    -- a call here would start with `c`, and a name does not
    cases before with
    | nil =>
      obtain ⟨d, tail, rfl, hd, -⟩ := hnames name hname
      obtain rfl := (List.cons.inj heq).1
      rw [hc] at hd
      cases hd
    | cons d before =>
      obtain ⟨rfl, htext⟩ := List.cons.inj heq
      exact ⟨before, name, rest, htext, hname, (whole_cons hc).mp hwhole, hrest⟩
  · rintro ⟨before, name, rest, rfl, hname, hwhole, hrest⟩
    exact ⟨c :: before, name, rest, rfl, hname, (whole_cons hc).mpr hwhole, hrest⟩

/-- White space is no part of an identifier. -/
def Spaces (space : Char → Bool) : Prop := ∀ c, space c = true → isWord c = false

theorem Opens.head (hspace : Spaces space) {text : List Char} (h : Opens space text) :
    ∀ c ∈ text.head?, isWord c = false := by
  obtain ⟨gap, after, rfl, hgap⟩ := h
  intro c hc
  cases gap with
  | nil =>
    obtain rfl := Option.some.inj hc
    decide
  | cons d gap =>
    obtain rfl := Option.some.inj hc
    exact hspace d (hgap d List.mem_cons_self)

/-- Where a word ends is decided by what comes after it. -/
theorem takeWhile_word {word rest : List Char} (hword : ∀ c ∈ word, isWord c = true)
    (hrest : ∀ c ∈ rest.head?, isWord c = false) :
    (word ++ rest).takeWhile isWord = word := by
  have hstop : rest.takeWhile isWord = [] := by
    cases rest with
    | nil => rfl
    | cons c rest => exact List.takeWhile_cons_of_neg (by rw [hrest c rfl]; exact Bool.false_ne_true)
  rw [List.takeWhile_append_of_pos hword, hstop, List.append_nil]

theorem calls_word (hnames : Identifiers names) (hspace : Spaces space) {word rest : List Char}
    (hc : isStart c = true) (hword : ∀ d ∈ word, isWord d = true)
    (hrest : ∀ d ∈ rest.head?, isWord d = false) :
    Calls names space (c :: word ++ rest) ↔
      (c :: word ∈ names ∧ Opens space rest) ∨ Calls names space rest := by
  have hall : ∀ d ∈ c :: word, isWord d = true := by
    intro d hd
    obtain rfl | hd := List.mem_cons.mp hd
    · exact isWord_of_isStart hc
    · exact hword d hd
  rw [calls_iff, calls_iff]
  constructor
  · rintro ⟨before, name, after, heq, hname, hwhole, hopens⟩
    obtain ⟨first, tail, hcons, hfirst, htail⟩ := hnames name hname
    have hnameWord : ∀ d ∈ name, isWord d = true := by
      rw [hcons]
      intro d hd
      obtain rfl | hd := List.mem_cons.mp hd
      · exact isWord_of_isStart hfirst
      · exact htail d hd
    obtain ⟨between, hbefore, hbetween⟩ | ⟨between, hbefore, hbetween⟩ :=
      List.append_eq_append_iff.mp heq
    · -- the call starts after the identifier
      refine .inr ⟨between, name, after, hbetween, hname, ?_, hopens⟩
      rw [hbefore] at hwhole
      exact hwhole.of_append
    · cases before with
      | nil =>
        -- it is the identifier
        rw [List.nil_append] at heq
        have hsame := congrArg (List.takeWhile isWord) heq
        rw [takeWhile_word hall hrest, takeWhile_word hnameWord (hopens.head hspace)] at hsame
        rw [← hsame] at heq hname
        rw [List.append_cancel_left heq]
        exact .inl ⟨hname, hopens⟩
      | cons d before =>
        -- it starts within the identifier, and is not whole
        rw [List.cons_append] at hbefore
        obtain ⟨rfl, hword'⟩ := List.cons.inj hbefore
        have hrun : (c :: before).reverse.takeWhile isWord = (c :: before).reverse := by
          refine List.takeWhile_eq_self_iff.mpr fun d hd => hall d ?_
          rw [hword']
          obtain rfl | hd := List.mem_cons.mp (List.mem_reverse.mp hd)
          · exact List.mem_cons_self
          · exact List.mem_cons_of_mem _ (List.mem_append_left _ hd)
        have hdigit := hwhole c (by
          rw [hrun]
          exact List.mem_reverse.mpr List.mem_cons_self)
        rw [isDigit_eq_false hc] at hdigit
        cases hdigit
  · rintro (⟨hname, hopens⟩ | ⟨before, name, after, rfl, hname, hwhole, hopens⟩)
    · exact ⟨[], c :: word, rest, rfl, hname, whole_nil, hopens⟩
    · refine ⟨c :: word ++ before, name, after, by rw [List.append_assoc], hname, ?_, hopens⟩
      -- a call in the rest does not start where the identifier ends
      have hne : before ≠ [] := by
        rintro rfl
        obtain ⟨first, tail, rfl, hfirst, -⟩ := hnames name hname
        have hnot := hrest first rfl
        rw [isWord_of_isStart hfirst] at hnot
        cases hnot
      obtain ⟨d, before, rfl⟩ := List.exists_cons_of_ne_nil hne
      have hd : isWord d = false := hrest d rfl
      intro e he
      -- so its word does not reach back into the identifier
      refine hwhole e ?_
      rw [List.reverse_append, List.takeWhile_append, if_neg] at he
      · exact he
      · intro hlength
        have hevery := all_of_length_takeWhile hlength d (by simp)
        rw [hd] at hevery
        cases hevery

end Calls

end Goble.Masked
