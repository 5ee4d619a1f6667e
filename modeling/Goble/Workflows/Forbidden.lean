import Goble.Lib.Masked
import Goble.Lib.Text

/-!
# Forbidden calls

`forbidden_call` looks through the source of a script for a clock or a blocking call before it is
compiled. It is a lexer of its own that knows double-quoted strings and line comments
(`forbiddenCall_iff`). The language has more: literals between single quotes and between back
quotes, and nested block comments. It also has the white space that its lexer says (`space`), where
the scanner has that of ASCII.

So there are two readings of a text, and a call that one of them takes for code may be in a literal
or a comment for the other (`scan_agrees_iff`).
-/

namespace Goble.Workflows

open Masked

def forbidden : List (List Char) := ["sleep".toList, "timestamp".toList]

def isAsciiWhitespace (c : Char) : Bool := [' ', '\t', '\n', '\x0c', '\r'].contains c

/-- The loop of `forbidden_call`, from where it is in the source. A character after a backslash is
passed over with it. The code goes by bytes, and those beyond ASCII are none that it looks for. -/
def scan : (fuel : Nat) → (inString : Bool) → List Char → Option (List Char)
  | 0, _, _ => none
  | _, _, [] => none
  | fuel + 1, true, c :: text =>
    -- `i += 2`: what is escaped is not looked at.
    if c = '\x5c' then scan fuel true (text.drop 1)
    else scan fuel (c ≠ '\x22') text
  | fuel + 1, false, c :: text =>
    if c = '\x22' then scan fuel true text
    -- The line break that ends a comment is read again, as code.
    else if c = '/' ∧ text.head? = some '/' then
      scan fuel false ((c :: text).dropWhile (· ≠ '\n'))
    else if isStart c then
      let word := (c :: text).takeWhile isWord
      let rest := (c :: text).dropWhile isWord
      if word ∈ forbidden ∧ (rest.dropWhile isAsciiWhitespace).head? = some '(' then some word
      else scan fuel false rest
    else scan fuel false text

/-- The name of a clock or blocking call the source uses. -/
def forbiddenCall (source : List Char) : Option (List Char) := scan source.length false source

/-! ### The two readings -/

/-- What the scanner knows, and what the language has. -/
def scanned : Grammar := ⟨false, false, false⟩

def rhai : Grammar := ⟨true, true, true⟩

def SeenAt (source : List Char) (place : Nat) : Prop :=
  CallAt forbidden isAsciiWhitespace (mask scanned .start source) place

def UsedAt (space : Char → Bool) (source : List Char) (place : Nat) : Prop :=
  CallAt forbidden space (mask rhai .start source) place

theorem identifiers_forbidden : Identifiers forbidden := by
  intro name hname
  have hall : (forbidden.all fun name =>
      name.head?.any isStart && (name.drop 1).all isWord) = true := by decide
  have hname := List.all_eq_true.mp hall name hname
  rw [Bool.and_eq_true, Option.any_eq_true, List.all_eq_true] at hname
  obtain ⟨⟨c, hc, hstart⟩, hword⟩ := hname
  cases name with
  | nil => cases hc
  | cons d rest =>
    obtain rfl := Option.some.inj hc
    exact ⟨d, rest, rfl, hstart, hword⟩

theorem spaces_ascii : Spaces isAsciiWhitespace := by
  intro c hc
  have hall : ([' ', '\t', '\n', '\x0c', '\r'].all fun c => !isWord c) = true := by decide
  have hword := List.all_eq_true.mp hall c (List.contains_iff_mem.mp hc)
  simpa using hword

/-! ### The scanner reads strings and line comments -/

/-- Outside strings and comments. -/
abbrev codeMask (text : List Char) : List Char := mask scanned .start text

theorem codeMask_cons {c : Char} (hquote : c ≠ '\x22') (hslash : c ≠ '/') (text : List Char) :
    codeMask (c :: text) = c :: codeMask text := by
  have hnext : Reading.next scanned .start c = .start := by
    change Reading.nextCode scanned [] c = _
    rw [Reading.nextCode.eq_def, if_neg hquote, if_neg (by simp [scanned]), if_neg (by simp [scanned]),
      if_neg hslash]
    rfl
  rw [codeMask, mask, hnext]
  rfl

theorem codeMask_word {word : List Char} (h : ∀ c ∈ word, isWord c = true) (rest : List Char) :
    codeMask (word ++ rest) = word ++ codeMask rest := by
  induction word with
  | nil => rfl
  | cons c word ih =>
    -- A letter of a word opens neither a string nor a comment.
    have hne : ∀ d, isWord d = false → c ≠ d := by
      rintro d hd rfl
      rw [h c List.mem_cons_self] at hd
      cases hd
    rw [List.cons_append, codeMask_cons (hne _ (by decide)) (hne _ (by decide)),
      ih fun d hd => h d (List.mem_cons_of_mem c hd), List.cons_append]

theorem mask_slash {text : List Char} (h : text.head? ≠ some '/') :
    mask scanned ⟨.slash, []⟩ text = codeMask text := by
  cases text with
  | nil => rfl
  | cons c text =>
    have hc : c ≠ '/' := fun heq => h (congrArg some heq)
    have hnext : Reading.next scanned ⟨.slash, []⟩ c = Reading.next scanned .start c := by
      change (if c = '/' then _ else if c = '*' ∧ scanned.blocks = true then _ else
        Reading.nextCode scanned [] c) = Reading.nextCode scanned [] c
      rw [if_neg hc, if_neg (by simp [scanned])]
    rw [codeMask, mask, mask, hnext]
    rfl

theorem head_codeMask (text : List Char) : (codeMask text).head? = text.head? := by
  cases text with
  | nil => rfl
  | cons c text => rfl

theorem opens_iff (text : List Char) :
    Opens isAsciiWhitespace (codeMask text) ↔
      (text.dropWhile isAsciiWhitespace).head? = some '(' := by
  induction text with
  | nil =>
    refine iff_of_false ?_ nofun
    rintro ⟨gap, after, heq, -⟩
    simp [codeMask, mask] at heq
  | cons c text ih =>
    -- Along the white space after the name, which is seen as it is.
    cases hspace : isAsciiWhitespace c with
    | true =>
      have hne : ∀ d, isAsciiWhitespace d = false → c ≠ d := by
        rintro d hd rfl
        rw [hspace] at hd
        cases hd
      rw [List.dropWhile_cons_of_pos hspace, ← ih,
        codeMask_cons (hne _ (by decide)) (hne _ (by decide))]
      constructor
      · rintro ⟨gap, after, heq, hgap⟩
        cases gap with
        | nil => exact absurd (List.cons.inj heq).1 (hne '(' (by decide))
        | cons d gap =>
          exact ⟨gap, after, (List.cons.inj heq).2, fun e he => hgap e (List.mem_cons_of_mem d he)⟩
      · rintro ⟨gap, after, heq, hgap⟩
        exact ⟨c :: gap, after, by rw [heq, List.cons_append], List.forall_mem_cons.mpr ⟨hspace, hgap⟩⟩
    | false =>
      rw [List.dropWhile_cons_of_neg (by rw [hspace]; exact Bool.false_ne_true)]
      constructor
      · rintro ⟨gap, after, heq, hgap⟩
        have hhead := head_codeMask (c :: text)
        rw [heq] at hhead
        cases gap with
        | nil => exact hhead.symm
        | cons d gap =>
          obtain rfl : d = c := Option.some.inj hhead
          rw [hgap d List.mem_cons_self] at hspace
          cases hspace
      · intro hhead
        obtain rfl : c = '(' := Option.some.inj hhead
        exact ⟨[], _, codeMask_cons (by decide) (by decide) text, fun d hd => by cases hd⟩

theorem calls_line (text : List Char) :
    Calls forbidden isAsciiWhitespace (mask scanned ⟨.line, []⟩ text) ↔
      Calls forbidden isAsciiWhitespace (codeMask (text.dropWhile (· ≠ '\n'))) := by
  induction text with
  | nil => exact Iff.rfl
  | cons c text ih =>
    -- The line break ends the comment, anything else is blanked.
    by_cases hc : c = '\n'
    · subst hc
      rw [List.dropWhile_cons_of_neg (by simp), codeMask_cons (by decide) (by decide),
        calls_cons identifiers_forbidden (by decide)]
      exact calls_cons identifiers_forbidden (by decide) _
    · rw [List.dropWhile_cons_of_pos (by simpa using hc), ← ih]
      have hnext : Reading.next scanned ⟨.line, []⟩ c = ⟨.line, []⟩ := if_neg hc
      rw [mask, hnext]
      exact @calls_cons blank _ _ identifiers_forbidden (by decide) _

def stringMask (inString : Bool) (text : List Char) : List Char :=
  mask scanned ⟨if inString then .quoted '\x22' false else .code, []⟩ text

/-- In a string the next character is passed over, or two if it is a backslash. -/
theorem calls_string (c : Char) (text : List Char) :
    Calls forbidden isAsciiWhitespace (stringMask true (c :: text)) ↔
      if c = '\x5c' then Calls forbidden isAsciiWhitespace (stringMask true (text.drop 1))
      else Calls forbidden isAsciiWhitespace (stringMask (c ≠ '\x22') text) := by
  change Calls forbidden isAsciiWhitespace
    (blank :: mask scanned (Reading.next scanned ⟨.quoted '\x22' false, []⟩ c) text) ↔ _
  rw [calls_cons identifiers_forbidden (by decide)]
  by_cases hslash : c = '\x5c'
  · subst hslash
    rw [if_pos rfl]
    cases text with
    | nil => exact Iff.rfl
    | cons d text => exact @calls_cons blank _ _ identifiers_forbidden (by decide) _
  · rw [if_neg hslash]
    by_cases hquote : c = '\x22'
    · subst hquote
      exact Iff.rfl
    · have hnext : Reading.next scanned ⟨.quoted '\x22' false, []⟩ c =
          ⟨.quoted '\x22' false, []⟩ := by
        change (if c = '\x5c' then _ else if c = '\x22' then _ else _) = _
        rw [if_neg hslash, if_neg hquote]
      rw [hnext, decide_eq_true hquote]
      exact Iff.rfl

/-- Two slashes hide the rest of the line. -/
theorem calls_comment {text : List Char} (hhead : text.head? = some '/') :
    Calls forbidden isAsciiWhitespace (codeMask ('/' :: text)) ↔
      Calls forbidden isAsciiWhitespace (codeMask (('/' :: text).dropWhile (· ≠ '\n'))) := by
  cases text with
  | nil => cases hhead
  | cons d text =>
    obtain rfl := Option.some.inj hhead
    rw [List.dropWhile_cons_of_pos (by decide), List.dropWhile_cons_of_pos (by decide)]
    change Calls _ _ ('/' :: '/' :: mask scanned ⟨.line, []⟩ text) ↔ _
    rw [calls_cons identifiers_forbidden (by decide), calls_cons identifiers_forbidden (by decide),
      calls_line]

theorem calls_name {c : Char} (hstart : isStart c = true) (text : List Char) :
    Calls forbidden isAsciiWhitespace (codeMask (c :: text)) ↔
      ((c :: text).takeWhile isWord ∈ forbidden ∧
        (((c :: text).dropWhile isWord).dropWhile isAsciiWhitespace).head? = some '(') ∨
      Calls forbidden isAsciiWhitespace (codeMask ((c :: text).dropWhile isWord)) := by
  have hword := isWord_of_isStart hstart
  have hsplit : c :: text = c :: text.takeWhile isWord ++ text.dropWhile isWord := by
    rw [List.cons_append, List.takeWhile_append_dropWhile]
  have hall : ∀ d ∈ text.takeWhile isWord, isWord d = true :=
    fun d hd => List.mem_takeWhile_imp hd
  -- What follows the name does not go on with it, in the text as in what is seen of it.
  have hhead : ∀ d ∈ (codeMask (text.dropWhile isWord)).head?, isWord d = false := by
    intro d hd
    rw [head_codeMask] at hd
    have hnot := List.head?_dropWhile_not isWord text
    rw [Option.mem_def.mp hd] at hnot
    simpa using hnot
  have hmask : codeMask (c :: text) =
      c :: text.takeWhile isWord ++ codeMask (text.dropWhile isWord) := by
    conv_lhs => rw [hsplit]
    refine codeMask_word (fun d hd => ?_) _
    obtain rfl | hd := List.mem_cons.mp hd
    · exact hword
    · exact hall d hd
  rw [hmask, calls_word identifiers_forbidden spaces_ascii hstart hall hhead, opens_iff,
    List.takeWhile_cons_of_pos hword, List.dropWhile_cons_of_pos hword]

/-- Any other character is passed over. -/
theorem calls_other {c : Char} (hquote : c ≠ '\x22') (hstart : isStart c = false)
    {text : List Char} (hcomment : ¬ (c = '/' ∧ text.head? = some '/')) :
    Calls forbidden isAsciiWhitespace (codeMask (c :: text)) ↔
      Calls forbidden isAsciiWhitespace (codeMask text) := by
  by_cases hslash : c = '/'
  · subst hslash
    change Calls _ _ ('/' :: mask scanned ⟨.slash, []⟩ text) ↔ _
    rw [calls_cons identifiers_forbidden hstart, mask_slash fun hhead => hcomment ⟨rfl, hhead⟩]
  · rw [codeMask_cons hquote hslash, calls_cons identifiers_forbidden hstart]

/-- **The scanner** finds a call if one is code for a reading that knows strings and line comments
alone. -/
theorem scan_iff {fuel : Nat} {inString : Bool} {text : List Char} (h : text.length ≤ fuel) :
    (scan fuel inString text).isSome = true ↔
      Calls forbidden isAsciiWhitespace (stringMask inString text) := by
  induction fuel generalizing inString text with
  | zero =>
    obtain rfl := List.eq_nil_of_length_eq_zero (Nat.le_zero.mp h)
    exact iff_of_false (by simp [scan]) (calls_nil identifiers_forbidden)
  | succ fuel ih =>
    cases text with
    | nil => exact iff_of_false (by simp [scan]) (calls_nil identifiers_forbidden)
    | cons c text =>
      have htext : text.length ≤ fuel := Nat.le_of_succ_le_succ h
      cases inString with
      | true =>
        rw [scan, calls_string]
        split
        · exact ih ((List.drop_suffix 1 text).length_le.trans htext)
        · exact ih htext
      | false =>
        rw [scan]
        change _ ↔ Calls forbidden isAsciiWhitespace (codeMask (c :: text))
        -- The branches of the scanner, in their order.
        by_cases hquote : c = '\x22'
        · subst hquote
          rw [if_pos rfl, ih htext]
          exact (calls_cons identifiers_forbidden (by decide) _).symm
        rw [if_neg hquote]
        by_cases hcomment : c = '/' ∧ text.head? = some '/'
        · obtain ⟨rfl, hhead⟩ := hcomment
          rw [if_pos ⟨rfl, hhead⟩, calls_comment hhead, ih]
          · exact Iff.rfl
          · rw [List.dropWhile_cons_of_pos (by decide)]
            exact (List.dropWhile_suffix _).length_le.trans htext
        rw [if_neg hcomment]
        by_cases hstart : isStart c = true
        · rw [if_pos hstart, calls_name hstart]
          dsimp only
          split
          · next hfound => exact iff_of_true rfl (.inl hfound)
          · next hfound =>
            rw [or_iff_right hfound, ih]
            · exact Iff.rfl
            · rw [List.dropWhile_cons_of_pos (isWord_of_isStart hstart)]
              exact (List.dropWhile_suffix isWord).length_le.trans htext
        · rw [if_neg hstart, ih htext,
            calls_other hquote (Bool.eq_false_iff.mpr hstart) hcomment]
          exact Iff.rfl

theorem forbiddenCall_iff (source : List Char) :
    (forbiddenCall source).isSome = true ↔ ∃ place, SeenAt source place :=
  scan_iff le_rfl

/-! ### When it follows the language -/

def ScanAgrees (space : Char → Bool) (source : List Char) : Prop :=
  (forbiddenCall source).isSome = true ↔ ∃ place, UsedAt space source place

/-- A source without quotes of the other kinds, block comments and foreign white space. -/
structure Familiar (space : Char → Bool) (source : List Char) : Prop where
  single : '\x27' ∉ source
  back : '\x60' ∉ source
  blocks : ¬ ['/', '*'] <:+: source
  space : ∀ c ∈ blank :: source, space c = isAsciiWhitespace c

def Common (r : Reading) : Prop :=
  r.nest = [] ∧ (r.mode = .code ∨ r.mode = .slash ∨ r.mode = .line ∨
    ∃ escaped, r.mode = .quoted '\x22' escaped)

theorem Common.next {r : Reading} (h : Common r) {c : Char} (hsingle : c ≠ '\x27')
    (hback : c ≠ '\x60') (hblock : ¬ (r.mode = .slash ∧ c = '*')) :
    r.next rhai c = r.next scanned c ∧ Common (r.next scanned c) ∧
      ((r.next scanned c).mode = .slash → c = '/') := by
  obtain ⟨mode, nest⟩ := r
  obtain ⟨rfl, hmode⟩ : nest = [] ∧ _ := h
  have hcode : Reading.nextCode rhai [] c = Reading.nextCode scanned [] c ∧
      Common (Reading.nextCode scanned [] c) ∧
      ((Reading.nextCode scanned [] c).mode = .slash → c = '/') := by
    rw [Reading.nextCode.eq_def, Reading.nextCode.eq_def]
    simp only [hsingle, hback, false_and, if_false]
    split
    · next hquote =>
      rw [hquote]
      exact ⟨trivial, ⟨rfl, .inr (.inr (.inr ⟨false, rfl⟩))⟩, nofun⟩
    split
    · next hslash => exact ⟨trivial, ⟨rfl, .inr (.inl rfl)⟩, fun _ => hslash⟩
    · exact ⟨trivial, ⟨rfl, .inl rfl⟩, nofun⟩
  -- In code, after a slash, in a line comment, in a string.
  obtain rfl | rfl | rfl | ⟨escaped, rfl⟩ := hmode
  · exact hcode
  · have hstar : c ≠ '*' := fun heq => hblock ⟨rfl, heq⟩
    simp only [Reading.next, hstar, false_and, if_false]
    split
    · exact ⟨rfl, ⟨rfl, .inr (.inr (.inl rfl))⟩, nofun⟩
    · exact hcode
  · refine ⟨rfl, ?_⟩
    simp only [Reading.next]
    split
    · exact ⟨⟨rfl, .inl rfl⟩, nofun⟩
    · exact ⟨⟨rfl, .inr (.inr (.inl rfl))⟩, nofun⟩
  · refine ⟨rfl, ?_⟩
    simp only [Reading.next]
    split
    · exact ⟨⟨rfl, .inr (.inr (.inr ⟨_, rfl⟩))⟩, nofun⟩
    split
    · exact ⟨⟨rfl, .inr (.inr (.inr ⟨_, rfl⟩))⟩, nofun⟩
    split
    · exact ⟨⟨rfl, .inl rfl⟩, nofun⟩
    · exact ⟨⟨rfl, .inr (.inr (.inr ⟨_, rfl⟩))⟩, nofun⟩

/-- Without the tokens that the scanner does not know, the readings are one. -/
theorem mask_eq {r : Reading} (hr : Common r) {text : List Char} (hsingle : '\x27' ∉ text)
    (hback : '\x60' ∉ text) (hblocks : ¬ ['/', '*'] <:+: text)
    (hslash : r.mode = .slash → text.head? ≠ some '*') :
    mask rhai r text = mask scanned r text := by
  induction text generalizing r with
  | nil => rfl
  | cons c text ih =>
    obtain ⟨hsame, hcommon, hafter⟩ := hr.next (fun heq => hsingle (heq ▸ List.mem_cons_self))
      (fun heq => hback (heq ▸ List.mem_cons_self))
      fun ⟨hmode, heq⟩ => hslash hmode (congrArg some heq)
    rw [mask, mask, hsame, ih hcommon (fun hmem => hsingle (List.mem_cons_of_mem c hmem))
      (fun hmem => hback (List.mem_cons_of_mem c hmem))
      (fun hwithin => hblocks (hwithin.trans (List.suffix_cons c text).isInfix))]
    -- A star after this slash would open a block comment.
    intro hmode hhead
    obtain rfl := hafter hmode
    cases text with
    | nil => cases hhead
    | cons d text =>
      obtain rfl := Option.some.inj hhead
      exact hblocks ⟨[], text, rfl⟩

theorem mem_mask {g : Grammar} {r : Reading} {text : List Char} {c : Char}
    (h : c ∈ mask g r text) : c ∈ blank :: text := by
  induction text generalizing r with
  | nil => cases h
  | cons d text ih =>
    obtain heq | h := List.mem_cons.mp h
    · split at heq
      · rw [heq]
        exact List.mem_cons_of_mem _ List.mem_cons_self
      · rw [heq]
        exact List.mem_cons_self
    · obtain heq | hmem := List.mem_cons.mp (ih h)
      · rw [heq]
        exact List.mem_cons_self
      · exact List.mem_cons_of_mem _ (List.mem_cons_of_mem d hmem)

theorem callAt_congr {names : List (List Char)} {space space' : Char → Bool} {text : List Char}
    (h : ∀ c ∈ text, space c = space' c) {place : Nat} (hcall : CallAt names space text place) :
    CallAt names space' text place := by
  obtain ⟨before, name, rest, rfl, hplace, hname, hwhole, gap, after, rfl, hgap⟩ := hcall
  refine ⟨before, name, _, rfl, hplace, hname, hwhole, gap, after, rfl, fun c hc => ?_⟩
  rw [← h c (List.mem_append_right _ (List.mem_append_right _ (List.mem_append_left _ hc)))]
  exact hgap c hc

theorem Familiar.scanAgrees {space : Char → Bool} {source : List Char}
    (h : Familiar space source) : ScanAgrees space source := by
  have hmask : mask rhai .start source = mask scanned .start source :=
    mask_eq ⟨rfl, .inl rfl⟩ h.single h.back h.blocks nofun
  rw [ScanAgrees, forbiddenCall_iff]
  -- What is seen of the source is the same, and the same characters are space in it.
  refine exists_congr fun place => ?_
  rw [SeenAt, UsedAt, hmask]
  constructor
  · exact callAt_congr fun c hc => (h.space c (mem_mask hc)).symm
  · exact callAt_congr fun c hc => h.space c (mem_mask hc)

/-- **When the scan follows the language.** A source is rejected as it should be if and only if it
has a call that is code for the scanner as for the language, or it has one that is hidden from the
scanner just if it has one that only the scanner takes for code. In particular it is, if the tokens
that the scanner does not know are not used. -/
theorem scan_agrees_iff (space : Char → Bool) (source : List Char) :
    (ScanAgrees space source ↔
      (∃ place, UsedAt space source place ∧ SeenAt source place) ∨
      ((∃ place, UsedAt space source place ∧ ¬ SeenAt source place) ↔
        ∃ place, SeenAt source place ∧ ¬ UsedAt space source place)) ∧
    (Familiar space source → ScanAgrees space source) := by
  refine ⟨?_, Familiar.scanAgrees⟩
  rw [ScanAgrees, forbiddenCall_iff]
  by_cases hboth : ∃ place, UsedAt space source place ∧ SeenAt source place
  · obtain ⟨place, hused, hseen⟩ := hboth
    exact iff_of_true (iff_of_true ⟨place, hseen⟩ ⟨place, hused⟩) (.inl ⟨place, hused, hseen⟩)
  -- No call is code for both, so each call is code for one of them only.
  · rw [or_iff_right hboth]
    have hused : (∃ place, UsedAt space source place ∧ ¬ SeenAt source place) ↔
        ∃ place, UsedAt space source place :=
      exists_congr fun place => and_iff_left_of_imp fun hused hseen =>
        hboth ⟨place, hused, hseen⟩
    have hseen : (∃ place, SeenAt source place ∧ ¬ UsedAt space source place) ↔
        ∃ place, SeenAt source place :=
      exists_congr fun place => and_iff_left_of_imp fun hseen hused =>
        hboth ⟨place, hused, hseen⟩
    rw [hused, hseen]
    exact Iff.comm

/-- The quote in a character literal opens a string for the scanner, and the call is hidden. -/
theorem scan_hidden_call : ¬ ∀ source, ScanAgrees Text.isWhitespace source := by
  intro h
  have hagrees := h "let q = \x27\x22\x27; sleep(1)".toList
  -- The scanner passes over the rest of the line as a string.
  have hnone : (forbiddenCall "let q = \x27\x22\x27; sleep(1)".toList).isSome = false := by
    decide +kernel
  rw [ScanAgrees, hnone] at hagrees
  refine Bool.false_ne_true (hagrees.mpr ⟨13, ?_⟩)
  refine ⟨"let q = \x27\x22\x22; ".toList, "sleep".toList, "(1)".toList, ?_, by decide, by decide,
    ?_, [], "1)".toList, by decide, fun c hc => by cases hc⟩
  · decide +kernel
  · intro c hc
    have hrun : "let q = \x27\x22\x22; ".toList.reverse.takeWhile isWord = [] := by decide
    rw [hrun] at hc
    cases hc

end Goble.Workflows
