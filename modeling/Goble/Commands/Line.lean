import Mathlib.Data.List.Flatten
import Goble.Lib.ShellWords
import Goble.Mission.Turn

/-!
# Command lines and the words they are made of

The sandbox runs a command and its arguments, a shell runs a line. `shell_line` writes the line of
a call and quotes what the shell would change; `split_command_line` reads a line back. The splitter
knows three ways to take a character for itself: between single quotes, between double quotes, and
after a backslash.

`Read` is what it has read so far. A line of `shell_line` is read back word by word
(`splitting_quoteArg`), so the words that were written come back (`splitCommandLine_shellLine`). A
shell reads the same words, by its rules of quoting (`words_shellLine`).
-/

namespace Goble.Commands

open Mission (quoteArg shellLine shellCharacters)

inductive Quote
  | single | double
deriving DecidableEq

structure Read where
  words : List (List Char)
  current : List Char
  inWord : Bool
  quote : Option Quote
  /-- A backslash has been read, and the next character is pushed whatever it is. -/
  escaped : Bool
deriving DecidableEq

namespace Read

def start : Read := ⟨[], [], false, none, false⟩

/-- Between words, and in a word, outside quotes and inside. -/
def between (words : List (List Char)) : Read := ⟨words, [], false, none, false⟩

def inside (words : List (List Char)) (current : List Char) (quote : Option Quote) : Read :=
  ⟨words, current, true, quote, false⟩

def push (s : Read) (c : Char) : Read := { s with current := s.current ++ [c] }

/-- A step of the loop of `split_command_line`. The character that `chars.next()` takes after a
backslash is a step of its own. -/
def next (s : Read) (c : Char) : Read :=
  if s.escaped then { s.push c with escaped := false }
  else
    match s.quote with
    | some .single => if c = '\x27' then { s with quote := none } else s.push c
    | some .double =>
      if c = '\x22' then { s with quote := none }
      else if c = '\x5c' then { s with escaped := true }
      else s.push c
    | none =>
      if c = '\x27' then { s with quote := some .single, inWord := true }
      else if c = '\x22' then { s with quote := some .double, inWord := true }
      else if c = '\x5c' then { s with escaped := true, inWord := true }
      else if Text.isWhitespace c then
        if s.inWord then { s with words := s.words ++ [s.current], current := [], inWord := false }
        else s
      else { s.push c with inWord := true }

/-- The words, at the end of the line. -/
def finish (s : Read) : List (List Char) :=
  if s.inWord then s.words ++ [s.current] else s.words

end Read

def splitting (s : Read) (text : List Char) : Read := text.foldl Read.next s

def splitCommandLine (line : List Char) : Option (List Char × List (List Char)) :=
  match (splitting .start line).finish with
  | [] => none
  | command :: args => if command.isEmpty then none else some (command, args)

/-- A character that stands for itself anywhere in a line. -/
def isPlain (c : Char) : Bool :=
  !Text.isWhitespace c && c != '\x27' && c != '\x22' && c != '\x5c'

/-- A word that needs no quotes to be read as one. -/
def IsWord (word : List Char) : Prop := word ≠ [] ∧ ∀ c ∈ word, isPlain c = true

instance (word : List Char) : Decidable (IsWord word) :=
  decidable_of_iff (word ≠ [] ∧ word.all isPlain = true) (and_congr_right' List.all_eq_true)

/-! ### One character -/

variable {c : Char}

theorem isPlain_iff :
    isPlain c = true ↔ Text.isWhitespace c = false ∧ c ≠ '\x27' ∧ c ≠ '\x22' ∧ c ≠ '\x5c' := by
  simp [isPlain, and_assoc]

theorem splitting_append (s : Read) (a b : List Char) :
    splitting s (a ++ b) = splitting (splitting s a) b :=
  List.foldl_append

theorem next_single (words : List (List Char)) (current : List Char) (h : c ≠ '\x27') :
    (Read.inside words current (some .single)).next c =
      .inside words (current ++ [c]) (some .single) :=
  if_neg h

theorem next_plain {s : Read} (hquote : s.quote = none) (hescaped : s.escaped = false)
    (h : isPlain c = true) : s.next c = .inside s.words (s.current ++ [c]) none := by
  obtain ⟨hspace, hsingle, hdouble, hslash⟩ := isPlain_iff.mp h
  obtain ⟨words, current, inWord, quote, escaped⟩ := s
  obtain rfl : quote = none := hquote
  obtain rfl : escaped = false := hescaped
  simp only [Read.next, Bool.false_eq_true, if_false, if_neg hsingle, if_neg hdouble, if_neg hslash,
    hspace]
  rfl

/-! ### A word -/

/-- What stands between single quotes for `text`: a quote is closed, escaped and opened again. -/
def encode (text : List Char) : List Char :=
  text.flatMap fun c => if c = '\x27' then ['\x27', '\x5c', '\x27', '\x27'] else [c]

theorem encode_quote (text : List Char) :
    encode ('\x27' :: text) = '\x27' :: '\x5c' :: '\x27' :: '\x27' :: encode text := rfl

theorem encode_cons (h : c ≠ '\x27') (text : List Char) :
    encode (c :: text) = c :: encode text := by
  rw [encode, List.flatMap_cons, if_neg h]
  rfl

theorem splitting_encode (words : List (List Char)) (current text : List Char) :
    splitting (.inside words current (some .single)) (encode text) =
      .inside words (current ++ text) (some .single) := by
  induction text generalizing current with
  | nil => rw [List.append_nil]; rfl
  | cons c text ih =>
    by_cases hc : c = '\x27'
    · subst hc
      -- Closed, escaped and opened again: four characters, and one of them is read.
      rw [encode_quote, List.append_cons, ← ih]
      rfl
    · rw [encode_cons hc, splitting, List.foldl_cons, next_single _ _ hc,
        List.append_cons current c text]
      exact ih _

/-- A text without quotes, white space and backslashes is read as it is. -/
theorem splitting_plain (words : List (List Char)) (current word : List Char)
    (h : ∀ c ∈ word, isPlain c = true) :
    splitting (.inside words current none) word = .inside words (current ++ word) none := by
  induction word generalizing current with
  | nil => rw [List.append_nil]; rfl
  | cons c word ih =>
    rw [splitting, List.foldl_cons, next_plain rfl rfl (h c List.mem_cons_self),
      List.append_cons current c word]
    exact ih _ fun d hd => h d (List.mem_cons_of_mem c hd)

theorem splitting_word (words : List (List Char)) {word : List Char} (h : IsWord word) :
    splitting (.between words) word = .inside words word none := by
  obtain ⟨hne, hplain⟩ := h
  cases word with
  | nil => exact absurd rfl hne
  | cons c word =>
    rw [splitting, List.foldl_cons, next_plain rfl rfl (hplain c List.mem_cons_self)]
    exact splitting_plain words [c] word fun d hd => hplain d (List.mem_cons_of_mem c hd)

theorem isWord_of_not_quoted {arg : List Char}
    (h : ¬ (arg.isEmpty ||
      arg.any fun c => Text.isWhitespace c || shellCharacters.contains c) = true) :
    IsWord arg := by
  rw [Bool.or_eq_true, not_or, List.isEmpty_iff, List.any_eq_true] at h
  refine ⟨h.1, fun c hc => isPlain_iff.mpr ?_⟩
  have hc' : ¬ (Text.isWhitespace c || shellCharacters.contains c) = true := fun hshell =>
    h.2 ⟨c, hc, hshell⟩
  rw [Bool.or_eq_true, not_or, Bool.not_eq_true, List.contains_iff_mem] at hc'
  refine ⟨hc'.1, ?_, ?_, ?_⟩
  all_goals
    rintro rfl
    exact hc'.2 (by decide)

theorem splitting_quoteArg (words : List (List Char)) (arg : List Char) :
    splitting (.between words) (quoteArg arg) = .inside words arg none := by
  rw [quoteArg]
  split
  -- The quotes around it open and close the word, so an empty argument is a word too.
  · change splitting (.inside words [] (some .single)) (encode arg ++ ['\x27']) = _
    rw [splitting_append, splitting_encode]
    rfl
  · next hplain => exact splitting_word words (isWord_of_not_quoted hplain)

/-! ### The line -/

theorem finish_splitting_args {α : Type*} (words : List (List Char)) (current : List Char)
    {args : List α} {written read : α → List Char}
    (h : ∀ arg ∈ args, ∀ words,
      splitting (.between words) (written arg) = .inside words (read arg) none) :
    (splitting (.inside words current none) (args.flatMap fun arg => ' ' :: written arg)).finish =
      words ++ current :: args.map read := by
  induction args generalizing words current with
  | nil => rfl
  | cons arg args ih =>
    rw [List.flatMap_cons, splitting_append]
    -- The space ends the word before.
    change (splitting (splitting (.between (words ++ [current])) (written arg)) _).finish = _
    rw [h arg List.mem_cons_self, ih _ _ fun arg hmem => h arg (List.mem_cons_of_mem _ hmem),
      List.append_assoc, List.singleton_append]
    rfl

variable {command : List Char}

theorem IsWord.trim_eq (h : IsWord command) : Text.trim command = command :=
  Text.trim_eq_self fun c hc => (isPlain_iff.mp (h.2 c hc)).1

theorem IsWord.shellLine_eq (h : IsWord command) (args : List (List Char)) :
    shellLine command args = some (command ++ args.flatMap fun arg => ' ' :: quoteArg arg) := by
  simp only [shellLine, h.trim_eq, List.isEmpty_iff]
  exact if_neg h.1

theorem splitCommandLine_shellLine (h : IsWord command) (args : List (List Char)) :
    (shellLine command args).bind splitCommandLine = some (command, args) := by
  have hfinish : (splitting .start
      (command ++ args.flatMap fun arg => ' ' :: quoteArg arg)).finish = command :: args := by
    rw [splitting_append]
    change (splitting (splitting (.between []) command) _).finish = _
    rw [splitting_word [] h,
      finish_splitting_args [] command fun arg _ words => splitting_quoteArg words arg, List.map_id',
      List.nil_append]
  rw [h.shellLine_eq, Option.bind_some, splitCommandLine, hfinish]
  exact if_neg fun hempty => h.1 (List.isEmpty_iff.mp hempty)

/-! ### A shell -/

section Shell

open ShellWords

variable {special : Char → Bool}

/-- `special` has no character that `quote_arg` leaves unquoted. -/
def Covered (special : Char → Bool) : Prop :=
  ∀ c, special c = true → Text.isWhitespace c = true ∨ c ∈ shellCharacters

theorem read_encode (current text rest : List Char) :
    read special .single (some current) (encode text ++ '\x27' :: rest) =
      read special .unquoted (some (current ++ text)) rest := by
  induction text generalizing current with
  | nil => rw [List.append_nil]; rfl
  | cons c text ih =>
    by_cases hc : c = '\x27'
    · subst hc
      rw [encode_quote, List.append_cons current, ← ih]
      rfl
    · rw [encode_cons hc, List.cons_append, read_single hc, push, Option.getD_some, ih,
        List.append_assoc, List.singleton_append]

theorem literal_of_isPlain (h : isPlain c = true) (hspecial : special c = false) :
    Literal special c := by
  obtain ⟨hspace, hsingle, hdouble, hslash⟩ := isPlain_iff.mp h
  refine ⟨hsingle, hdouble, hslash, ?_, ?_, hspecial⟩
  all_goals
    rintro rfl
    exact absurd hspace (by decide)

theorem read_quoteArg (hspecial : Covered special) (arg rest : List Char) :
    read special .unquoted none (quoteArg arg ++ rest) =
      read special .unquoted (some arg) rest := by
  rw [quoteArg]
  split
  · change read special .single (some []) (encode arg ++ ['\x27'] ++ rest) = _
    rw [List.append_assoc]
    exact read_encode [] arg rest
  · next hplain =>
    obtain ⟨hne, hword⟩ := isWord_of_not_quoted hplain
    refine read_literals hne (fun c hc => literal_of_isPlain (hword c hc) ?_) none rest
    rw [Bool.or_eq_true, not_or, List.any_eq_true] at hplain
    -- A character of the shell would have been quoted.
    refine Bool.eq_false_iff.mpr fun htrue => hplain.2 ⟨c, hc, ?_⟩
    rw [Bool.or_eq_true, List.contains_iff_mem]
    exact hspecial c htrue

theorem read_args (hspecial : Covered special) (current : List Char) (args : List (List Char)) :
    read special .unquoted (some current) (args.flatMap fun arg => ' ' :: quoteArg arg) =
      some (current :: args) := by
  induction args generalizing current with
  | nil => rfl
  | cons arg args ih =>
    rw [List.flatMap_cons, List.cons_append]
    change (read special .unquoted none (quoteArg arg ++ _)).map ([current] ++ ·) = _
    rw [read_quoteArg hspecial, ih]
    rfl

theorem words_shellLine (hspecial : Covered special) (h : IsWord command)
    (hcommand : ∀ c ∈ command, special c = false) (args : List (List Char)) :
    (shellLine command args).bind (words special) = some (command :: args) := by
  rw [h.shellLine_eq, Option.bind_some, words,
    read_literals h.1 fun c hc => literal_of_isPlain (h.2 c hc) (hcommand c hc)]
  exact read_args hspecial command args

/-- The rules of quoting alone: of the characters that are not quoted only the end of the line does
not stand for itself. -/
def lineEnd (c : Char) : Bool := c == '\n'

/-- The characters that have to be quoted to stand for themselves: those of the operators and of the
expansions. -/
def operators (c : Char) : Bool :=
  ['\n', '|', '&', ';', '<', '>', '(', ')', '$', '\x60', '*', '?', '[', '~', '#'].contains c

theorem covered_lineEnd : Covered lineEnd := by
  intro c hc
  obtain rfl : c = '\n' := by simpa [lineEnd] using hc
  exact .inl (by decide)

theorem covered_operators : Covered operators := by
  intro c hc
  -- White space among them is quoted too.
  have hall : (['\n', '|', '&', ';', '<', '>', '(', ')', '$', '\x60', '*', '?', '[', '~', '#'].all
      fun d => Text.isWhitespace d || shellCharacters.contains d) = true := by decide
  have hc := List.all_eq_true.mp hall c (List.contains_iff_mem.mp hc)
  rwa [Bool.or_eq_true, List.contains_iff_mem] at hc

theorem IsWord.lineEnd_eq (h : IsWord command) :
    ∀ c ∈ command, lineEnd c = false := by
  intro c hc
  obtain ⟨hspace, -⟩ := isPlain_iff.mp (h.2 c hc)
  refine Bool.eq_false_iff.mpr fun hend => ?_
  obtain rfl : c = '\n' := by simpa [lineEnd] using hend
  exact absurd hspace (by decide)

end Shell

/-- **A line is read back as its call.** The splitter gives the command and the arguments, whatever
characters are in the arguments; so does a shell by its rules of quoting, and if the command has
none of the shell's own characters, by all its rules. -/
theorem line_reads_back (command : List Char) (args : List (List Char)) (h : IsWord command) :
    (shellLine command args).bind splitCommandLine = some (command, args) ∧
    (shellLine command args).bind (ShellWords.words lineEnd) = some (command :: args) ∧
    ((∀ c ∈ command, operators c = false) →
      (shellLine command args).bind (ShellWords.words operators) = some (command :: args)) := by
  refine ⟨splitCommandLine_shellLine h args, ?_, fun hcommand => ?_⟩
  · exact words_shellLine covered_lineEnd h h.lineEnd_eq args
  · exact words_shellLine covered_operators h hcommand args

/-- No argument, and one with a quote, a backslash, a line break and a letter beyond ASCII. -/
theorem line_reads_back_quotes :
    IsWord "echo".toList ∧
    (shellLine "echo".toList [[], "it\x27s \x5c\nó".toList]).bind splitCommandLine =
      some ("echo".toList, [[], "it\x27s \x5c\nó".toList]) :=
  ⟨by decide, (line_reads_back "echo".toList [[], "it\x27s \x5c\nó".toList] (by decide)).1⟩

end Goble.Commands
