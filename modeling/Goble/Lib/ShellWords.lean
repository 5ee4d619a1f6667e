/-!
# The words of a shell line

How a POSIX shell reads a line as the words of one simple command: blanks separate words, and there
are three ways to quote. A backslash quotes the next character, and joins lines; between single
quotes every character stands for itself; between double quotes all but the dollar sign, the
backquote and the backslash do.

A shell does more with some characters that are not quoted: it takes them for operators, or expands
the word they are in. Which ones is the parameter `special`. A line is not read (`none`) if one of
them is not quoted, or if a quote stays open.
-/

namespace Goble.ShellWords

/-- What quotes the next character. -/
inductive Mode
  | unquoted | escaped | single | double | doubleEscaped
deriving DecidableEq

variable (special : Char → Bool)

/-- The word being read goes on with a character. -/
def push (word : Option (List Char)) (c : Char) : Option (List Char) := some (word.getD [] ++ [c])

def read : Mode → (word : Option (List Char)) → List Char → Option (List (List Char))
  | .unquoted, word, [] => some word.toList
  | .escaped, _, [] | .single, _, [] | .double, _, [] | .doubleEscaped, _, [] => none
  | .unquoted, word, c :: rest =>
    if c = '\x27' then read .single (some (word.getD [])) rest
    else if c = '\x22' then read .double (some (word.getD [])) rest
    else if c = '\x5c' then read .escaped word rest
    else if c = ' ' ∨ c = '\t' then (read .unquoted none rest).map (word.toList ++ ·)
    else if special c then none
    else read .unquoted (push word c) rest
  | .escaped, word, c :: rest =>
    -- a backslash and the line break after it are nothing
    if c = '\n' then read .unquoted word rest else read .unquoted (push word c) rest
  | .single, word, c :: rest =>
    if c = '\x27' then read .unquoted word rest else read .single (push word c) rest
  | .double, word, c :: rest =>
    if c = '\x22' then read .unquoted word rest
    else if c = '\x5c' then read .doubleEscaped word rest
    else if c = '$' ∨ c = '\x60' then none
    else read .double (push word c) rest
  | .doubleEscaped, word, c :: rest =>
    if c = '\n' then read .double word rest
    else if c = '$' ∨ c = '\x60' ∨ c = '\x22' ∨ c = '\x5c' then read .double (push word c) rest
    -- before any other character the backslash stands for itself
    else read .double (push (push word '\x5c') c) rest

def words (line : List Char) : Option (List (List Char)) := read special .unquoted none line

/-- A character that is neither quote nor backslash nor blank nor special. -/
def Literal (c : Char) : Prop :=
  c ≠ '\x27' ∧ c ≠ '\x22' ∧ c ≠ '\x5c' ∧ c ≠ ' ' ∧ c ≠ '\t' ∧ special c = false

variable {special}

theorem read_literal {c : Char} (h : Literal special c) (word : Option (List Char))
    (rest : List Char) :
    read special .unquoted word (c :: rest) = read special .unquoted (push word c) rest := by
  obtain ⟨hsingle, hdouble, hslash, hspace, htab, hspecial⟩ := h
  rw [read, if_neg hsingle, if_neg hdouble, if_neg hslash, if_neg (not_or.mpr ⟨hspace, htab⟩),
    if_neg (by rw [hspecial]; exact Bool.false_ne_true)]

/-- Characters that stand for themselves. -/
theorem read_literals {text : List Char} (hne : text ≠ [])
    (h : ∀ c ∈ text, Literal special c) (word : Option (List Char)) (rest : List Char) :
    read special .unquoted word (text ++ rest) =
      read special .unquoted (some (word.getD [] ++ text)) rest := by
  induction text generalizing word with
  | nil => exact absurd rfl hne
  | cons c text ih =>
    rw [List.cons_append, read_literal (h c List.mem_cons_self)]
    -- with one character left there is no word to go on with
    cases text with
    | nil => rfl
    | cons d text =>
      rw [ih (List.cons_ne_nil d text) fun e he => h e (List.mem_cons_of_mem c he), push,
        Option.getD_some, List.append_assoc, List.singleton_append]

theorem read_single {c : Char} (h : c ≠ '\x27') (word : Option (List Char)) (rest : List Char) :
    read special .single word (c :: rest) = read special .single (push word c) rest := by
  rw [read, if_neg h]

end Goble.ShellWords
