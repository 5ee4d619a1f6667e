import Goble.Commands.Line

/-!
# What the splitter drops

`split_command_line` drops white space between words, the quotes that it takes for itself and the
backslashes that escape the next character. It makes up nothing, so what is missing from the words
has been dropped: a line that loses no double quote keeps a single quote or a backslash only as
often as it has a backslash to drop (`quotes_le`), and a text at its front that has no single quote
has then no double quote and no backslash either (`plain_of_balanced`).

A text without any of the three is split at its white space (`bare_splitting`), and a text that
ends a word in every quote there is makes as many words as it is written (`length_repeated`).
-/

namespace Goble.Commands

/-! ### Counting what is kept -/

/-- What has been read, without the gaps between the words. -/
def Read.letters (s : Read) : List Char := s.words.flatten ++ s.current

/-- A character is dropped or kept. -/
theorem Read.next_letters (s : Read) (c : Char) :
    (s.next c).letters = s.letters ∨ (s.next c).letters = s.letters ++ [c] := by
  have hpush : ∀ t : Read, t.words = s.words → t.current = s.current ++ [c] →
      t.letters = s.letters ++ [c] := by
    intro t hwords hcurrent
    rw [Read.letters, hwords, hcurrent, Read.letters, List.append_assoc]
  -- The branches of the source in their order: escaped, in single or double quotes, outside.
  unfold Read.next
  split
  · exact .inr (hpush _ rfl rfl)
  split
  · split
    · exact .inl rfl
    · exact .inr (hpush _ rfl rfl)
  · split
    · exact .inl rfl
    split
    · exact .inl rfl
    · exact .inr (hpush _ rfl rfl)
  · split
    · exact .inl rfl
    split
    · exact .inl rfl
    split
    · exact .inl rfl
    split
    · split
      · exact .inl (by simp [Read.letters])
      · exact .inl rfl
    · exact .inr (hpush _ rfl rfl)

theorem count_letters_le (d : Char) (s : Read) (text : List Char) :
    (splitting s text).letters.count d ≤ s.letters.count d + text.count d := by
  induction text generalizing s with
  | nil => exact Nat.le_add_right _ _
  | cons c text ih =>
    refine (ih (s.next c)).trans ?_
    rw [List.count_cons]
    obtain h | h := s.next_letters c
    · rw [h]
      omega
    · rw [h, List.count_append, List.count_singleton]
      omega

/-- The single quotes and backslashes that have been kept. -/
def Read.kept (s : Read) : Nat := s.letters.count '\x27' + s.letters.count '\x5c'

variable {s : Read}

theorem Read.kept_append {t : Read} {c : Char} (h : t.letters = s.letters ++ [c]) :
    t.kept = s.kept + (if c = '\x27' ∨ c = '\x5c' then 1 else 0) := by
  rw [Read.kept, Read.kept, h, List.count_append, List.count_append, List.count_singleton,
    List.count_singleton]
  by_cases hq : c = '\x27'
  · subst hq
    simp
    omega
  by_cases hs : c = '\x5c'
  · subst hs
    simp
    omega
  simp [hq, hs]

/-- What a character does outside double quotes: it is kept because it is escaped; it is dropped to
open double quotes, to escape the next one, to open or close single quotes or to end a word; or it
is kept because it is no single quote. -/
theorem Read.next_cases (c : Char) (hquote : s.quote ≠ some .double) :
    (s.escaped = true ∧ (s.next c).letters = s.letters ++ [c] ∧ (s.next c).escaped = false ∧
      (s.next c).quote = s.quote) ∨
    (s.escaped = false ∧ c = '\x22' ∧ (s.next c).letters = s.letters) ∨
    (s.escaped = false ∧ c = '\x5c' ∧ (s.next c).letters = s.letters ∧
      (s.next c).escaped = true ∧ (s.next c).quote = none) ∨
    (s.escaped = false ∧ c ≠ '\x22' ∧ c ≠ '\x5c' ∧ (s.next c).letters = s.letters ∧
      (s.next c).escaped = false ∧ (s.next c).quote ≠ some .double ∧
      (c ≠ '\x27' → (s.next c).quote = none)) ∨
    (s.escaped = false ∧ c ≠ '\x27' ∧ (s.next c).letters = s.letters ++ [c] ∧
      (s.next c).escaped = false ∧ (s.next c).quote = s.quote ∧
      (s.quote = none → c ≠ '\x22' ∧ c ≠ '\x5c')) := by
  obtain ⟨words, current, inWord, quote, escaped⟩ := s
  have hpush : words.flatten ++ (current ++ [c]) = words.flatten ++ current ++ [c] :=
    (List.append_assoc _ _ _).symm
  have hnone : ∀ q : Quote, (none : Option Quote) ≠ some q := fun q => (Option.some_ne_none q).symm
  have hquotes : quote = none ∨ quote = some .single := by
    cases quote with
    | none => exact .inl rfl
    | some q =>
      cases q with
      | single => exact .inr rfl
      | double => exact absurd rfl hquote
  cases escaped with
  | true => exact .inl ⟨rfl, hpush, rfl, rfl⟩
  | false =>
    refine .inr ?_
    by_cases hsingle : c = '\x27'
    · subst hsingle
      refine .inr (.inr (.inl ⟨rfl, by decide, by decide, ?_⟩))
      obtain rfl | rfl := hquotes
      · exact ⟨rfl, rfl, (fun h => by cases h), fun h => absurd rfl h⟩
      · exact ⟨rfl, rfl, hnone _, fun h => absurd rfl h⟩
    obtain rfl | rfl := hquotes.symm
    · refine .inr (.inr (.inr ⟨rfl, hsingle, ?_⟩))
      rw [Read.next]
      simp only [Bool.false_eq_true, if_false, if_neg hsingle]
      exact ⟨hpush, rfl, rfl, fun h => absurd h.symm (hnone _)⟩
    · by_cases hdouble : c = '\x22'
      · subst hdouble
        exact .inl ⟨rfl, rfl, rfl⟩
      by_cases hslash : c = '\x5c'
      · subst hslash
        exact .inr (.inl ⟨rfl, rfl, rfl, rfl, rfl⟩)
      rw [Read.next]
      simp only [Bool.false_eq_true, if_false, if_neg hsingle, if_neg hdouble, if_neg hslash]
      split
      · refine .inr (.inr (.inl ⟨trivial, hdouble, hslash, ?_⟩))
        split
        · exact ⟨by simp [Read.letters], rfl, hnone _, fun _ => rfl⟩
        · exact ⟨rfl, rfl, hnone _, fun _ => rfl⟩
      · exact .inr (.inr (.inr ⟨trivial, hsingle, hpush, rfl, rfl, fun _ => ⟨hdouble, hslash⟩⟩))

variable {text : List Char}

theorem quotes_le (hquote : s.quote ≠ some .double) (hescaped : s.escaped = true → s.quote = none)
    (hdouble : s.letters.count '\x22' + text.count '\x22' ≤
      (splitting s text).letters.count '\x22') :
    (splitting s text).kept ≤ s.kept + text.count '\x5c' + s.escaped.toNat := by
  induction text generalizing s with
  | nil => exact (Nat.le_add_right _ _).trans (Nat.le_add_right _ _)
  | cons c text ih =>
    have hle := count_letters_le '\x22' (s.next c) text
    change _ ≤ (splitting (s.next c) text).letters.count '\x22' at hdouble
    change (splitting (s.next c) text).kept ≤ _
    rw [List.count_cons] at hdouble ⊢
    obtain ⟨hs, hletters, hnext, hquote'⟩ | ⟨hs, rfl, hletters⟩ | ⟨hs, rfl, hletters, hnext, hquote'⟩ |
      ⟨hs, hne, hslash, hletters, hnext, hquote', -⟩ | ⟨hs, hne, hletters, hnext, hquote', -⟩ :=
      s.next_cases c hquote
    -- Escaped: the character is kept, and the backslash before it paid for it.
    · have hkept := Read.kept_append hletters
      have hrest := @ih (s.next c) (by rw [hquote']; exact hquote) (by simp [hnext]) (by
        rw [hletters, List.count_append, List.count_singleton]
        omega)
      rw [hs, Bool.toNat_true]
      rw [hkept, hnext, Bool.toNat_false] at hrest
      split at hrest <;> omega
    · -- a double quote would be missing
      rw [hletters] at hle
      simp only [beq_self_eq_true, if_true] at hdouble
      omega
    · have hrest := @ih (s.next '\x5c') (by rw [hquote']; nofun) (fun _ => hquote') (by
        rw [hletters]
        omega)
      have hkept : (s.next '\x5c').kept = s.kept := by rw [Read.kept, Read.kept, hletters]
      -- The backslash is dropped, and pays for the next character.
      rw [hkept, hnext, Bool.toNat_true] at hrest
      rw [hs, Bool.toNat_false, beq_self_eq_true, if_pos rfl]
      omega
    · have hrest := @ih (s.next c) hquote' (by simp [hnext]) (by
        rw [hletters]
        omega)
      have hkept : (s.next c).kept = s.kept := by rw [Read.kept, Read.kept, hletters]
      rw [hkept, hnext, Bool.toNat_false] at hrest
      rw [hs, Bool.toNat_false]
      omega
    · have hkept := Read.kept_append hletters
      have hrest := @ih (s.next c) (by rw [hquote']; exact hquote) (by simp [hnext]) (by
        rw [hletters, List.count_append, List.count_singleton]
        omega)
      rw [hkept, hnext, Bool.toNat_false] at hrest
      rw [hs, Bool.toNat_false]
      -- A backslash that is kept pays for itself.
      by_cases hslash : c = '\x5c'
      · rw [if_pos (.inr hslash)] at hrest
        rw [if_pos (beq_iff_eq.mpr hslash)]
        omega
      · rw [if_neg (not_or.mpr ⟨hne, hslash⟩)] at hrest
        omega

theorem kept_after_backslash (hquote : s.quote = none) (hescaped : s.escaped = true)
    (hhead : text.head? ≠ some '\x27') (hdouble : s.letters.count '\x22' + text.count '\x22' ≤
      (splitting s text).letters.count '\x22') :
    (splitting s text).kept ≤ s.kept + text.count '\x5c' := by
  cases text with
  | nil => exact Nat.le_add_right _ _
  | cons c text =>
    have hc : c ≠ '\x27' := fun heq => hhead (congrArg some heq)
    have hne : s.quote ≠ some .double := by rw [hquote]; nofun
    obtain ⟨-, hletters, hnext, hquote'⟩ | ⟨hs, -⟩ | ⟨hs, -⟩ | ⟨hs, -⟩ | ⟨hs, -⟩ :=
      s.next_cases c hne
    · have hkept := Read.kept_append hletters
      change _ ≤ (splitting (s.next c) text).letters.count '\x22' at hdouble
      change (splitting (s.next c) text).kept ≤ _
      rw [List.count_cons] at hdouble ⊢
      have hrest := @quotes_le (s.next c) text (by rw [hquote']; exact hne) (by simp [hnext]) (by
        rw [hletters, List.count_append, List.count_singleton]
        omega)
      rw [hkept, hnext, Bool.toNat_false] at hrest
      -- What it escapes is no quote: a backslash pays for itself, any other costs nothing.
      by_cases hslash : c = '\x5c'
      · rw [if_pos (.inr hslash)] at hrest
        rw [if_pos (beq_iff_eq.mpr hslash)]
        omega
      · rw [if_neg (not_or.mpr ⟨hc, hslash⟩)] at hrest
        omega
    all_goals
      rw [hescaped] at hs
      cases hs

/-- Where no double quote is dropped, and no backslash without a quote for it, a text without single
quotes has no double quote and no backslash. -/
theorem plain_of_balanced {rest : List Char} (hquote : s.quote = none)
    (hescaped : s.escaped = false) (htext : '\x27' ∉ text) (hrest : rest.head? ≠ some '\x27')
    (hdouble : s.letters.count '\x22' + (text ++ rest).count '\x22' ≤
      (splitting s (text ++ rest)).letters.count '\x22')
    (hkept : s.kept + (text ++ rest).count '\x5c' ≤ (splitting s (text ++ rest)).kept) :
    '\x22' ∉ text ∧ '\x5c' ∉ text := by
  induction text generalizing s with
  | nil => exact ⟨List.not_mem_nil, List.not_mem_nil⟩
  | cons c text ih =>
    have hc : c ≠ '\x27' := fun heq => htext (heq ▸ List.mem_cons_self)
    have htail : '\x27' ∉ text := fun hmem => htext (List.mem_cons_of_mem c hmem)
    have hle := count_letters_le '\x22' (s.next c) (text ++ rest)
    rw [List.cons_append, List.count_cons] at hdouble hkept
    change _ ≤ (splitting (s.next c) (text ++ rest)).letters.count '\x22' at hdouble
    change _ ≤ (splitting (s.next c) (text ++ rest)).kept at hkept
    have hdouble' := hdouble
    obtain ⟨hs, -⟩ | ⟨-, rfl, hletters⟩ | ⟨-, rfl, hletters, hnext, hquote'⟩ |
      ⟨-, hne, hslash, hletters, hnext, -, hquote'⟩ |
      ⟨-, -, hletters, hnext, hquote', hplain⟩ := s.next_cases c (by rw [hquote]; nofun)
    · rw [hescaped] at hs
      cases hs
    · -- a double quote would be missing
      rw [hletters, List.count_append] at hle
      rw [beq_self_eq_true, if_pos rfl, List.count_append] at hdouble
      omega
    · -- a backslash would be missing
      have hhead : (text ++ rest).head? ≠ some '\x27' := by
        cases text with
        | nil => exact hrest
        | cons d text => exact fun heq => htail (Option.some.inj heq ▸ List.mem_cons_self)
      have hle := kept_after_backslash hquote' hnext hhead (by
        rw [hletters]
        omega)
      have hsame : (s.next '\x5c').kept = s.kept := by rw [Read.kept, Read.kept, hletters]
      rw [beq_self_eq_true, if_pos rfl] at hkept
      rw [hsame] at hle
      omega
    · have hsame : (s.next c).kept = s.kept := by rw [Read.kept, Read.kept, hletters]
      obtain ⟨hdoubles, hslashes⟩ := ih (hquote' hc) hnext htail
        (by rw [hletters]; omega) (by rw [hsame]; omega)
      exact ⟨List.not_mem_cons_of_ne_of_not_mem hne.symm hdoubles,
        List.not_mem_cons_of_ne_of_not_mem hslash.symm hslashes⟩
    · obtain ⟨hne, hslash⟩ := hplain hquote
      have hsame := Read.kept_append hletters
      rw [if_neg (not_or.mpr ⟨hc, hslash⟩)] at hsame
      obtain ⟨hdoubles, hslashes⟩ := ih (hquote'.trans hquote) hnext htail
        (by rw [hletters, List.count_append, List.count_singleton]; omega)
        (by rw [hsame]; omega)
      exact ⟨List.not_mem_cons_of_ne_of_not_mem hne.symm hdoubles,
        List.not_mem_cons_of_ne_of_not_mem hslash.symm hslashes⟩

/-! ### The words at the end -/

def Read.Settled (s : Read) : Prop :=
  s.inWord = false → s.current = [] ∧ s.quote = none ∧ s.escaped = false

theorem Read.Settled.next (h : s.Settled) (c : Char) : (s.next c).Settled := by
  obtain ⟨words, current, inWord, quote, escaped⟩ := s
  -- A state inside a word is settled whatever it holds; only white space leaves the word.
  have hword : ∀ t : Read, t.inWord = true → t.Settled := fun t ht hfalse => by
    rw [ht] at hfalse
    cases hfalse
  cases inWord with
  | false =>
    obtain ⟨rfl, rfl, rfl⟩ : current = [] ∧ quote = none ∧ escaped = false := h rfl
    -- Outside a word nothing is quoted or escaped, so the first branches are not taken.
    simp only [Read.next, Bool.false_eq_true, if_false]
    split
    · exact hword _ rfl
    split
    · exact hword _ rfl
    split
    · exact hword _ rfl
    split
    · exact fun _ => ⟨rfl, rfl, rfl⟩
    · exact hword _ rfl
  | true =>
    rw [Read.next]
    split
    · exact hword _ rfl
    split
    · split <;> exact hword _ rfl
    · split
      · exact hword _ rfl
      split <;> exact hword _ rfl
    · next hnotEscaped _ hnone =>
      obtain rfl : escaped = false := Bool.eq_false_iff.mpr hnotEscaped
      obtain rfl : quote = none := hnone
      split
      · exact hword _ rfl
      split
      · exact hword _ rfl
      split
      · exact hword _ rfl
      split
      · exact fun _ => ⟨rfl, rfl, rfl⟩
      · exact hword _ rfl

theorem settled_splitting (text : List Char) : (splitting .start text).Settled := by
  suffices h : ∀ s : Read, s.Settled → (splitting s text).Settled from
    h .start fun _ => ⟨rfl, rfl, rfl⟩
  intro s hs
  induction text generalizing s with
  | nil => exact hs
  | cons c text ih => exact ih (s.next c) (hs.next c)

theorem Read.Settled.finish_flatten (h : s.Settled) : s.finish.flatten = s.letters := by
  rw [Read.finish, Read.letters]
  split
  · rw [List.flatten_concat]
  · next hword =>
    obtain ⟨hcurrent, -⟩ := h (Bool.not_eq_true _ ▸ hword)
    rw [hcurrent, List.append_nil]

/-! ### A text without quotes and backslashes -/

/-- What has been read is words that need no quotes. -/
inductive Bare : Read → Prop
  | between {words : List (List Char)} (h : ∀ word ∈ words, IsWord word) : Bare (.between words)
  | inside {words : List (List Char)} {word : List Char} (h : ∀ word ∈ words, IsWord word)
      (hword : IsWord word) : Bare (.inside words word none)

/-- A character that is no quote and no backslash. -/
def Unmarked (c : Char) : Prop := c ≠ '\x27' ∧ c ≠ '\x22' ∧ c ≠ '\x5c'

theorem IsWord.push {word : List Char} {c : Char} (h : ∀ d ∈ word, isPlain d = true)
    (hc : isPlain c = true) : IsWord (word ++ [c]) := by
  refine ⟨by simp, fun d hd => ?_⟩
  obtain hd | hd := List.mem_append.mp hd
  · exact h d hd
  · rwa [List.mem_singleton.mp hd]

theorem Bare.next (h : Bare s) {c : Char} (hc : Unmarked c) : Bare (s.next c) := by
  obtain ⟨hsingle, hdouble, hslash⟩ := hc
  -- White space ends the word, anything else goes on with it.
  by_cases hspace : Text.isWhitespace c = true
  · have hnext : ∀ words current inWord, Read.next ⟨words, current, inWord, none, false⟩ c =
        if inWord then ⟨words ++ [current], [], false, none, false⟩
        else ⟨words, current, inWord, none, false⟩ := by
      intro words current inWord
      simp only [Read.next, Bool.false_eq_true, if_false, if_neg hsingle, if_neg hdouble,
        if_neg hslash, hspace, if_true]
    cases h with
    | between h =>
      rw [Read.between, hnext]
      exact .between h
    | inside h hword =>
      rw [Read.inside, hnext]
      refine .between fun word hmem => ?_
      obtain hmem | hmem := List.mem_append.mp hmem
      · exact h word hmem
      · rwa [List.mem_singleton.mp hmem]
  · have hplain : isPlain c = true :=
      isPlain_iff.mpr ⟨Bool.eq_false_iff.mpr hspace, hsingle, hdouble, hslash⟩
    cases h with
    | between h =>
      rw [next_plain rfl rfl hplain]
      exact .inside h (IsWord.push (fun d hd => by cases hd) hplain)
    | inside h hword =>
      rw [next_plain rfl rfl hplain]
      exact .inside h (IsWord.push hword.2 hplain)

theorem bare_splitting (h : ∀ c ∈ text, Unmarked c) :
    Bare (splitting .start text) := by
  suffices hall : ∀ s, Bare s → Bare (splitting s text) from
    hall .start (.between fun word hmem => by cases hmem)
  intro s hs
  induction text generalizing s with
  | nil => exact hs
  | cons c text ih =>
    exact ih (fun d hd => h d (List.mem_cons_of_mem c hd)) (s.next c)
      (hs.next (h c List.mem_cons_self))

theorem Bare.finish (h : Bare s) : ∀ word ∈ s.finish, IsWord word := by
  cases h with
  | between h => exact h
  | inside h hword =>
    intro word hmem
    obtain hmem | hmem := List.mem_append.mp hmem
    · exact h word hmem
    · rwa [List.mem_singleton.mp hmem]

theorem Bare.next_space (h : Bare s) : s.next ' ' = .between s.finish := by
  cases h with
  | between h => rfl
  | inside h hword => rfl

/-! ### A text that ends words -/

theorem length_words_le (s : Read) (text : List Char) :
    s.words.length ≤ (splitting s text).words.length := by
  induction text generalizing s with
  | nil => exact le_rfl
  | cons c text ih =>
    refine le_trans ?_ (ih (s.next c))
    rw [Read.next]
    repeat' split
    all_goals simp [Read.push]

/-- It ends a word outside quotes, after a single quote and after a double one. -/
def breaker : List Char := "x x x\x27 x \x22 x ".toList

theorem length_lt_breaker (s : Read) : s.words.length < (splitting s breaker).words.length := by
  have hbreaker : breaker = ['x', ' ', 'x', ' ', 'x', '\x27', ' ', 'x', ' ', '\x22', ' ', 'x',
    ' '] := by decide
  have hspace : Text.isWhitespace ' ' = true := by decide
  have hx : Text.isWhitespace 'x' = false := by decide
  rw [hbreaker]
  -- Twelve states of the splitter, and in each a space ends a word.
  obtain ⟨words, current, _ | _, _ | _ | _, _ | _⟩ := s
  all_goals simp [splitting, Read.next, Read.push, hspace, hx]

theorem length_repeated (n : Nat) (s : Read) :
    s.words.length + n ≤ (splitting s (List.replicate n breaker).flatten).words.length := by
  induction n generalizing s with
  | zero => exact le_rfl
  | succ n ih =>
    rw [List.replicate_succ, List.flatten_cons, splitting_append]
    have hone := length_lt_breaker s
    have hrest := ih (splitting s breaker)
    omega

theorem length_finish_of_infix {n : Nat} {line : List Char}
    (h : (List.replicate n breaker).flatten <:+: line) :
    n ≤ (splitting .start line).finish.length := by
  obtain ⟨before, after, rfl⟩ := h
  rw [splitting_append, splitting_append]
  have hfinish : ∀ s : Read, s.words.length ≤ s.finish.length := by
    intro s
    rw [Read.finish]
    split
    · rw [List.length_append]
      exact Nat.le_add_right _ _
    · exact le_rfl
  -- Words that have ended stay, whatever comes before and after.
  refine le_trans ?_ (hfinish _)
  refine le_trans ?_ (length_words_le _ after)
  exact (Nat.le_add_left _ _).trans (length_repeated n (splitting .start before))

end Goble.Commands
