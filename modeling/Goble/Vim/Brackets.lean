import Goble.Lib.Balanced
import Goble.Lib.Lists
import Goble.Vim.Bounds

/-!
# Bracket matching as a pairing

Two brackets of a kind form a pair when the text between them is balanced (`BracketPair`). The scan
from either end finds the other (`matchingBracket_opening`, `matchingBracket_closing`), so each
direction undoes the other. Off the brackets, a block object is the innermost pair around the
position: what closes first ahead closes no later than any enclosing pair, and what it pairs with
opens no earlier (`brackets_pair`).
-/

namespace Goble.Vim

namespace Bracket

def opening (bracket : Bracket) : Char := bracket.chars.1
def closing (bracket : Bracket) : Char := bracket.chars.2

theorem opening_ne_closing (bracket : Bracket) : bracket.opening ≠ bracket.closing := by
  cases bracket <;> decide

theorem of_eq_some_iff {bracket : Bracket} {opens : Bool} {c : Char} :
    of c = some (bracket, opens) ↔ c = if opens then bracket.opening else bracket.closing := by
  constructor
  · intro h
    unfold of at h
    split_ifs at h with hround hcurly hsquare
    · obtain ⟨rfl, rfl⟩ := Prod.mk.inj (Option.some.inj h)
      obtain rfl | rfl := hround <;> rfl
    · obtain ⟨rfl, rfl⟩ := Prod.mk.inj (Option.some.inj h)
      obtain rfl | rfl := hcurly <;> rfl
    · obtain ⟨rfl, rfl⟩ := Prod.mk.inj (Option.some.inj h)
      obtain rfl | rfl := hsquare <;> rfl
  · rintro rfl
    cases bracket <;> cases opens <;> rfl

end Bracket

def BracketPair (chars : List Char) (bracket : Bracket) (s e : Nat) : Prop :=
  ∃ before seg after, chars = before ++ bracket.opening :: (seg ++ bracket.closing :: after) ∧
    before.length = s ∧ s + 1 + seg.length = e ∧ Balanced bracket.opening bracket.closing seg

/-- A pair around a position. -/
structure Encloses (chars : List Char) (bracket : Bracket) (pos s e : Nat) : Prop where
  pair : BracketPair chars bracket s e
  start_lt : s < pos
  lt_stop : pos < e

variable {chars : List Char} {bracket : Bracket} {pos s e i j depth : Nat} {a opening closing : Char}

/-! ### The scans -/

theorem matchAhead_eq_partner (rest : List Char) :
    matchAhead opening closing depth i rest =
      (partner opening closing depth rest).map (i + ·) := by
  induction rest generalizing depth i with
  | nil => rfl
  | cons c rest ih =>
    have hpass : ∀ depth', matchAhead opening closing depth' (i + 1) rest =
        ((partner opening closing depth' rest).map (· + 1)).map (i + ·) := by
      intro depth'
      rw [ih, Option.map_map]
      congr 1
      ext k
      show i + 1 + k = i + (k + 1)
      omega
    rw [matchAhead, partner]
    split_ifs
    · exact hpass (depth + 1)
    · rfl
    · exact hpass (depth - 1)
    · exact hpass depth

/-- Backward, the scan reads the text before the index in reverse, with the brackets exchanged. -/
theorem matchBehind_eq_partner (hi : i ≤ chars.length) :
    matchBehind opening closing chars depth i =
      (partner closing opening depth (chars.take i).reverse).map (i - 1 - ·) := by
  induction i generalizing depth with
  | zero => rfl
  | succ i ih =>
    have hpass : ∀ depth', matchBehind opening closing chars depth' i =
        ((partner closing opening depth' (chars.take i).reverse).map (· + 1)).map
          (i + 1 - 1 - ·) := by
      intro depth'
      rw [ih (by omega), Option.map_map]
      congr 1
      ext k
      show i - 1 - k = i + 1 - 1 - (k + 1)
      omega
    have htake : (chars.take (i + 1)).reverse = charAt chars i :: (chars.take i).reverse := by
      rw [List.take_add_one, List.getElem?_eq_getElem hi, Option.toList_some,
        List.reverse_append, charAt, List.getD_eq_getElem?_getD, List.getElem?_eq_getElem hi]
      rfl
    rw [matchBehind, htake, partner]
    split_ifs
    · exact hpass (depth + 1)
    · rfl
    · exact hpass (depth - 1)
    · exact hpass depth

variable {before rest : List Char}

theorem matchingBracket_ahead_eq :
    matchingBracket (before ++ a :: rest) before.length bracket true =
      (partner bracket.opening bracket.closing 0 rest).map (before.length + 1 + ·) := by
  have hdrop : (before ++ a :: rest).drop (before.length + 1) = rest := by
    rw [List.drop_length_add_append]
    rfl
  show matchAhead bracket.opening bracket.closing 0 (before.length + 1)
    ((before ++ a :: rest).drop (before.length + 1)) = _
  rw [hdrop, matchAhead_eq_partner]

theorem matchingBracket_behind_eq :
    matchingBracket (before ++ rest) before.length bracket false =
      (partner bracket.closing bracket.opening 0 before.reverse).map (before.length - 1 - ·) := by
  show matchBehind bracket.opening bracket.closing (before ++ rest) 0 before.length = _
  rw [matchBehind_eq_partner (by rw [List.length_append]; omega), List.take_left]

/-! ### From either end -/

theorem matchingBracket_opening (h : chars[s]? = some bracket.opening) :
    matchingBracket chars s bracket true = some e ↔ BracketPair chars bracket s e := by
  obtain ⟨before, rest, rfl, rfl⟩ := exists_append_cons h
  rw [matchingBracket_ahead_eq, Option.map_eq_some_iff]
  constructor
  · rintro ⟨n, hfound, rfl⟩
    obtain ⟨seg, after, rfl, rfl, hbalanced⟩ :=
      (partner_eq_some_iff bracket.opening_ne_closing).mp hfound
    exact ⟨before, seg, after, rfl, rfl, rfl, hbalanced⟩
  · rintro ⟨before', seg, after, hchars, hlength, rfl, hbalanced⟩
    obtain ⟨rfl, hrest⟩ := List.append_inj hchars hlength.symm
    refine ⟨seg.length, ?_, rfl⟩
    exact (partner_eq_some_iff bracket.opening_ne_closing).mpr
      ⟨seg, after, List.tail_eq_of_cons_eq hrest, rfl, hbalanced⟩

theorem matchingBracket_closing (h : chars[e]? = some bracket.closing) :
    matchingBracket chars e bracket false = some s ↔ BracketPair chars bracket s e := by
  obtain ⟨before, rest, rfl, rfl⟩ := exists_append_cons h
  have hne := bracket.opening_ne_closing
  rw [matchingBracket_behind_eq, Option.map_eq_some_iff]
  constructor
  · rintro ⟨n, hfound, rfl⟩
    obtain ⟨seg, back, hback, rfl, hbalanced⟩ := (partner_eq_some_iff hne.symm).mp hfound
    have hbefore : before = back.reverse ++ bracket.opening :: seg.reverse := by
      rw [← List.reverse_reverse before, hback, List.reverse_append, List.reverse_cons,
        List.append_assoc]
      rfl
    subst hbefore
    refine ⟨back.reverse, seg.reverse, rest, ?_, ?_, ?_, hbalanced.reverse hne.symm⟩
    · rw [List.append_assoc]
      rfl
    · rw [List.length_append, List.length_cons, List.length_reverse, List.length_reverse]
      omega
    · rw [List.length_append, List.length_cons, List.length_reverse, List.length_reverse]
      omega
  · rintro ⟨before', seg, after, hchars, rfl, hlength, hbalanced⟩
    rw [← List.cons_append, ← List.append_assoc] at hchars
    obtain ⟨rfl, -⟩ := List.append_inj hchars (by
      rw [List.length_append, List.length_cons]
      omega)
    refine ⟨seg.length, ?_, ?_⟩
    · refine (partner_eq_some_iff hne.symm).mpr
        ⟨seg.reverse, before'.reverse, ?_, List.length_reverse, hbalanced.reverse hne⟩
      rw [List.reverse_append, List.reverse_cons, List.append_assoc]
      rfl
    · rw [List.length_append, List.length_cons]
      omega

theorem BracketPair.at_opening (h : BracketPair chars bracket s e) :
    chars[s]? = some bracket.opening := by
  obtain ⟨before, seg, after, rfl, rfl, -, -⟩ := h
  exact getElem?_length_append

theorem BracketPair.at_closing (h : BracketPair chars bracket s e) :
    chars[e]? = some bracket.closing := by
  obtain ⟨before, seg, after, rfl, rfl, rfl, -⟩ := h
  have hlength : before.length + 1 + seg.length = (before ++ bracket.opening :: seg).length := by
    rw [List.length_append, List.length_cons]
    omega
  rw [hlength, ← List.cons_append, ← List.append_assoc]
  exact getElem?_length_append

theorem aBlock_of_bracket {opens : Bool}
    (hat : chars[pos]? = some (if opens then bracket.opening else bracket.closing)) :
    aBlock chars pos bracket = (matchingBracket chars pos bracket opens).map fun other =>
      if other > pos then ⟨pos, other + 1⟩ else ⟨other, pos + 1⟩ := by
  unfold aBlock
  rw [hat]
  simp only [Option.bind_eq_bind, Option.bind_some, Bracket.of_eq_some_iff.mpr rfl,
    Option.map_eq_bind, if_true]
  rfl

/-! ### Off the brackets -/

/-- Off the brackets, the search behind starts, in effect, at the position: what lies between it
and the bracket found ahead is balanced. -/
theorem aBlock_eq_partners (hopening : a ≠ bracket.opening) (hclosing : a ≠ bracket.closing) :
    aBlock (before ++ a :: rest) before.length bracket =
      (partner bracket.opening bracket.closing 0 rest).bind fun n =>
        (partner bracket.closing bracket.opening 0 before.reverse).map fun m =>
          ⟨before.length - 1 - m, before.length + 1 + n + 1⟩ := by
  have hne := bracket.opening_ne_closing
  have hsearch : aBlock (before ++ a :: rest) before.length bracket =
      (matchingBracket (before ++ a :: rest) before.length bracket true).bind fun stop =>
        (matchingBracket (before ++ a :: rest) stop bracket false).map fun start =>
          ⟨start, stop + 1⟩ := by
    unfold aBlock
    rw [getElem?_length_append]
    cases hof : Bracket.of a with
    | none =>
      simp only [Option.bind_eq_bind, Option.bind_some, hof, Option.map_eq_bind]
      rfl
    | some named =>
      obtain ⟨found, opens⟩ := named
      have hother : found ≠ bracket := by
        rintro rfl
        have ha := Bracket.of_eq_some_iff.mp hof
        cases opens
        · exact hclosing ha
        · exact hopening ha
      simp only [Option.bind_eq_bind, Option.bind_some, hof, if_neg hother, Option.map_eq_bind]
      rfl
  rw [hsearch, matchingBracket_ahead_eq]
  cases hfound : partner bracket.opening bracket.closing 0 rest with
  | none => rfl
  | some n =>
    obtain ⟨seg, after, rfl, rfl, hbalanced⟩ := (partner_eq_some_iff hne).mp hfound
    have hsplit : before ++ a :: (seg ++ bracket.closing :: after) =
        (before ++ a :: seg) ++ bracket.closing :: after := by
      rw [List.append_assoc]
      rfl
    have hlength : before.length + 1 + seg.length = (before ++ a :: seg).length := by
      rw [List.length_append, List.length_cons]
      omega
    have hback : (before ++ a :: seg).reverse = (seg.reverse ++ [a]) ++ before.reverse := by
      rw [List.reverse_append, List.reverse_cons]
    have hpassed : Balanced bracket.closing bracket.opening (seg.reverse ++ [a]) :=
      (hbalanced.reverse hne).append (balanced_singleton hclosing hopening)
    show (matchingBracket _ (before.length + 1 + seg.length) bracket false).map _ =
      (partner bracket.closing bracket.opening 0 before.reverse).map _
    rw [hsplit, hlength, matchingBracket_behind_eq, hback, partner_append_balanced hpassed,
      Option.map_map, Option.map_map]
    congr 1
    funext m
    have hstart : (before ++ a :: seg).length - 1 - (m + (seg.reverse ++ [a]).length) =
        before.length - 1 - m := by
      rw [List.length_append, List.length_append, List.length_reverse, List.length_cons,
        List.length_singleton]
      omega
    show (⟨(before ++ a :: seg).length - 1 - (m + (seg.reverse ++ [a]).length),
      before.length + 1 + seg.length + 1⟩ : Range) = _
    rw [hstart, hlength]

/-- What a block object takes is a pair around the position. -/
theorem encloses_of_aBlock {range : Range} (hopening : a ≠ bracket.opening)
    (hclosing : a ≠ bracket.closing)
    (h : aBlock (before ++ a :: rest) before.length bracket = some range) :
    ∃ s e, range = ⟨s, e + 1⟩ ∧ Encloses (before ++ a :: rest) bracket before.length s e := by
  have hne := bracket.opening_ne_closing
  rw [aBlock_eq_partners hopening hclosing] at h
  obtain ⟨n, hahead, hrange⟩ := Option.bind_eq_some_iff.mp h
  obtain ⟨m, hbehind, rfl⟩ := Option.map_eq_some_iff.mp hrange
  obtain ⟨seg, after, rfl, rfl, hseg⟩ := (partner_eq_some_iff hne).mp hahead
  obtain ⟨seg', back, hback, rfl, hseg'⟩ := (partner_eq_some_iff hne.symm).mp hbehind
  have hbefore : before = back.reverse ++ bracket.opening :: seg'.reverse := by
    rw [← List.reverse_reverse before, hback, List.reverse_append, List.reverse_cons,
      List.append_assoc]
    rfl
  have hlength : before.length = back.length + 1 + seg'.length := by
    rw [hbefore, List.length_append, List.length_cons, List.length_reverse, List.length_reverse]
    omega
  refine ⟨_, _, rfl, ?_, by omega, by omega⟩
  refine ⟨back.reverse, seg'.reverse ++ a :: seg, after, ?_, ?_, ?_, ?_⟩
  · rw [hbefore, List.append_assoc, List.append_assoc]
    rfl
  · rw [List.length_reverse]
    omega
  · rw [List.length_append, List.length_cons, List.length_reverse]
    omega
  · rw [List.append_cons]
    exact ((hseg'.reverse hne.symm).append (balanced_singleton hopening hclosing)).append hseg

/-- A pair around the position has its ends no nearer than the block object's. -/
theorem aBlock_within (hopening : a ≠ bracket.opening) (hclosing : a ≠ bracket.closing)
    (h : Encloses (before ++ a :: rest) bracket before.length s e) :
    ∃ s' e', aBlock (before ++ a :: rest) before.length bracket = some ⟨s', e' + 1⟩ ∧
      s ≤ s' ∧ e' ≤ e := by
  have hne := bracket.opening_ne_closing
  obtain ⟨⟨before', seg, after, hchars, rfl, rfl, hbalanced⟩, hstart, hstop⟩ := h
  -- the position splits what the pair encloses
  have hinside : before.length - (before'.length + 1) < seg.length := by omega
  obtain ⟨b, hb⟩ : ∃ b, seg[before.length - (before'.length + 1)]? = some b :=
    ⟨_, List.getElem?_eq_getElem hinside⟩
  obtain ⟨u, v, rfl, hu⟩ := exists_append_cons hb
  have hmiddle : before ++ a :: rest =
      (before' ++ bracket.opening :: u) ++ b :: (v ++ bracket.closing :: after) := by
    rw [hchars, List.append_assoc, List.append_assoc]
    rfl
  obtain ⟨rfl, hrest⟩ := List.append_inj hmiddle (by
    rw [List.length_append, List.length_cons]
    omega)
  obtain ⟨rfl, rfl⟩ := List.cons.inj hrest
  have hneutral := balanced_singleton hopening hclosing
  have heven := hbalanced.even
  rw [List.append_cons, excess_append, excess_append, hneutral.even, add_zero] at heven
  have hnonneg := hbalanced.holds u (List.prefix_append u _)
  rw [zero_add] at hnonneg
  -- what the pair encloses falls below on neither side, so its ends bound the scans
  have hahead : excess bracket.opening bracket.closing (v ++ [bracket.closing]) < 0 := by
    rw [excess_append, excess_cons, excess_nil, weight_closing hne]
    omega
  have hbehind : excess bracket.closing bracket.opening (u.reverse ++ [bracket.opening]) < 0 := by
    rw [excess_append, excess_reverse, excess_swap hne, excess_cons, excess_nil,
      weight_closing hne.symm]
    omega
  have hback : (before' ++ bracket.opening :: u).reverse =
      (u.reverse ++ [bracket.opening]) ++ before'.reverse := by
    rw [List.reverse_append, List.reverse_cons]
  obtain ⟨n, hn, hfirst⟩ := partner_lt_of_neg
    (l := v ++ bracket.closing :: after) ⟨after, (List.append_cons v _ after).symm⟩ hahead
  obtain ⟨m, hm, hlast⟩ := partner_lt_of_neg ⟨before'.reverse, hback.symm⟩ hbehind
  rw [List.length_append, List.length_singleton] at hn hm
  rw [List.length_reverse] at hm
  have hlength : (before' ++ bracket.opening :: u).length = before'.length + 1 + u.length := by
    rw [List.length_append, List.length_cons]
    omega
  have hseg : (u ++ a :: v).length = u.length + 1 + v.length := by
    rw [List.length_append, List.length_cons]
    omega
  refine ⟨(before' ++ bracket.opening :: u).length - 1 - m,
    (before' ++ bracket.opening :: u).length + 1 + n, ?_, ?_, ?_⟩
  · rw [aBlock_eq_partners hopening hclosing, hfirst, hlast]
    rfl
  · omega
  · omega

/-- Block objects are pairs of matching brackets. The scan from either end of a pair finds the
other end; off the brackets of its kind, a block object exists exactly when a pair encloses the
position, and is then the innermost one. -/
theorem brackets_pair (chars : List Char) (bracket : Bracket) :
    (∀ i j opens, chars[i]? = some (if opens then bracket.opening else bracket.closing) →
      matchingBracket chars i bracket opens = some j →
        matchingBracket chars j bracket (!opens) = some i) ∧
    ∀ pos, (∀ opens, chars[pos]?.bind Bracket.of ≠ some (bracket, opens)) →
      ((aBlock chars pos bracket).isSome ↔ ∃ s e, Encloses chars bracket pos s e) ∧
      ∀ range, aBlock chars pos bracket = some range → ∃ s e, range = ⟨s, e + 1⟩ ∧
        Encloses chars bracket pos s e ∧
        ∀ s' e', Encloses chars bracket pos s' e' → s' ≤ s ∧ e ≤ e' := by
  refine ⟨fun i j opens hi hfound => ?_, fun pos hoff => ?_⟩
  · cases opens with
    | false =>
      have hpair := (matchingBracket_closing hi).mp hfound
      exact (matchingBracket_opening hpair.at_opening).mpr hpair
    | true =>
      have hpair := (matchingBracket_opening hi).mp hfound
      exact (matchingBracket_closing hpair.at_closing).mpr hpair
  cases hat : chars[pos]? with
  | none =>
    have hnone : aBlock chars pos bracket = none := by
      rw [aBlock, hat]
      rfl
    rw [hnone]
    refine ⟨⟨fun h => absurd h Bool.false_ne_true, ?_⟩, fun range h => ?_⟩
    · rintro ⟨s, e, hencloses⟩
      obtain ⟨he, -⟩ := List.getElem?_eq_some_iff.mp hencloses.pair.at_closing
      have hpos := List.getElem?_eq_none_iff.mp hat
      have hstop := hencloses.lt_stop
      omega
    · cases h
  | some a =>
    rw [hat, Option.bind_some] at hoff
    have hopening : a ≠ bracket.opening := fun ha => hoff true (Bracket.of_eq_some_iff.mpr ha)
    have hclosing : a ≠ bracket.closing := fun ha => hoff false (Bracket.of_eq_some_iff.mpr ha)
    obtain ⟨before, rest, rfl, rfl⟩ := exists_append_cons hat
    refine ⟨⟨fun h => ?_, ?_⟩, fun range h => ?_⟩
    · obtain ⟨range, hrange⟩ := Option.isSome_iff_exists.mp h
      obtain ⟨s, e, -, hencloses⟩ := encloses_of_aBlock hopening hclosing hrange
      exact ⟨s, e, hencloses⟩
    · rintro ⟨s, e, hencloses⟩
      obtain ⟨s', e', hblock, -⟩ := aBlock_within hopening hclosing hencloses
      rw [hblock]
      rfl
    · obtain ⟨s, e, rfl, hencloses⟩ := encloses_of_aBlock hopening hclosing h
      refine ⟨s, e, rfl, hencloses, fun s' e' houter => ?_⟩
      obtain ⟨s₂, e₂, hblock, hs, he⟩ := aBlock_within hopening hclosing houter
      rw [h] at hblock
      obtain ⟨rfl, hstop⟩ := Range.mk.inj (Option.some.inj hblock)
      omega

/-- In `(a(b)c]`, the letter `b` is in the inner pair, though the outer bracket has no partner. -/
theorem brackets_pair_inner :
    matchingBracket "(a(b)c]".toList 4 .parenthesis false = some 2 ∧
    ∃ s e, (⟨2, 5⟩ : Range) = ⟨s, e + 1⟩ ∧ Encloses "(a(b)c]".toList .parenthesis 3 s e ∧
      ∀ s' e', Encloses "(a(b)c]".toList .parenthesis 3 s' e' → s' ≤ s ∧ e ≤ e' :=
  ⟨(brackets_pair "(a(b)c]".toList .parenthesis).1 2 4 true (by decide) (by decide),
    ((brackets_pair "(a(b)c]".toList .parenthesis).2 3 (by decide)).2 ⟨2, 5⟩ (by decide)⟩

end Goble.Vim
