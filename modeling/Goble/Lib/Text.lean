/-!
# Text

What the standard library does with texts: the character classes programs test them with, and
for a text given as its UTF-8 bytes whether the bytes are one, how it is cut at a separator, and
the number it spells.
-/

namespace Goble.Text

/-- Texts are equal when their characters are. -/
instance lawfulBEq : LawfulBEq (List Char) := inferInstance

/-- A character with the Unicode property `White_Space`. -/
def isWhitespace (c : Char) : Bool :=
  (9 ≤ c.toNat && c.toNat ≤ 13) || c.toNat = 0x20 || c.toNat = 0x85 || c.toNat = 0xa0 ||
    c.toNat = 0x1680 || (0x2000 ≤ c.toNat && c.toNat ≤ 0x200a) || c.toNat = 0x2028 ||
    c.toNat = 0x2029 || c.toNat = 0x202f || c.toNat = 0x205f || c.toNat = 0x3000

def trimMatches (p : Char → Bool) (text : List Char) : List Char :=
  ((text.dropWhile p).reverse.dropWhile p).reverse

def trim (text : List Char) : List Char := trimMatches isWhitespace text

def toAsciiLowercase (text : List Char) : List Char := text.map Char.toLower

/-- Only letters change, and they become letters. -/
theorem eq_of_toLower_eq {c d : Char} (hd : d.isLower = false) (h : c.toLower = d) : c = d := by
  subst h
  delta Char.toLower at hd ⊢
  split at hd
  · next hupper =>
    obtain ⟨hleast, hgreatest⟩ := hupper
    have hA : 'A'.val.toNat = 65 := rfl
    have hZ : 'Z'.val.toNat = 90 := rfl
    have ha : 'a'.val.toNat = 97 := rfl
    have hz : 'z'.val.toNat = 122 := rfl
    have hshift : ('a'.val - 'A'.val).toNat = 32 := rfl
    delta Char.isLower at hd
    rw [Bool.and_eq_false_iff, decide_eq_false_iff_not, decide_eq_false_iff_not] at hd
    simp only [ge_iff_le, UInt32.le_iff_toNat_le, UInt32.toNat_add] at hd hleast hgreatest
    omega
  · next hupper => rw [dif_neg hupper]

variable {text : List Char}

theorem notMem_toAsciiLowercase {c : Char} (hc : c.isLower = false) (h : c ∉ text) :
    c ∉ toAsciiLowercase text := by
  intro hmem
  obtain ⟨d, hd, heq⟩ := List.mem_map.mp hmem
  rw [eq_of_toLower_eq hc heq] at hd
  exact h hd

/-- A text is what is left of it between the white space at its ends. -/
theorem exists_trim (text : List Char) : ∃ before after, text = before ++ (trim text ++ after) ∧
    (∀ c ∈ before, isWhitespace c = true) ∧ ∀ c ∈ after, isWhitespace c = true := by
  have hends : ∀ text : List Char, ∃ before, text = before ++ text.dropWhile isWhitespace ∧
      ∀ c ∈ before, isWhitespace c = true := fun text =>
    ⟨text.takeWhile isWhitespace, List.takeWhile_append_dropWhile.symm,
      List.all_eq_true.mp List.all_takeWhile⟩
  obtain ⟨before, hbefore, hspace⟩ := hends text
  obtain ⟨after, hafter, hspace'⟩ := hends (text.dropWhile isWhitespace).reverse
  refine ⟨before, after.reverse, ?_, hspace, fun c hc => hspace' c (List.mem_reverse.mp hc)⟩
  conv => lhs; rw [hbefore, ← List.reverse_reverse (text.dropWhile isWhitespace), hafter]
  rw [List.reverse_append]
  rfl

/-! ### Lines -/

/-- Without the carriage return it ends with; the line is given backwards. -/
def stripCr : List Char → List Char
  | '\r' :: line => line
  | line => line

/-- The lines from here on; `current` is what has been read of the first one, backwards. -/
def linesFrom (current : List Char) : List Char → List (List Char)
  | [] => if current = [] then [] else [current.reverse]
  | c :: text =>
    if c = '\n' then (stripCr current).reverse :: linesFrom [] text
    else linesFrom (c :: current) text

def lines (text : List Char) : List (List Char) := linesFrom [] text

variable {line : List Char}

theorem stripCr_eq_self (h : '\r' ∉ line) : stripCr line = line := by
  cases line with
  | nil => rfl
  | cons c line =>
    rw [stripCr]
    rintro _ ⟨rfl, -⟩
    exact h List.mem_cons_self

theorem linesFrom_append (line current rest : List Char) (h : '\n' ∉ line) :
    linesFrom current (line ++ '\n' :: rest) =
      (stripCr (line.reverse ++ current)).reverse :: linesFrom [] rest := by
  induction line generalizing current with
  | nil => rfl
  | cons c line ih =>
    have hc : c ≠ '\n' := fun heq => h (heq ▸ List.mem_cons_self)
    rw [List.cons_append, linesFrom, if_neg hc, ih (c :: current) (fun hmem =>
      h (List.mem_cons_of_mem c hmem)), List.reverse_cons, List.append_assoc, List.singleton_append]

theorem lines_append (rest : List Char) (hnl : '\n' ∉ line) (hcr : '\r' ∉ line) :
    lines (line ++ '\n' :: rest) = line :: lines rest := by
  rw [lines, linesFrom_append line [] rest hnl, List.append_nil,
    stripCr_eq_self fun hmem => hcr (List.mem_reverse.mp hmem), List.reverse_reverse]
  rfl

/-- The text that spells these lines out. -/
def unlines (raw : List (List Char)) : List Char := raw.flatMap (· ++ ['\n'])

theorem lines_unlines {raw : List (List Char)} (hnl : ∀ line ∈ raw, '\n' ∉ line)
    (hcr : ∀ line ∈ raw, '\r' ∉ line) : lines (unlines raw) = raw := by
  induction raw with
  | nil => rfl
  | cons line raw ih =>
    have hrest := ih (fun other hother => hnl other (List.mem_cons_of_mem line hother))
      fun other hother => hcr other (List.mem_cons_of_mem line hother)
    rw [unlines, List.flatMap_cons, List.append_assoc, List.singleton_append,
      lines_append _ (hnl line List.mem_cons_self) (hcr line List.mem_cons_self)]
    exact congrArg (line :: ·) hrest

theorem mem_linesFrom {current : List Char} (hcurrent : '\n' ∉ current)
    (h : line ∈ linesFrom current text) :
    '\n' ∉ line ∧ ∀ c ∈ line, c ∈ current ∨ c ∈ text := by
  induction text generalizing current with
  | nil =>
    rw [linesFrom] at h
    split at h
    · cases h
    · obtain rfl := List.mem_singleton.mp h
      exact ⟨fun hmem => hcurrent (List.mem_reverse.mp hmem),
        fun c hc => .inl (List.mem_reverse.mp hc)⟩
  | cons c text ih =>
    rw [linesFrom] at h
    split at h
    next =>
      obtain rfl | h := List.mem_cons.mp h
      · have hsub : ∀ c, c ∈ (stripCr current).reverse → c ∈ current := by
          intro c hc
          rw [List.mem_reverse, stripCr.eq_def] at hc
          split at hc
          · exact List.mem_cons_of_mem _ hc
          · exact hc
        exact ⟨fun hmem => hcurrent (hsub _ hmem), fun c hc => .inl (hsub c hc)⟩
      · obtain ⟨hnl, hsub⟩ := ih (List.not_mem_nil) h
        exact ⟨hnl, fun d hd => .inr ((hsub d hd).elim (fun hnil => by cases hnil)
          (List.mem_cons_of_mem c))⟩
    next hne =>
      have hcurrent' : '\n' ∉ c :: current := fun hmem =>
        (List.mem_cons.mp hmem).elim (fun heq => hne heq.symm) hcurrent
      obtain ⟨hnl, hsub⟩ := ih hcurrent' h
      refine ⟨hnl, fun d hd => ?_⟩
      obtain hd | hd := hsub d hd
      · obtain rfl | hd := List.mem_cons.mp hd
        · exact .inr List.mem_cons_self
        · exact .inl hd
      · exact .inr (List.mem_cons_of_mem c hd)

theorem mem_lines (h : line ∈ lines text) :
    '\n' ∉ line ∧ ∀ c ∈ line, c ∈ text := by
  obtain ⟨hnl, hsub⟩ := mem_linesFrom List.not_mem_nil h
  exact ⟨hnl, fun c hc => (hsub c hc).elim (fun hnil => by cases hnil) id⟩

/-! ### Tokens -/

/-- The text around the first `marker`: `find`, and the two slices. -/
def cutAt (marker : List Char) : List Char → Option (List Char × List Char)
  | [] => if marker.isEmpty then some ([], []) else none
  | c :: text =>
    if marker.isPrefixOf (c :: text) then some ([], (c :: text).drop marker.length)
    else (cutAt marker text).map fun (before, after) => (c :: before, after)

variable {before : List Char}

/-- A marker that starts with a character that does not come before it. -/
theorem cutAt_append {m : Char} (marker after : List Char) (h : m ∉ before) :
    cutAt (m :: marker) (before ++ m :: marker ++ after) = some (before, after) := by
  induction before with
  | nil =>
    have hmarker : (m :: marker).isPrefixOf (m :: (marker ++ after)) = true := by simp
    rw [List.nil_append, List.cons_append, cutAt, if_pos hmarker, ← List.cons_append,
      List.drop_left]
  | cons c before ih =>
    have hne : (m == c) = false := beq_eq_false_iff_ne.mpr fun heq => h (heq ▸ List.mem_cons_self)
    rw [List.cons_append, List.cons_append, cutAt, List.isPrefixOf, hne, Bool.false_and,
      if_neg Bool.false_ne_true, ih fun hmem => h (List.mem_cons_of_mem c hmem)]
    rfl

/-- The text around the first of a character: `split_once`. -/
theorem cutAt_singleton_eq_some {m : Char} {after : List Char} :
    cutAt [m] text = some (before, after) ↔ m ∉ before ∧ text = before ++ m :: after := by
  constructor
  · intro h
    induction text generalizing before with
    | nil => cases h
    | cons c text ih =>
      rw [cutAt] at h
      split at h
      · next hpre =>
        obtain rfl : m = c := by simpa [List.isPrefixOf] using hpre
        obtain ⟨rfl, rfl⟩ := Prod.mk.inj (Option.some.inj h)
        exact ⟨List.not_mem_nil, rfl⟩
      · next hpre =>
        have hne : m ≠ c := by simpa [List.isPrefixOf] using hpre
        obtain ⟨⟨start, rest⟩, hcut, heq⟩ := Option.map_eq_some_iff.mp h
        obtain ⟨rfl, rfl⟩ := Prod.mk.inj heq
        obtain ⟨hmem, rfl⟩ := ih hcut
        exact ⟨fun hcons => (List.mem_cons.mp hcons).elim hne hmem, rfl⟩
  · rintro ⟨hmem, rfl⟩
    have hcut := cutAt_append [] after hmem
    rwa [List.append_assoc] at hcut

theorem cutAt_eq_some {marker after : List Char} (h : cutAt marker text = some (before, after)) :
    text = before ++ (marker ++ after) := by
  induction text generalizing before with
  | nil =>
    rw [cutAt] at h
    split at h
    · next hempty =>
      obtain ⟨rfl, rfl⟩ := Prod.mk.inj (Option.some.inj h)
      rw [List.isEmpty_iff.mp hempty]
      rfl
    · cases h
  | cons c text ih =>
    rw [cutAt] at h
    split at h
    · next hprefix =>
      obtain ⟨rfl, rfl⟩ := Prod.mk.inj (Option.some.inj h)
      obtain ⟨after, heq⟩ := List.isPrefixOf_iff_prefix.mp hprefix
      rw [← heq, List.drop_left, List.nil_append]
    · obtain ⟨⟨start, rest⟩, hcut, heq⟩ := Option.map_eq_some_iff.mp h
      obtain ⟨rfl, rfl⟩ := Prod.mk.inj heq
      rw [ih hcut]
      rfl

/-- A marker that stands in the text is found there or before. -/
theorem exists_cutAt (marker before after : List Char) :
    ∃ start rest, cutAt marker (before ++ (marker ++ after)) = some (start, rest ++ after) := by
  induction before with
  | nil =>
    cases hmarker : marker with
    | nil =>
      cases after with
      | nil => exact ⟨[], [], rfl⟩
      | cons c after => exact ⟨[], [], rfl⟩
    | cons c marker =>
      have hprefix := List.isPrefixOf_iff_prefix.mpr (List.prefix_append (c :: marker) after)
      refine ⟨[], [], (if_pos hprefix).trans ?_⟩
      exact congrArg (fun rest => some ([], rest)) (@List.drop_left _ (c :: marker) after)
  | cons c before ih =>
    obtain ⟨start, rest, hcut⟩ := ih
    rw [List.cons_append, cutAt, hcut]
    split
    · next hprefix =>
      have hlength := (List.isPrefixOf_iff_prefix.mp hprefix).length_le
      refine ⟨[], ((c :: (before ++ marker)).drop marker.length), ?_⟩
      rw [← List.append_assoc, ← List.cons_append, List.drop_append_of_le_length (by simp; omega)]
    · exact ⟨c :: start, rest, rfl⟩

/-- What follows does not change where the first marker is. -/
theorem cutAt_append_of_some {marker after : List Char} (rest : List Char)
    (h : cutAt marker text = some (before, after)) :
    cutAt marker (text ++ rest) = some (before, after ++ rest) := by
  induction text generalizing before with
  | nil =>
    rw [cutAt] at h
    split at h
    · next hempty =>
      obtain ⟨rfl, rfl⟩ := Prod.mk.inj (Option.some.inj h)
      obtain rfl := List.isEmpty_iff.mp hempty
      cases rest with
      | nil => rfl
      | cons c rest => rfl
    · cases h
  | cons c text ih =>
    rw [cutAt] at h
    rw [List.cons_append, cutAt]
    split at h
    · next hlead =>
      obtain ⟨rfl, rfl⟩ := Prod.mk.inj (Option.some.inj h)
      have hlead := List.isPrefixOf_iff_prefix.mp hlead
      rw [← List.cons_append, List.drop_append_of_le_length hlead.length_le]
      exact if_pos (List.isPrefixOf_iff_prefix.mpr (hlead.trans (List.prefix_append _ rest)))
    · next hlead =>
      obtain ⟨⟨start, tail⟩, hcut, heq⟩ := Option.map_eq_some_iff.mp h
      obtain ⟨rfl, rfl⟩ := Prod.mk.inj heq
      rw [ih hcut]
      split
      · next hlead' =>
        -- the marker does not end in `rest`: it stands in `text` already
        exfalso
        obtain ⟨more, heq⟩ := List.isPrefixOf_iff_prefix.mp hlead'
        have hlength : marker.length ≤ (c :: text).length := by
          have := congrArg List.length (cutAt_eq_some hcut)
          simp only [List.length_append, List.length_cons] at this ⊢
          omega
        refine hlead (List.isPrefixOf_iff_prefix.mpr ?_)
        exact List.prefix_of_prefix_length_le ⟨more, heq⟩ (List.prefix_append _ rest) hlength
      · rfl

theorem cutAt_append_of_none {marker rest : List Char} (h : cutAt marker text = none)
    (hrest : ∀ c ∈ rest.head?, c ∉ marker) :
    cutAt marker (text ++ rest) =
      (cutAt marker rest).map fun (before, after) => (text ++ before, after) := by
  induction text with
  | nil => exact Option.map_id'.symm
  | cons c text ih =>
    rw [cutAt] at h
    split at h
    · cases h
    · next hprefix =>
      rw [List.cons_append, cutAt, ih (Option.map_eq_none_iff.mp h), Option.map_map]
      split
      · next hprefix' =>
        exfalso
        obtain ⟨more, heq⟩ := List.isPrefixOf_iff_prefix.mp hprefix'
        obtain hle | hlt := Nat.lt_or_ge (c :: text).length marker.length |>.symm
        · exact hprefix (List.isPrefixOf_iff_prefix.mpr
            (List.prefix_of_prefix_length_le ⟨more, heq⟩ (List.prefix_append _ rest) hle))
        · -- the marker goes on in `rest`, and has its first character
          obtain ⟨tail, rfl⟩ : (c :: text) <+: marker :=
            List.prefix_of_prefix_length_le (List.prefix_append _ rest) ⟨more, heq⟩
              (Nat.le_of_lt hlt)
          rw [← List.cons_append, List.append_assoc, List.append_cancel_left_eq] at heq
          cases tail with
          | nil => simp at hlt
          | cons d tail =>
            refine hrest d ?_ (List.mem_append_right _ List.mem_cons_self)
            rw [← heq]
            rfl
      · rfl

def splitWhitespace (text : List Char) : List (List Char) :=
  (text.splitOnP isWhitespace).filter fun token => !token.isEmpty

def parseNat (bound : Nat) (text : List Char) : Option Nat :=
  let digits := match text with
    | '+' :: digits => digits
    | digits => digits
  if !digits.isEmpty && digits.all Char.isDigit && Nat.ofDigitChars 10 digits 0 < bound then
    some (Nat.ofDigitChars 10 digits 0)
  else none

theorem isDigit_of_mem_toDigits {n : Nat} {c : Char} (h : c ∈ Nat.toDigits 10 n) :
    c.isDigit = true :=
  Nat.isDigit_of_mem_toDigits (by decide) (by decide) h

theorem isWhitespace_of_isDigit {c : Char} (h : c.isDigit = true) : isWhitespace c = false := by
  obtain ⟨hleast, hgreatest⟩ := Char.isDigit_iff_toNat.mp h
  have hzero : '0'.toNat = 48 := rfl
  have hnine : '9'.toNat = 57 := rfl
  simp only [isWhitespace, Bool.or_eq_false_iff, Bool.and_eq_false_iff, decide_eq_false_iff_not]
  omega

theorem trim_eq_self (h : ∀ c ∈ text, isWhitespace c = false) :
    trim text = text := by
  have hdrop : ∀ text : List Char, (∀ c ∈ text, isWhitespace c = false) →
      text.dropWhile isWhitespace = text := by
    intro text h
    cases text with
    | nil => rfl
    | cons c text => rw [List.dropWhile_cons_of_neg (by simp [h c List.mem_cons_self])]
  rw [trim, trimMatches, hdrop text h,
    hdrop text.reverse fun c hc => h c (List.mem_reverse.mp hc), List.reverse_reverse]

theorem trim_toDigits (n : Nat) : trim (Nat.toDigits 10 n) = Nat.toDigits 10 n :=
  trim_eq_self fun _ hc => isWhitespace_of_isDigit (isDigit_of_mem_toDigits hc)

/-- A number that is printed is read back. -/
theorem parseNat_toDigits {bound n : Nat} (h : n < bound) :
    parseNat bound (Nat.toDigits 10 n) = some n := by
  have hplus : ∀ digits, Nat.toDigits 10 n ≠ '+' :: digits := fun digits heq => by
    have hdigit := isDigit_of_mem_toDigits (n := n) (c := '+') (heq ▸ List.mem_cons_self)
    cases hdigit
  have hall : (Nat.toDigits 10 n).all Char.isDigit = true :=
    List.all_eq_true.mpr fun c hc => isDigit_of_mem_toDigits hc
  have hempty : (Nat.toDigits 10 n).isEmpty = false := by simp [Nat.toDigits_ne_nil]
  unfold parseNat
  split
  next digits heq => exact absurd heq (hplus digits)
  next digits =>
    simp only [hall, hempty, Nat.ofDigitChars_toDigits (by decide : 1 < 10) (Nat.le_refl 10), h]
    rfl

/-! ### Bytes -/

/-- The continuation bytes a character still wants, and the bounds of the next one. -/
structure Owed where
  count : Nat
  least : UInt8
  greatest : UInt8
deriving DecidableEq, Repr

/-- Between two characters. -/
def Owed.none : Owed := ⟨0, 0x80, 0xbf⟩

/-- One byte of a UTF-8 text; overlong forms, surrogates and what is past the last character are
refused at the byte that rules them out. -/
def utf8Step (owed : Owed) (byte : UInt8) : Option Owed :=
  match owed.count with
  | count + 1 =>
    if owed.least ≤ byte ∧ byte ≤ owed.greatest then some ⟨count, 0x80, 0xbf⟩ else Option.none
  | 0 =>
    if byte < 0x80 then some .none
    else if byte < 0xc2 then Option.none
    else if byte < 0xe0 then some ⟨1, 0x80, 0xbf⟩
    else if byte = 0xe0 then some ⟨2, 0xa0, 0xbf⟩
    else if byte = 0xed then some ⟨2, 0x80, 0x9f⟩
    else if byte < 0xf0 then some ⟨2, 0x80, 0xbf⟩
    else if byte = 0xf0 then some ⟨3, 0x90, 0xbf⟩
    else if byte < 0xf4 then some ⟨3, 0x80, 0xbf⟩
    else if byte = 0xf4 then some ⟨3, 0x80, 0x8f⟩
    else Option.none

/-- `str::from_utf8(bytes).is_ok()` -/
def isUtf8 (bytes : List UInt8) : Bool :=
  (bytes.foldlM utf8Step .none).any (·.count = 0)

def split (separator : UInt8) : List UInt8 → List (List UInt8)
  | [] => [[]]
  | byte :: bytes =>
    match split separator bytes with
    | [] => [[]]
    | part :: parts => if byte = separator then [] :: part :: parts else (byte :: part) :: parts

def splitOnce (separator : UInt8) : List UInt8 → Option (List UInt8 × List UInt8)
  | [] => none
  | byte :: bytes =>
    if byte = separator then some ([], bytes)
    else (splitOnce separator bytes).map fun (before, after) => (byte :: before, after)

theorem splitOnce_eq_some {separator : UInt8} {text before after : List UInt8}
    (h : splitOnce separator text = some (before, after)) :
    text = before ++ separator :: after := by
  induction text generalizing before with
  | nil => cases h
  | cons byte text ih =>
    rw [splitOnce] at h
    split at h
    · next hbyte =>
      obtain ⟨rfl, rfl⟩ := Prod.mk.inj (Option.some.inj h)
      rw [hbyte]
      rfl
    · obtain ⟨⟨before', after'⟩, hsplit, heq⟩ := Option.map_eq_some_iff.mp h
      obtain ⟨rfl, rfl⟩ := Prod.mk.inj heq
      rw [ih hsplit]
      rfl

theorem splitOnce_append {separator : UInt8} {before : List UInt8} (after : List UInt8)
    (h : ∀ byte ∈ before, byte ≠ separator) :
    splitOnce separator (before ++ separator :: after) = some (before, after) := by
  induction before with
  | nil => exact if_pos rfl
  | cons byte before ih =>
    rw [List.cons_append, splitOnce, if_neg (h byte List.mem_cons_self),
      ih fun b hb => h b (List.mem_cons_of_mem _ hb)]
    rfl

def isAsciiDigit (byte : UInt8) : Bool := 0x30 ≤ byte && byte ≤ 0x39

/-- The number some digits spell, unless it reaches the bound. -/
def digitsValue (bound : Nat) (digits : List UInt8) : Option Nat :=
  digits.foldlM (fun value byte =>
    if isAsciiDigit byte ∧ value * 10 + (byte.toNat - 0x30) < bound then
      some (value * 10 + (byte.toNat - 0x30))
    else none) 0

def parseUnsigned (bound : Nat) (text : List UInt8) : Option Nat :=
  match text with
  | [] => none
  | [0x2b] => none
  | 0x2b :: digits => digitsValue bound digits
  | digits => digitsValue bound digits

end Goble.Text
