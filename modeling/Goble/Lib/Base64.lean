/-!
# Base64 text

The standard alphabet with padding. Three bytes are four digits of six bits; one or two bytes at
the end are two or three digits and padding. Decoding is strict: it wants the padding, and the
bits that padding leaves over to be zero, so that it is the inverse of encoding both ways
(`decode_encode`, `digits_of_ofDigits`). The URL-safe text has two other digits and no padding
(`ofUrlDigits_urlDigits`).
-/

namespace Goble.Base64

/-- The digit of a number below sixty-four. -/
def digit (n : Nat) : Char :=
  if n < 26 then Char.ofNat (65 + n)
  else if n < 52 then Char.ofNat (71 + n)
  else if n < 62 then Char.ofNat (n - 4)
  else if n = 62 then '+'
  else '/'

def value (c : Char) : Option Nat :=
  if 'A' ≤ c ∧ c ≤ 'Z' then some (c.toNat - 65)
  else if 'a' ≤ c ∧ c ≤ 'z' then some (c.toNat - 71)
  else if '0' ≤ c ∧ c ≤ '9' then some (c.toNat + 4)
  else if c = '+' then some 62
  else if c = '/' then some 63
  else none

def digits : List UInt8 → List Char
  | [] => []
  | [a] => [digit (a.toNat / 4), digit (a.toNat % 4 * 16), '=', '=']
  | [a, b] =>
    [digit (a.toNat / 4), digit (a.toNat % 4 * 16 + b.toNat / 16), digit (b.toNat % 16 * 4), '=']
  | a :: b :: c :: rest =>
    digit (a.toNat / 4) :: digit (a.toNat % 4 * 16 + b.toNat / 16) ::
      digit (b.toNat % 16 * 4 + c.toNat / 64) :: digit (c.toNat % 64) :: digits rest

def ofDigits : List Char → Option (List UInt8)
  | [] => some []
  | p :: q :: r :: s :: rest =>
    match value p, value q, value r, value s with
    | some w, some x, some y, some z =>
      (ofDigits rest).map fun bytes => UInt8.ofNat (w * 4 + x / 16) ::
        UInt8.ofNat (x % 16 * 16 + y / 4) :: UInt8.ofNat (y % 4 * 64 + z) :: bytes
    | some w, some x, some y, none =>
      if s = '=' ∧ rest = [] ∧ y % 4 = 0 then
        some [UInt8.ofNat (w * 4 + x / 16), UInt8.ofNat (x % 16 * 16 + y / 4)]
      else none
    | some w, some x, none, none =>
      if r = '=' ∧ s = '=' ∧ rest = [] ∧ x % 16 = 0 then some [UInt8.ofNat (w * 4 + x / 16)]
      else none
    | _, _, _, _ => none
  | _ => none

def encode (bytes : List UInt8) : String := String.ofList (digits bytes)

def decode (text : String) : Option (List UInt8) := ofDigits text.toList

theorem value_digit : ∀ n < 64, value (digit n) = some n := by decide

theorem value_pad : value '=' = none := by decide

theorem ofDigits_digits (bytes : List UInt8) : ofDigits (digits bytes) = some bytes := by
  induction bytes using digits.induct with
  | case1 => rfl
  | case2 a =>
    have ha := a.toNat_lt
    simp only [digits, ofDigits, value_digit (a.toNat / 4) (by omega),
      value_digit (a.toNat % 4 * 16) (by omega), value_pad, true_and]
    rw [if_pos (by omega), show a.toNat / 4 * 4 + a.toNat % 4 * 16 / 16 = a.toNat by omega,
      UInt8.ofNat_toNat]
  | case3 a b =>
    have ha := a.toNat_lt
    have hb := b.toNat_lt
    simp only [digits, ofDigits, value_digit (a.toNat / 4) (by omega),
      value_digit (a.toNat % 4 * 16 + b.toNat / 16) (by omega),
      value_digit (b.toNat % 16 * 4) (by omega), value_pad, true_and]
    rw [if_pos (by omega),
      show a.toNat / 4 * 4 + (a.toNat % 4 * 16 + b.toNat / 16) / 16 = a.toNat by omega,
      show (a.toNat % 4 * 16 + b.toNat / 16) % 16 * 16 + b.toNat % 16 * 4 / 4 = b.toNat by omega,
      UInt8.ofNat_toNat, UInt8.ofNat_toNat]
  | case4 a b c rest ih =>
    have ha := a.toNat_lt
    have hb := b.toNat_lt
    have hc := c.toNat_lt
    simp only [digits, ofDigits, value_digit (a.toNat / 4) (by omega),
      value_digit (a.toNat % 4 * 16 + b.toNat / 16) (by omega),
      value_digit (b.toNat % 16 * 4 + c.toNat / 64) (by omega),
      value_digit (c.toNat % 64) (by omega), ih, Option.map_some]
    rw [show a.toNat / 4 * 4 + (a.toNat % 4 * 16 + b.toNat / 16) / 16 = a.toNat by omega,
      show (a.toNat % 4 * 16 + b.toNat / 16) % 16 * 16 + (b.toNat % 16 * 4 + c.toNat / 64) / 4 =
        b.toNat by omega,
      show (b.toNat % 16 * 4 + c.toNat / 64) % 4 * 64 + c.toNat % 64 = c.toNat by omega,
      UInt8.ofNat_toNat, UInt8.ofNat_toNat, UInt8.ofNat_toNat]

/-- **Round trip.** -/
theorem decode_encode (bytes : List UInt8) : decode (encode bytes) = some bytes := by
  rw [decode, encode, String.toList_ofList, ofDigits_digits]

/-! ### A text is decoded by one list of bytes only -/

theorem digit_of_value {c : Char} {n : Nat} (h : value c = some n) : n < 64 ∧ digit n = c := by
  have hofNat : ∀ m, m = c.toNat → Char.ofNat m = c := by
    intro m hm
    rw [hm, Char.ofNat_toNat]
  have hle : ∀ d e : Char, d ≤ e → d.toNat ≤ e.toNat := fun _ _ h => h
  rw [value] at h
  split at h
  · next hc =>
    have h₁ := hle _ _ hc.1
    have h₂ := hle _ _ hc.2
    simp only [Char.reduceToNat] at h₁ h₂
    obtain rfl := Option.some.inj h
    rw [digit, if_pos (by omega)]
    exact ⟨by omega, hofNat _ (by omega)⟩
  split at h
  · next hc =>
    have h₁ := hle _ _ hc.1
    have h₂ := hle _ _ hc.2
    simp only [Char.reduceToNat] at h₁ h₂
    obtain rfl := Option.some.inj h
    rw [digit, if_neg (by omega), if_pos (by omega)]
    exact ⟨by omega, hofNat _ (by omega)⟩
  split at h
  · next hc =>
    have h₁ := hle _ _ hc.1
    have h₂ := hle _ _ hc.2
    simp only [Char.reduceToNat] at h₁ h₂
    obtain rfl := Option.some.inj h
    rw [digit, if_neg (by omega), if_neg (by omega), if_pos (by omega)]
    exact ⟨by omega, hofNat _ (by omega)⟩
  split at h
  · next hc =>
    obtain rfl := Option.some.inj h
    rw [hc]
    decide
  split at h
  · next hc =>
    obtain rfl := Option.some.inj h
    rw [hc]
    decide
  · cases h

theorem digits_of_ofDigits {text : List Char} {bytes : List UInt8}
    (h : ofDigits text = some bytes) : digits bytes = text := by
  have hbyte : ∀ n < 256, (UInt8.ofNat n).toNat = n := fun n hn => by
    rw [UInt8.toNat_ofNat']
    exact Nat.mod_eq_of_lt hn
  fun_induction ofDigits text generalizing bytes with
  | case1 =>
    obtain rfl := Option.some.inj h
    rfl
  | case2 p q r s rest w x y z hz hy hx hw ih =>
    obtain ⟨more, hmore, rfl⟩ := Option.map_eq_some_iff.mp h
    obtain ⟨hw64, hw⟩ := digit_of_value hw
    obtain ⟨hx64, hx⟩ := digit_of_value hx
    obtain ⟨hy64, hy⟩ := digit_of_value hy
    obtain ⟨hz64, hz⟩ := digit_of_value hz
    rw [digits, ih hmore, hbyte _ (by omega), hbyte _ (by omega), hbyte _ (by omega),
      show (w * 4 + x / 16) / 4 = w by omega,
      show (w * 4 + x / 16) % 4 * 16 + (x % 16 * 16 + y / 4) / 16 = x by omega,
      show (x % 16 * 16 + y / 4) % 16 * 4 + (y % 4 * 64 + z) / 64 = y by omega,
      show (y % 4 * 64 + z) % 64 = z by omega, hw, hx, hy, hz]
  | case3 p q r s rest w x y _ hy hx hw hpad =>
    obtain rfl := Option.some.inj h
    obtain ⟨rfl, rfl, hzero⟩ := hpad
    obtain ⟨hw64, hw⟩ := digit_of_value hw
    obtain ⟨hx64, hx⟩ := digit_of_value hx
    obtain ⟨hy64, hy⟩ := digit_of_value hy
    rw [digits, hbyte _ (by omega), hbyte _ (by omega),
      show (w * 4 + x / 16) / 4 = w by omega,
      show (w * 4 + x / 16) % 4 * 16 + (x % 16 * 16 + y / 4) / 16 = x by omega,
      show (x % 16 * 16 + y / 4) % 16 * 4 = y by omega, hw, hx, hy]
  | case4 => cases h
  | case5 p q r s rest w x _ _ hx hw hpad =>
    obtain rfl := Option.some.inj h
    obtain ⟨rfl, rfl, rfl, hzero⟩ := hpad
    obtain ⟨hw64, hw⟩ := digit_of_value hw
    obtain ⟨hx64, hx⟩ := digit_of_value hx
    rw [digits, hbyte _ (by omega), show (w * 4 + x / 16) / 4 = w by omega,
      show (w * 4 + x / 16) % 4 * 16 = x by omega, hw, hx]
  | case6 => cases h
  | case7 => cases h
  | case8 => cases h

/-! ### The URL-safe alphabet, without padding -/

def urlDigit (c : Char) : Char := if c = '+' then '-' else if c = '/' then '_' else c

def ofUrlDigit (c : Char) : Option Char :=
  if c = '-' then some '+'
  else if c = '_' then some '/'
  else if c = '+' ∨ c = '/' ∨ c = '=' then none
  else some c

def urlDigits (bytes : List UInt8) : List Char := ((digits bytes).filter (· ≠ '=')).map urlDigit

/-- Padding for this many digits. -/
def padding (n : Nat) : List Char := List.replicate ((4 - n % 4) % 4) '='

def ofUrlDigits (text : List Char) : Option (List UInt8) :=
  (text.mapM ofUrlDigit).bind fun plain => ofDigits (plain ++ padding plain.length)

theorem digits_eq_padded (bytes : List UInt8) : ∃ ns : List Nat, (∀ n ∈ ns, n < 64) ∧
    digits bytes = ns.map digit ++ padding ns.length := by
  induction bytes using digits.induct with
  | case1 => exact ⟨[], by simp, rfl⟩
  | case2 a =>
    have ha := a.toNat_lt
    refine ⟨[a.toNat / 4, a.toNat % 4 * 16], ?_, rfl⟩
    simp only [List.mem_cons, List.not_mem_nil, or_false, forall_eq_or_imp, forall_eq]
    omega
  | case3 a b =>
    have ha := a.toNat_lt
    have hb := b.toNat_lt
    refine ⟨[a.toNat / 4, a.toNat % 4 * 16 + b.toNat / 16, b.toNat % 16 * 4], ?_, rfl⟩
    simp only [List.mem_cons, List.not_mem_nil, or_false, forall_eq_or_imp, forall_eq]
    omega
  | case4 a b c rest ih =>
    have ha := a.toNat_lt
    have hb := b.toNat_lt
    have hc := c.toNat_lt
    obtain ⟨ns, hns, hdigits⟩ := ih
    refine ⟨a.toNat / 4 :: (a.toNat % 4 * 16 + b.toNat / 16) ::
      (b.toNat % 16 * 4 + c.toNat / 64) :: (c.toNat % 64) :: ns, ?_, ?_⟩
    · simp only [List.mem_cons, forall_eq_or_imp]
      exact ⟨by omega, by omega, by omega, by omega, hns⟩
    · have hpadding : padding (ns.length + 1 + 1 + 1 + 1) = padding ns.length := by
        unfold padding
        rw [show (ns.length + 1 + 1 + 1 + 1) % 4 = ns.length % 4 by omega]
      rw [digits, hdigits]
      simp only [List.map_cons, List.length_cons, hpadding, List.cons_append]

theorem ofUrlDigit_digit : ∀ n < 64, ofUrlDigit (urlDigit (digit n)) = some (digit n) := by decide

theorem digit_ne_pad : ∀ n < 64, digit n ≠ '=' := by decide

/-- **Round trip.** -/
theorem ofUrlDigits_urlDigits (bytes : List UInt8) :
    ofUrlDigits (urlDigits bytes) = some bytes := by
  obtain ⟨ns, hns, hdigits⟩ := digits_eq_padded bytes
  have hplain : (digits bytes).filter (· ≠ '=') = ns.map digit := by
    rw [hdigits, List.filter_append]
    have hfront : (ns.map digit).filter (· ≠ '=') = ns.map digit := by
      refine List.filter_eq_self.mpr fun c hc => ?_
      obtain ⟨n, hn, rfl⟩ := List.mem_map.mp hc
      exact decide_eq_true (digit_ne_pad n (hns n hn))
    have hback : (padding ns.length).filter (· ≠ '=') = [] := by
      refine List.filter_eq_nil_iff.mpr fun c hc => ?_
      rw [(List.mem_replicate.mp hc).2]
      decide
    rw [hfront, hback, List.append_nil]
  have hread : ((ns.map digit).map urlDigit).mapM ofUrlDigit = some (ns.map digit) := by
    clear hdigits hplain
    induction ns with
    | nil => rfl
    | cons n ns ih =>
      have hhead := ofUrlDigit_digit n (hns n List.mem_cons_self)
      have htail := ih fun m hm => hns m (List.mem_cons_of_mem n hm)
      rw [List.map_cons, List.map_cons, List.mapM_cons, hhead, htail]
      rfl
  rw [ofUrlDigits, urlDigits, hplain, hread, Option.bind_some, List.length_map, ← hdigits]
  exact ofDigits_digits bytes

end Goble.Base64
