/-!
# Hexadecimal text

Bytes as two lower-case hexadecimal digits each, as ASCII text. Decoding accepts digits of
either case, two for each byte.
-/

namespace Goble.Hex

/-- The ASCII digit of a number below sixteen. -/
def digit (n : Nat) : UInt8 := if n < 10 then UInt8.ofNat (48 + n) else UInt8.ofNat (87 + n)

def value (c : UInt8) : Option Nat :=
  if 48 ≤ c ∧ c ≤ 57 then some (c.toNat - 48)
  else if 97 ≤ c ∧ c ≤ 102 then some (c.toNat - 87)
  else if 65 ≤ c ∧ c ≤ 70 then some (c.toNat - 55)
  else none

def encode : List UInt8 → List UInt8
  | [] => []
  | b :: bs => digit (b.toNat / 16) :: digit (b.toNat % 16) :: encode bs

/-- No bytes, if the text is of odd length or has another character than a digit in it. -/
def decode : List UInt8 → Option (List UInt8)
  | [] => some []
  | [_] => none
  | c :: c' :: cs =>
    match value c, value c', decode cs with
    | some n, some n', some bs => some (UInt8.ofNat (16 * n + n') :: bs)
    | _, _, _ => none

theorem value_digit : ∀ n < 16, value (digit n) = some n := by decide

theorem lt_digit : ∀ n < 16, 47 < digit n := by decide

/-- **Round trip.** -/
theorem decode_encode (bs : List UInt8) : decode (encode bs) = some bs := by
  induction bs with
  | nil => rfl
  | cons b bs ih =>
    have hb := b.toNat_lt
    have hbyte : UInt8.ofNat (16 * (b.toNat / 16) + b.toNat % 16) = b := by
      rw [Nat.div_add_mod, UInt8.ofNat_toNat]
    simp only [encode, decode, value_digit (b.toNat / 16) (by omega),
      value_digit (b.toNat % 16) (by omega), ih, hbyte]

theorem lt_of_mem_encode {bs : List UInt8} {c : UInt8} (h : c ∈ encode bs) : 47 < c := by
  induction bs with
  | nil => cases h
  | cons b bs ih =>
    have hb := b.toNat_lt
    simp only [encode, List.mem_cons] at h
    rcases h with rfl | rfl | h
    · exact lt_digit _ (by omega)
    · exact lt_digit _ (by omega)
    · exact ih h

end Goble.Hex
