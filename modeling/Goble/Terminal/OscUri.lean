import Goble.Lib.Hex
import Goble.Lib.Utf8

/-!
# The directory in a URI

`OSC 7` carries the working directory as a `file://` URI. A text is given as its UTF-8 bytes: the
scheme and the first slash are ASCII, and the escapes stand for single bytes, of which several make
a character.
-/

namespace Goble.Terminal

def slash : UInt8 := 0x2f

def percent : UInt8 := 0x25

def hexDigit (byte : UInt8) : Option UInt8 :=
  if 0x30 ≤ byte ∧ byte ≤ 0x39 then some (byte - 0x30)
  else if 0x61 ≤ byte ∧ byte ≤ 0x66 then some (byte - 0x61 + 10)
  else if 0x41 ≤ byte ∧ byte ≤ 0x46 then some (byte - 0x41 + 10)
  else none

/-- The loop of `percent_decode`. -/
def unescape : List UInt8 → List UInt8
  | byte :: high :: low :: rest =>
    if byte = percent then
      match hexDigit high, hexDigit low with
      | some h, some l => (h * 16 + l) :: unescape rest
      | _, _ => byte :: unescape (high :: low :: rest)
    else byte :: unescape (high :: low :: rest)
  -- too short for an escape
  | byte :: rest => byte :: unescape rest
  | [] => []

def percentDecode (input : List UInt8) : String := .ofList (Text.lossy (unescape input))

def fileScheme : List UInt8 := [0x66, 0x69, 0x6c, 0x65, 0x3a, 0x2f, 0x2f]

/-- Turn an `OSC 7` value into a filesystem path. The authority is dropped. -/
def pathFromUri (uri : List UInt8) : Option String :=
  if fileScheme.isPrefixOf uri then
    let path := (uri.drop fileScheme.length).dropWhile (· ≠ slash)
    if path = [] then none else some (percentDecode path)
  else none

/-- The text spells the bytes: each stands for itself or is written as `%` and two hexadecimal
digits of either case. What percent-encodes a path does this, whatever it leaves unreserved. -/
inductive Escaped : List UInt8 → List UInt8 → Prop
  | nil : Escaped [] []
  | kept {byte : UInt8} {bytes text : List UInt8} (hkept : byte ≠ percent)
      (htext : Escaped bytes text) : Escaped (byte :: bytes) (byte :: text)
  | escaped {byte high low : UInt8} {h l : Nat} {bytes text : List UInt8}
      (hhigh : Hex.value high = some h) (hlow : Hex.value low = some l)
      (hbyte : byte.toNat = 16 * h + l) (htext : Escaped bytes text) :
      Escaped (byte :: bytes) (percent :: high :: low :: text)

def HasEscape (text : List UInt8) : Prop :=
  ∃ before high low after, text = before ++ percent :: high :: low :: after ∧
    (Hex.value high).isSome ∧ (Hex.value low).isSome

theorem hexDigit_eq (byte : UInt8) : hexDigit byte = (Hex.value byte).map UInt8.ofNat := by
  have hshift : ∀ least more : UInt8, least ≤ byte → byte.toNat - least.toNat + more.toNat < 256 →
      byte - least + more = UInt8.ofNat (byte.toNat - least.toNat + more.toNat) := by
    intro least more hle hlt
    rw [← UInt8.toNat_inj, UInt8.toNat_add, UInt8.toNat_sub_of_le _ _ hle,
      UInt8.toNat_ofNat_of_lt' hlt, Nat.mod_eq_of_lt hlt]
  have hbyte := byte.toNat_lt
  rw [hexDigit, Hex.value]
  split
  · next hrange =>
    have hsub := hshift 0x30 0 hrange.1 (show byte.toNat - 48 + 0 < 256 by omega)
    rw [UInt8.add_zero] at hsub
    rw [hsub]
    rfl
  split
  · next hrange =>
    have hle : 97 ≤ byte.toNat := UInt8.le_iff_toNat_le.mp hrange.1
    rw [hshift 0x61 10 hrange.1 (show byte.toNat - 97 + 10 < 256 by omega)]
    exact congrArg some (congrArg UInt8.ofNat (show byte.toNat - 97 + 10 = byte.toNat - 87 by omega))
  split
  · next hrange =>
    have hle : 65 ≤ byte.toNat := UInt8.le_iff_toNat_le.mp hrange.1
    rw [hshift 0x41 10 hrange.1 (show byte.toNat - 65 + 10 < 256 by omega)]
    exact congrArg some (congrArg UInt8.ofNat (show byte.toNat - 65 + 10 = byte.toNat - 55 by omega))
  · rfl

theorem hexDigit_of_value {byte : UInt8} {n : Nat} (h : Hex.value byte = some n) :
    hexDigit byte = some (UInt8.ofNat n) := by
  rw [hexDigit_eq, h]
  rfl

/-! ### The two laws of the loop -/

theorem unescape_cons {byte : UInt8} (text : List UInt8) (h : byte ≠ percent) :
    unescape (byte :: text) = byte :: unescape text := by
  match text with
  | [] => rfl
  | [_] => rfl
  | high :: low :: rest => rw [unescape, if_neg h]

theorem unescape_of_escaped {bytes text : List UInt8} (h : Escaped bytes text) :
    unescape text = bytes := by
  induction h with
  | nil => rfl
  | kept hkept _ ih => rw [unescape_cons _ hkept, ih]
  | @escaped byte high low h l bytes text hhigh hlow hbyte _ ih =>
    have hvalue : UInt8.ofNat h * 16 + UInt8.ofNat l = byte := by
      rw [← UInt8.ofNat_toNat (x := byte), hbyte, UInt8.ofNat_add, UInt8.ofNat_mul, UInt8.mul_comm]
      rfl
    rw [unescape, if_pos rfl, hexDigit_of_value hhigh, hexDigit_of_value hlow, ih]
    exact congrArg (· :: bytes) hvalue

theorem not_hasEscape_of_cons {byte : UInt8} {text : List UInt8} (h : ¬ HasEscape (byte :: text)) :
    ¬ HasEscape text := by
  rintro ⟨before, high, low, after, rfl, hdigits⟩
  exact h ⟨byte :: before, high, low, after, rfl, hdigits⟩

theorem unescape_of_not_hasEscape {text : List UInt8} (h : ¬ HasEscape text) :
    unescape text = text := by
  fun_induction unescape text with
  | case1 high low rest v w hlow hhigh =>
    -- both digits are valid, so this is an escape
    have hvalue : ∀ {byte value : UInt8}, hexDigit byte = some value → (Hex.value byte).isSome := by
      intro byte value hdigit
      rw [hexDigit_eq, Option.map_eq_some_iff] at hdigit
      obtain ⟨n, hn, -⟩ := hdigit
      rw [hn]
      rfl
    exact absurd ⟨[], high, low, rest, rfl, hvalue hhigh, hvalue hlow⟩ h
  | case2 high low rest _ ih => rw [ih (not_hasEscape_of_cons h)]
  | case3 byte high low rest _ ih => rw [ih (not_hasEscape_of_cons h)]
  | case4 byte rest _ ih => rw [ih (not_hasEscape_of_cons h)]
  | case5 => rfl

/-! ### Paths -/

theorem pathFromUri_authority {host : List UInt8} (path : List UInt8) (hhost : slash ∉ host) :
    pathFromUri (fileScheme ++ host ++ slash :: path) = some (percentDecode (slash :: path)) := by
  have hdrop : (host ++ slash :: path).dropWhile (· ≠ slash) = slash :: path := by
    rw [List.dropWhile_append_of_pos]
    · rfl
    · intro byte hbyte
      refine decide_eq_true ?_
      rintro rfl
      exact hhost hbyte
  have hprefix : fileScheme.isPrefixOf (fileScheme ++ host ++ slash :: path) = true := by
    rw [List.isPrefixOf_iff_prefix, List.append_assoc]
    exact List.prefix_append _ _
  rw [pathFromUri, if_pos hprefix, List.append_assoc, List.drop_left, hdrop]
  exact if_neg (List.cons_ne_nil _ _)

theorem encode_slash (path : List Char) :
    Text.encode ('/' :: path) = slash :: Text.encode path := rfl

/-- **A directory survives its URI.** Whatever the host, a path that begins with the slash after it
and is percent-encoded from there is read back. And a text without an escape is its own decoding. -/
theorem pathFromUri_escaped :
    (∀ (host text : List UInt8) (path : List Char), slash ∉ host →
      Escaped (Text.encode path) text →
        pathFromUri (fileScheme ++ host ++ slash :: text) = some (.ofList ('/' :: path))) ∧
    ∀ text : List Char, ¬ HasEscape (Text.encode text) →
      percentDecode (Text.encode text) = .ofList text := by
  refine ⟨fun host text path hhost htext => ?_, fun text h => ?_⟩
  · have hread := unescape_of_escaped (Escaped.kept (show slash ≠ percent by decide) htext)
    rw [pathFromUri_authority text hhost, percentDecode, hread, ← encode_slash, Text.lossy_encode]
  · rw [percentDecode, unescape_of_not_hasEscape h, Text.lossy_encode]

/-- `file://host/%c3%A9`, and a text that ends in the middle of an escape. -/
theorem pathFromUri_escaped_accent :
    pathFromUri (fileScheme ++ Text.encode "host".toList ++
        slash :: [percent, 0x63, 0x33, percent, 0x41, 0x39]) = some (.ofList "/é".toList) ∧
      percentDecode (Text.encode ['%', '4']) = .ofList ['%', '4'] := by
  refine ⟨pathFromUri_escaped.1 _ _ ['é'] (by decide +kernel) ?_,
    pathFromUri_escaped.2 ['%', '4'] ?_⟩
  · exact .escaped (h := 12) (l := 3) rfl rfl rfl (.escaped (h := 10) (l := 9) rfl rfl rfl .nil)
  · rintro ⟨before, high, low, after, htext, -⟩
    have hlength := congrArg List.length htext
    rw [List.length_append] at hlength
    exact absurd hlength (by simp [Text.encode, String.utf8EncodeChar]; omega)

/-- After `file://host/`, the whole of `/tmp` is read with the slash of the authority before it,
whether its own is escaped or not. -/
theorem pathFromUri_tmp :
    (Escaped (Text.encode "/tmp".toList) (Text.encode "/tmp".toList) ∧
        pathFromUri (Text.encode "file://host//tmp".toList) ≠ some "/tmp") ∧
      Escaped (Text.encode "/tmp".toList) (Text.encode "%2Ftmp".toList) ∧
        pathFromUri (Text.encode "file://host/%2Ftmp".toList) ≠ some "/tmp" := by
  have hrest : Escaped (Text.encode "tmp".toList) (Text.encode "tmp".toList) :=
    .kept (by decide) (.kept (by decide) (.kept (by decide) .nil))
  refine ⟨⟨.kept (by decide) hrest, by decide +kernel⟩, ?_, by decide +kernel⟩
  exact .escaped (h := 2) (l := 15) rfl rfl rfl hrest

end Goble.Terminal
