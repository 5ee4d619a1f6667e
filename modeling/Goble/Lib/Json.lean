/-!
# JSON values

A text is read into a value whose objects keep their members as they are written, duplicates
included, since readers differ in what they make of these. A map of members (`get`) has the last of
those with one name, and a structure (`field`) takes no two.
-/

namespace Goble

inductive Json where
  | null
  | bool (value : Bool)
  | int (value : Int)
  /-- A number that is not an integer, as it is written. -/
  | float (text : List Char)
  | str (text : List Char)
  | arr (items : List Json)
  | obj (members : List (List Char × Json))

namespace Json

def asStr : Json → Option (List Char)
  | str text => some text
  | _ => none

def asU16 : Json → Option Nat
  | int value => if 0 ≤ value ∧ value < 65536 then some value.toNat else none
  | _ => none

/-- The member of an object that is read as a map. -/
def get (key : List Char) : Json → Option Json
  | obj members => (members.reverse.find? (·.1 = key)).map Prod.snd
  | _ => none

/-- The member of an object that is read as a structure. -/
def field (key : List Char) (members : List (List Char × Json)) : Option Json :=
  match members.filter (·.1 = key) with
  | [(_, value)] => some value
  | _ => none

end Json

end Goble
