/-!
# A JSON codec

What a program sees of a JSON library at one message type: a printer and a parser, each of which
can fail.
-/

namespace Goble

structure SerdeJson (M ε : Type) where
  toVec : M → Except ε (List UInt8)
  fromSlice : List UInt8 → Except ε M

namespace SerdeJson

variable {M ε : Type}

/-- What is printed for `m` parses back to it. -/
def RoundTrips (serde : SerdeJson M ε) (m : M) : Prop :=
  ∃ json, serde.toVec m = .ok json ∧ serde.fromSlice json = .ok m

end SerdeJson

end Goble
