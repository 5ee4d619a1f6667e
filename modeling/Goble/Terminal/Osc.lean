import Goble.Lib.Transducer

/-!
# In-band `OSC` observation

`OscTap` watches for the working directory and the prompt markers and gives every byte back.
How a completed body decodes is a parameter; nothing here depends on it.
-/

namespace Goble.Terminal

inductive PromptMarker where
  | promptStart
  | commandStart
  | outputStart
  | commandEnd (exitCode : Option Int32)
deriving DecidableEq, Repr

/-- Something the tap observed in the byte stream. -/
inductive OscEvent where
  | workingDirectory (path : String)
  | prompt (marker : PromptMarker)
deriving DecidableEq, Repr

namespace OscTap

def esc : UInt8 := 0x1b

def bel : UInt8 := 0x07

def maxBody : Nat := 8 * 1024

inductive State where
  | ground
  /-- Saw `ESC`; the next byte decides whether this is an `OSC`. -/
  | escape
  /-- Inside an `OSC` body, collecting until `BEL` or `ESC \`. -/
  | body (body : List UInt8) (esc : Bool)
deriving DecidableEq, Repr

end OscTap

/-- Observes `OSC 7` and `OSC 133` in the PTY byte stream. -/
structure OscTap where
  state : OscTap.State
  dropped : Nat
deriving DecidableEq, Repr

namespace OscTap

def new : OscTap := ⟨.ground, 0⟩

variable (decode : List UInt8 → Option OscEvent)

def observe (tap : OscTap) (byte : UInt8) : OscTap × List OscEvent :=
  let abandoned : OscTap := { state := .ground, dropped := tap.dropped + 1 }
  match tap.state with
  | .ground => if byte = esc then ({ tap with state := .escape }, []) else (tap, [])
  | .escape =>
    if byte = 0x5d then ({ tap with state := .body [] false }, [])
    else if byte = esc then (tap, [])
    else ({ tap with state := .ground }, [])
  | .body body true =>
    if byte = 0x5c then ({ tap with state := .ground }, (decode body).toList)
    else if byte = esc then (tap, [])
    else (abandoned, [])
  | .body body false =>
    if byte = bel then ({ tap with state := .ground }, (decode body).toList)
    else if byte = esc then ({ tap with state := .body body true }, [])
    else if maxBody ≤ body.length then (abandoned, [])
    else ({ tap with state := .body (body ++ [byte]) false }, [])

/-- One byte, which is given back whatever it is. -/
def step (st : OscTap × List UInt8) (byte : UInt8) : (OscTap × List UInt8) × List OscEvent :=
  let (tap, passthrough) := st
  let (tap', events) := observe decode tap byte
  ((tap', passthrough ++ [byte]), events)

def tap (st : OscTap × List UInt8) (input : List UInt8) :
    (OscTap × List UInt8) × List OscEvent :=
  Transducer.run (step decode) st input

/-- **Every byte is given back.** -/
theorem tap_passthrough (st : OscTap × List UInt8) (input : List UInt8) :
    (tap decode st input).1.2 = st.2 ++ input := by
  unfold tap
  induction input generalizing st with
  | nil => simp
  | cons byte input ih =>
    rw [Transducer.run_cons, ih, List.append_cons st.2 byte input]
    rfl

end OscTap

end Goble.Terminal
