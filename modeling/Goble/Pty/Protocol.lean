import Goble.Lib.Base64
import Goble.Lib.BufRead
import Goble.Lib.SerdeJson

/-!
# The wire protocol of the PTY daemon

The requests a client sends, the messages the daemon sends back, and the failures of the
framing. `serde_json` is a parameter; `Lawful` is what the framing relies on it for.
-/

namespace Goble.Pty

open BufRead (ErrorKind)

def maxMessageBytes : Nat := 4 * 1024 * 1024

def newline : UInt8 := 10

def carriageReturn : UInt8 := 13

/-- `u8::is_ascii_whitespace` -/
def isAsciiWhitespace (b : UInt8) : Bool :=
  b = 32 || b = 9 || b = 10 || b = 12 || b = 13

/-- Protocol-level failures. `ε` is `serde_json::Error`. -/
inductive ProtocolError (ε : Type) where
  | io (kind : ErrorKind)
  | json (error : ε)
  | base64
  | tooLarge
  | closed
deriving DecidableEq, Repr

/-- What the framing relies on: the printer is compact, so it prints no control characters and
more than blanks, and the parser reads back what was printed. -/
structure Lawful {M ε : Type} (serde : SerdeJson M ε) : Prop where
  no_newline : ∀ {m bs}, serde.toVec m = .ok bs → newline ∉ bs
  no_carriageReturn : ∀ {m bs}, serde.toVec m = .ok bs → carriageReturn ∉ bs
  not_blank : ∀ {m bs}, serde.toVec m = .ok bs → bs.all isAsciiWhitespace = false
  round_trip : ∀ {m bs}, serde.toVec m = .ok bs → serde.fromSlice bs = .ok m

/-! ### Messages -/

/-- Requests a client sends. Each variant carries its request `id`. -/
inductive Request where
  | hello (id : Nat) (clientId : String)
  | list (id : Nat)
  | create (id : Nat) (paneId cwd : String) (cols rows : UInt16) (shell : Option String)
    (args : List String) (env : List (String × String))
  | attach (id : Nat) (sessionId : String) (fromSeq : Nat)
  | detach (id : Nat) (sessionId : String)
  | input (id : Nat) (sessionId bytesB64 : String)
  | resize (id : Nat) (sessionId : String) (cols rows pixelWidth pixelHeight : UInt16)
  | kill (id : Nat) (sessionId : String)
  | signal (id : Nat) (sessionId signal : String)
deriving DecidableEq, Repr

structure SessionInfo where
  sessionId : String
  paneId : String
  alive : Bool
  cols : UInt16
  rows : UInt16
deriving DecidableEq, Repr

/-- Responses and events the daemon sends. -/
inductive ServerMessage where
  | ok (id : Nat) (session : Option SessionInfo)
  | sessions (id : Nat) (sessions : List SessionInfo)
  | error (id : Option Nat) (message : String)
  | session (info : SessionInfo)
  | output (sessionId : String) (seq : Nat) (bytesB64 : String)
  | exit (sessionId : String) (code : Int32)
deriving DecidableEq, Repr

def ServerMessage.ofOutput (sessionId : String) (seq : Nat) (bytes : List UInt8) :
    ServerMessage :=
  .output sessionId seq (Base64.encode bytes)

end Goble.Pty
