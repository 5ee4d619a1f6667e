import Mathlib.Data.List.Infix
import Goble.Lib.Hex
import Goble.Lib.SerdeJson
import Goble.Lib.Transducer

/-!
# The shell-integration hook channel

The hook envelope `ESC P $ d <hex(JSON)> ESC \` and `HookTap`, the byte automaton that lifts
envelopes out of the PTY stream. `HookTap.step` is the body of the loop of `tap_ordered`, from
the automaton and the pass-through vector to their next values and the hook it pushed.

`HookTap.scan` says the same in one stream of symbols, bytes released and hooks found, in
stream order. The pass-through and the hooks with their offsets are read off it
(`tapOrdered_eq`), and what is proved of a stream is proved of its symbols (`scan_wire`).
-/

namespace Goble.Terminal

def prefixBytes : List UInt8 := [0x1b, 0x50, 0x24, 0x64]

def stringTerminator : List UInt8 := [0x1b, 0x5c]

def esc : UInt8 := 0x1b

/-- Upper bound on a single hook payload. -/
def maxBody : Nat := 64 * 1024

structure InitShellValue where
  sessionId : Option String := none
  shell : Option String := none
  host : Option String := none
  cwd : Option String := none
  honorPs1 : Option Bool := none
deriving DecidableEq, Repr, Inhabited

structure BootstrappedValue where
  version : Option String := none
deriving DecidableEq, Repr, Inhabited

structure PrecmdValue where
  pwd : Option String := none
  gitBranch : Option String := none
  rprompt : Option String := none
  sessionId : Option String := none
  virtualEnv : Option String := none
  condaEnv : Option String := none
  nodeVersion : Option String := none
  honorPs1 : Option Bool := none
deriving DecidableEq, Repr, Inhabited

structure PreexecValue where
  command : Option String := none
deriving DecidableEq, Repr, Inhabited

structure CommandFinishedValue where
  exitCode : Int32 := 0
  nextBlockId : Option String := none
deriving DecidableEq, Repr, Inhabited

structure InputBufferValue where
  buffer : String := ""
  cursor : Option Nat := none
deriving DecidableEq, Repr, Inhabited

inductive HookEvent where
  | initShell (value : InitShellValue)
  | bootstrapped (value : BootstrappedValue)
  | precmd (value : PrecmdValue)
  | preexec (value : PreexecValue)
  | commandFinished (value : CommandFinishedValue)
  | inputBuffer (value : InputBufferValue)
  | clear
deriving DecidableEq, Repr, Inhabited

/-- A hook that could not be decoded. -/
inductive HookError where
  | badHex
  | badJson (message : String)
  | tooLarge
deriving DecidableEq, Repr

/-- `serde_json` at `HookEvent`; an error is its text. -/
abbrev HookJson := SerdeJson HookEvent String

section Codec

variable (serde : HookJson)

/-- The envelope of a hook; none where the source's `expect` would panic. -/
def encodeHook (event : HookEvent) : Option (List UInt8) :=
  match serde.toVec event with
  | .ok json => some (prefixBytes ++ Hex.encode json ++ stringTerminator)
  | .error _ => none

def decodeHook (body : List UInt8) : Except HookError HookEvent :=
  if maxBody < body.length then .error .tooLarge
  else
    match Hex.decode body with
    | none => .error .badHex
    | some json =>
      match serde.fromSlice json with
      | .ok event => .ok event
      | .error message => .error (.badJson message)

theorem decodeHook_encode {event : HookEvent} {json : List UInt8}
    (hjson : serde.fromSlice json = .ok event) (hlen : (Hex.encode json).length ≤ maxBody) :
    decodeHook serde (Hex.encode json) = .ok event := by
  rw [decodeHook, if_neg (Nat.not_lt_of_le hlen), Hex.decode_encode]
  simp only [hjson]

end Codec

/-! ### The automaton -/

inductive HookTap.State where
  | ground
  /-- Bytes matched against a possible envelope start (the source's `Prefix`). -/
  | prefixed (held : List UInt8)
  /-- Collecting the hex body of a confirmed envelope. -/
  | body (body : List UInt8)
deriving DecidableEq, Repr

/-- Splits the PTY byte stream into hook events and pass-through bytes. -/
structure HookTap where
  state : HookTap.State
  dropped : Nat
deriving DecidableEq, Repr

namespace HookTap

def new : HookTap := ⟨.ground, 0⟩

variable (serde : HookJson)

def step (st : HookTap × List UInt8) (byte : UInt8) :
    (HookTap × List UInt8) × List (Nat × HookEvent) :=
  let (tap, passthrough) := st
  match tap.state with
  | .ground =>
    if byte = esc then (({ tap with state := .prefixed [esc] }, passthrough), [])
    else ((tap, passthrough ++ [byte]), [])
  | .prefixed held =>
    let held := held ++ [byte]
    if !held.isPrefixOf prefixBytes then
      -- not our envelope: release the bytes held back
      (({ tap with state := .ground }, passthrough ++ held), [])
    else if held.length = prefixBytes.length then
      (({ tap with state := .body [] }, passthrough), [])
    else (({ tap with state := .prefixed held }, passthrough), [])
  | .body body =>
    let afterEscape := body.getLast? = some esc
    let body := body ++ [byte]
    if stringTerminator.isSuffixOf body then
      let payload := body.take (body.length - stringTerminator.length)
      match decodeHook serde payload with
      | .ok event => (({ tap with state := .ground }, passthrough), [(passthrough.length, event)])
      | .error _ => (({ state := .ground, dropped := tap.dropped + 1 }, passthrough), [])
    else if afterEscape ∧ byte ≠ 0x5c then
      (({ state := .ground, dropped := tap.dropped + 1 }, passthrough), [])
    else if maxBody < body.length then
      (({ state := .ground, dropped := tap.dropped + 1 }, passthrough), [])
    else (({ tap with state := .body body }, passthrough), [])

/-- `tap_ordered`: the hooks found in `input`, each with the pass-through offset it appeared
at. -/
def tapOrdered (st : HookTap × List UInt8) (input : List UInt8) :
    (HookTap × List UInt8) × List (Nat × HookEvent) :=
  Transducer.run (step serde) st input

end HookTap

/-! ### The stream of symbols -/

/-- What the tap makes of the stream: bytes it releases and hooks it finds. -/
inductive Symbol where
  | byte (b : UInt8)
  | hook (event : HookEvent)
deriving DecidableEq, Repr

def bytesOf : List Symbol → List UInt8
  | [] => []
  | .byte b :: syms => b :: bytesOf syms
  | .hook _ :: syms => bytesOf syms

/-- The hooks found, each with the number of bytes released before it. -/
def hooksFrom : Nat → List Symbol → List (Nat × HookEvent)
  | _, [] => []
  | offset, .byte _ :: syms => hooksFrom (offset + 1) syms
  | offset, .hook event :: syms => (offset, event) :: hooksFrom offset syms

@[simp]
theorem bytesOf_append (xs ys : List Symbol) : bytesOf (xs ++ ys) = bytesOf xs ++ bytesOf ys := by
  induction xs with
  | nil => rfl
  | cons x xs ih => cases x <;> simp [bytesOf, ih]

@[simp]
theorem bytesOf_map_byte (bs : List UInt8) : bytesOf (bs.map .byte) = bs := by
  induction bs with
  | nil => rfl
  | cons b bs ih => simp [bytesOf, ih]

theorem hooksFrom_append (offset : Nat) (xs ys : List Symbol) :
    hooksFrom offset (xs ++ ys) =
      hooksFrom offset xs ++ hooksFrom (offset + (bytesOf xs).length) ys := by
  induction xs generalizing offset with
  | nil => rfl
  | cons x xs ih =>
    cases x with
    | byte b => simp [hooksFrom, bytesOf, ih, Nat.add_assoc, Nat.add_comm 1]
    | hook e => simp [hooksFrom, bytesOf, ih]

@[simp]
theorem hooksFrom_map_byte (offset : Nat) (bs : List UInt8) :
    hooksFrom offset (bs.map .byte) = [] := by
  induction bs generalizing offset with
  | nil => rfl
  | cons b bs ih => simp [hooksFrom, ih]

namespace HookTap

variable (serde : HookJson)

/-- The symbols of one byte. A byte that completes an envelope releases nothing. -/
def scan (tap : HookTap) (byte : UInt8) : HookTap × List Symbol :=
  let ((tap', released), hooks) := step serde (tap, []) byte
  (tap', released.map .byte ++ hooks.map fun hook => .hook hook.2)

theorem step_eq (tap : HookTap) (passthrough : List UInt8) (byte : UInt8) :
    step serde (tap, passthrough) byte =
      (((scan serde tap byte).1, passthrough ++ bytesOf (scan serde tap byte).2),
        hooksFrom passthrough.length (scan serde tap byte).2) := by
  obtain ⟨state, dropped⟩ := tap
  cases state with
  | ground =>
    simp only [scan, step]
    split <;> simp [bytesOf, hooksFrom]
  | prefixed held =>
    simp only [scan, step]
    split
    · simp [bytesOf, hooksFrom, hooksFrom_append]
    · split <;> simp [bytesOf, hooksFrom]
  | body body =>
    simp only [scan, step]
    split
    · split <;> simp [bytesOf, hooksFrom]
    · split
      · simp [bytesOf, hooksFrom]
      · split <;> simp [bytesOf, hooksFrom]

/-- **`tap_ordered` by its symbols.** The pass-through grows by the bytes of the symbols, and
each hook comes with the number of bytes before it. -/
theorem tapOrdered_eq (tap : HookTap) (passthrough input : List UInt8) :
    tapOrdered serde (tap, passthrough) input =
      let (tap', syms) := Transducer.run (scan serde) tap input
      ((tap', passthrough ++ bytesOf syms), hooksFrom passthrough.length syms) := by
  unfold tapOrdered
  induction input generalizing tap passthrough with
  | nil => simp [bytesOf, hooksFrom]
  | cons byte input ih =>
    simp only [Transducer.run_cons, step_eq, ih, bytesOf_append, hooksFrom_append,
      List.append_assoc, List.length_append]

theorem dropped_scan_le (tap : HookTap) (byte : UInt8) :
    tap.dropped ≤ (scan serde tap byte).1.dropped := by
  obtain ⟨state, dropped⟩ := tap
  cases state with
  | ground =>
    simp only [scan, step]
    split <;> exact Nat.le_refl _
  | prefixed held =>
    simp only [scan, step]
    split
    · exact Nat.le_refl _
    · split <;> exact Nat.le_refl _
  | body body =>
    simp only [scan, step]
    split
    · split
      · exact Nat.le_refl _
      · exact Nat.le_succ _
    · split
      · exact Nat.le_succ _
      · split
        · exact Nat.le_succ _
        · exact Nat.le_refl _

theorem dropped_run_le (tap : HookTap) (input : List UInt8) :
    tap.dropped ≤ (Transducer.run (scan serde) tap input).1.dropped := by
  induction input generalizing tap with
  | nil => exact Nat.le_refl _
  | cons byte input ih => exact Nat.le_trans (dropped_scan_le serde tap byte) (ih _)

/-! ### Text -/

/-- Text that cannot be taken for an envelope: it has no envelope start in it and does not end
in the beginning of one. -/
def PlainText (text : List UInt8) : Prop :=
  ¬ prefixBytes <:+: text ∧ ∀ held, held <+: prefixBytes → held ≠ [] → ¬ held <:+ text

instance decidablePlainText (text : List UInt8) : Decidable (PlainText text) :=
  decidable_of_iff (¬ prefixBytes <:+: text ∧ ∀ held ∈ prefixBytes.inits, held ≠ [] →
    ¬ held <:+ text) (by simp only [PlainText, List.mem_inits])

/-- The tap has been fed `text` and released `out` of it: all of it, or all but the beginning of
a possible envelope. -/
inductive Held : HookTap → List UInt8 → List UInt8 → Prop where
  | ground (dropped : Nat) (text : List UInt8) : Held ⟨.ground, dropped⟩ text text
  | prefixed {dropped : Nat} {out held : List UInt8} (hne : held ≠ [])
    (hpre : held <+: prefixBytes) : Held ⟨.prefixed held, dropped⟩ (out ++ held) out

theorem Held.step {tap : HookTap} {text out : List UInt8} {byte : UInt8} (h : Held tap text out)
    (hplain : ¬ prefixBytes <:+: text ++ [byte]) :
    ∃ tap' syms, scan serde tap byte = (tap', syms) ∧ tap'.dropped = tap.dropped ∧
      ∃ more, syms = more.map .byte ∧ Held tap' (text ++ [byte]) (out ++ more) := by
  cases h with
  | ground dropped text =>
    by_cases hesc : byte = esc
    · subst hesc
      refine ⟨⟨.prefixed [esc], dropped⟩, [], by simp [scan, HookTap.step], rfl, [], rfl, ?_⟩
      rw [List.append_nil]
      exact .prefixed (by simp) (by decide)
    · exact ⟨⟨.ground, dropped⟩, [.byte byte], by simp [scan, HookTap.step, hesc], rfl, [byte],
        rfl, .ground dropped _⟩
  | @prefixed dropped out held hne hpre =>
    by_cases hmatch : held ++ [byte] <+: prefixBytes
    · have hlen : (held ++ [byte]).length ≠ prefixBytes.length := fun hlen =>
        hplain ⟨out, [], by simp [← hmatch.eq_of_length hlen]⟩
      refine ⟨⟨.prefixed (held ++ [byte]), dropped⟩, [], ?_, rfl, [], rfl, ?_⟩
      · simp only [scan, HookTap.step, List.isPrefixOf_iff_prefix.mpr hmatch, hlen]
        rfl
      · rw [List.append_nil, List.append_assoc]
        exact .prefixed (by simp) hmatch
    · have hfalse : (held ++ [byte]).isPrefixOf prefixBytes = false :=
        Bool.eq_false_iff.mpr fun h => hmatch (List.isPrefixOf_iff_prefix.mp h)
      refine ⟨⟨.ground, dropped⟩, (held ++ [byte]).map .byte, ?_, rfl, held ++ [byte], rfl, ?_⟩
      · simp [scan, HookTap.step, hfalse]
      · rw [List.append_assoc]
        exact .ground dropped _

theorem Held.run {tap : HookTap} {text out : List UInt8} (h : Held tap text out)
    (more : List UInt8) (hplain : ¬ prefixBytes <:+: text ++ more) :
    ∃ tap' released, Transducer.run (scan serde) tap more = (tap', released.map .byte) ∧
      tap'.dropped = tap.dropped ∧ Held tap' (text ++ more) (out ++ released) := by
  induction more generalizing tap text out with
  | nil => exact ⟨tap, [], rfl, rfl, by simpa using h⟩
  | cons byte more ih =>
    rw [List.append_cons] at hplain ⊢
    have hfirst : ¬ prefixBytes <:+: text ++ [byte] := fun hin =>
      hplain (hin.trans List.infix_append_left)
    obtain ⟨tap₁, syms, hscan, hdrop, bs, rfl, hheld⟩ := h.step serde hfirst
    obtain ⟨tap', released, hrun, hdrop', hheld'⟩ := ih hheld hplain
    refine ⟨tap', bs ++ released, ?_, hdrop'.trans hdrop, by rwa [← List.append_assoc]⟩
    rw [Transducer.run_cons, hscan]
    simp only [hrun, List.map_append]

theorem scan_text {text : List UInt8} (h : PlainText text) (dropped : Nat) :
    Transducer.run (scan serde) ⟨.ground, dropped⟩ text =
      (⟨.ground, dropped⟩, text.map .byte) := by
  obtain ⟨tap', released, hrun, hdrop, hheld⟩ :=
    (Held.ground dropped []).run serde text h.1
  rw [List.nil_append, List.nil_append] at hheld
  cases hheld with
  | ground dropped' =>
    obtain rfl : dropped' = dropped := hdrop
    exact hrun
  | @prefixed _ _ held hne hpre =>
    exact absurd (List.suffix_append released held) (h.2 held hpre hne)

/-! ### Envelopes -/

theorem scan_start (dropped : Nat) :
    Transducer.run (scan serde) ⟨.ground, dropped⟩ prefixBytes = (⟨.body [], dropped⟩, []) := rfl

theorem scan_collect {body : List UInt8} {byte : UInt8} (dropped : Nat) (hesc : esc ∉ body)
    (hbyte : ¬ stringTerminator <:+ body ++ [byte]) (hlen : body.length < maxBody) :
    scan serde ⟨.body body, dropped⟩ byte = (⟨.body (body ++ [byte]), dropped⟩, []) := by
  have hnot : stringTerminator.isSuffixOf (body ++ [byte]) = false :=
    Bool.eq_false_iff.mpr fun h => hbyte (List.isSuffixOf_iff_suffix.mp h)
  have hlast : body.getLast? ≠ some esc := fun hlast => hesc (List.mem_of_getLast? hlast)
  have hfit : ¬ maxBody < (body ++ [byte]).length := by
    rw [List.length_append, List.length_singleton]
    omega
  simp only [scan, step, hnot, hlast, hfit, false_and, if_false, Bool.false_eq_true]
  rfl

theorem scan_body (body : List UInt8) {more : List UInt8} (dropped : Nat)
    (hesc : esc ∉ body ++ more)
    (hlen : (body ++ more).length ≤ maxBody) :
    Transducer.run (scan serde) ⟨.body body, dropped⟩ more =
      (⟨.body (body ++ more), dropped⟩, []) := by
  induction more generalizing body with
  | nil => simp
  | cons byte more ih =>
    have hbody : esc ∉ body := fun h => hesc (by simp [h])
    have hfit : body.length < maxBody := by
      simp only [List.length_append, List.length_cons] at hlen
      omega
    rw [List.append_cons] at hesc hlen ⊢
    have hterm : ¬ stringTerminator <:+ body ++ [byte] := fun h =>
      hesc (List.mem_append_left more (h.subset (by decide)))
    rw [Transducer.run_cons, scan_collect serde dropped hbody hterm hfit, ih _ hesc hlen]
    rfl

theorem scan_terminator {body : List UInt8} (dropped : Nat) (hesc : esc ∉ body)
    (hlen : body.length < maxBody) :
    Transducer.run (scan serde) ⟨.body body, dropped⟩ stringTerminator =
      match decodeHook serde body with
      | .ok event => (⟨.ground, dropped⟩, [.hook event])
      | .error _ => (⟨.ground, dropped + 1⟩, []) := by
  have hterm : ¬ stringTerminator <:+ body ++ [esc] := fun h => by
    have := h.getLast (by decide)
    simp [stringTerminator, esc] at this
  have hfull : stringTerminator.isSuffixOf (body ++ [esc] ++ [0x5c]) = true :=
    List.isSuffixOf_iff_suffix.mpr ⟨body, by simp [stringTerminator, esc]⟩
  have hpayload : (body ++ [esc] ++ [0x5c]).take
      ((body ++ [esc] ++ [0x5c]).length - stringTerminator.length) = body := by
    simp [stringTerminator]
  rw [show stringTerminator = [esc, 0x5c] from rfl, Transducer.run_cons,
    scan_collect serde dropped hesc hterm hlen, Transducer.run_cons]
  simp only [scan, step, hfull, if_true, hpayload]
  cases decodeHook serde body <;> rfl

theorem scan_end {body : List UInt8} (dropped : Nat) {event : HookEvent} (hesc : esc ∉ body)
    (hlen : body.length < maxBody) (hdecode : decodeHook serde body = .ok event) :
    Transducer.run (scan serde) ⟨.body body, dropped⟩ stringTerminator =
      (⟨.ground, dropped⟩, [.hook event]) := by
  rw [scan_terminator serde dropped hesc hlen, hdecode]

end HookTap

/-! ### Streams -/

/-- A piece of the stream: text, or the envelope of a hook. -/
inductive Segment where
  | text (bytes : List UInt8)
  | hook (event : HookEvent)
deriving DecidableEq, Repr

namespace Segment

variable (serde : HookJson)

def wire : List Segment → Option (List UInt8)
  | [] => some []
  | .text bytes :: segs => (wire segs).map (bytes ++ ·)
  | .hook event :: segs => do
    let envelope ← encodeHook serde event
    let rest ← wire segs
    pure (envelope ++ rest)

def WellFormed : Segment → Prop
  | .text bytes => HookTap.PlainText bytes
  | .hook event => ∀ json, serde.toVec event = .ok json → (Hex.encode json).length < maxBody

def texts : List Segment → List UInt8
  | [] => []
  | .text bytes :: segs => bytes ++ texts segs
  | .hook _ :: segs => texts segs

def hooks : Nat → List Segment → List (Nat × HookEvent)
  | _, [] => []
  | offset, .text bytes :: segs => hooks (offset + bytes.length) segs
  | offset, .hook event :: segs => (offset, event) :: hooks offset segs

/-- What the stream is made of, in order. -/
def symbols : List Segment → List Symbol
  | [] => []
  | .text bytes :: segs => bytes.map .byte ++ symbols segs
  | .hook event :: segs => .hook event :: symbols segs

theorem bytesOf_symbols (segs : List Segment) : bytesOf (symbols segs) = texts segs := by
  induction segs with
  | nil => rfl
  | cons seg segs ih => cases seg <;> simp [symbols, texts, bytesOf, ih]

theorem hooksFrom_symbols (offset : Nat) (segs : List Segment) :
    hooksFrom offset (symbols segs) = hooks offset segs := by
  induction segs generalizing offset with
  | nil => rfl
  | cons seg segs ih => cases seg <;> simp [symbols, hooks, hooksFrom, hooksFrom_append, ih]

end Segment

namespace HookTap

variable (serde : HookJson)

/-- **An envelope is lifted out of the stream.** -/
theorem scan_envelope {event : HookEvent} {envelope : List UInt8} (dropped : Nat)
    (henc : encodeHook serde event = some envelope) (hserde : serde.RoundTrips event)
    (hwf : Segment.WellFormed serde (.hook event)) :
    Transducer.run (scan serde) ⟨.ground, dropped⟩ envelope =
      (⟨.ground, dropped⟩, [.hook event]) := by
  obtain ⟨json, hjson, hback⟩ := hserde
  have hlen := hwf json hjson
  have hesc : esc ∉ Hex.encode json := fun h => absurd (Hex.lt_of_mem_encode h) (by decide)
  obtain rfl : prefixBytes ++ Hex.encode json ++ stringTerminator = envelope := by
    simpa [encodeHook, hjson] using henc
  rw [List.append_assoc, Transducer.run_append, scan_start, Transducer.run_append,
    scan_body serde [] dropped hesc (Nat.le_of_lt hlen),
    List.nil_append, scan_end serde dropped hesc hlen
      (decodeHook_encode serde hback (Nat.le_of_lt hlen))]
  rfl

/-- **A stream of text and envelopes is taken apart into its symbols**, with nothing dropped and
nothing held back. -/
theorem scan_wire {segs : List Segment} {bytes : List UInt8} (dropped : Nat)
    (hwire : Segment.wire serde segs = some bytes)
    (hserde : ∀ event, .hook event ∈ segs → serde.RoundTrips event)
    (hwf : ∀ seg ∈ segs, Segment.WellFormed serde seg) :
    Transducer.run (scan serde) ⟨.ground, dropped⟩ bytes =
      (⟨.ground, dropped⟩, Segment.symbols segs) := by
  induction segs generalizing bytes with
  | nil =>
    obtain rfl : [] = bytes := Option.some.inj hwire
    rfl
  | cons seg segs ih =>
    have hserde' : ∀ event, .hook event ∈ segs → serde.RoundTrips event :=
      fun event h => hserde event (List.mem_cons_of_mem _ h)
    have hwf' : ∀ seg ∈ segs, Segment.WellFormed serde seg :=
      fun seg h => hwf seg (List.mem_cons_of_mem _ h)
    cases seg with
    | text text =>
      obtain ⟨rest, hrest, rfl⟩ := Option.map_eq_some_iff.mp hwire
      have htext : PlainText text := hwf _ List.mem_cons_self
      rw [Transducer.run_append, scan_text serde htext, ih hrest hserde' hwf']
      rfl
    | hook event =>
      obtain ⟨envelope, henc, hwire⟩ := Option.bind_eq_some_iff.mp hwire
      obtain ⟨rest, hrest, hbytes⟩ := Option.bind_eq_some_iff.mp hwire
      obtain rfl : envelope ++ rest = bytes := Option.some.inj hbytes
      rw [Transducer.run_append, scan_envelope serde dropped henc
        (hserde event List.mem_cons_self) (hwf _ List.mem_cons_self), ih hrest hserde' hwf']
      rfl

end HookTap

end Goble.Terminal
