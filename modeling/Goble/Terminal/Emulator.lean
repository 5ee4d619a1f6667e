import Goble.Terminal.Block
import Goble.Terminal.Osc

/-!
# The emulator's feed

`Emulator::feed` takes a chunk of PTY output apart and hands the block model the bytes before a
hook, the hook, and the bytes after it. The block model and the screen are parameters
(`Interface`): what is said here is which calls they get, in which order.

`hook_stream_round_trip` is the result for a stream of text and envelopes, however it is cut
into chunks.
-/

namespace Goble.Terminal

structure Interface (B S : Type) where
  feed : B → List UInt8 → B
  apply : B → HookEvent → B × List BlockEvent
  owner : B → BlockId → Option BlockOwner
  associateWithConversation : B → BlockId → String → B
  feedScreen : S → List UInt8 → S
  serde : HookJson
  decodeOsc : List UInt8 → Option OscEvent

/-- The VT state of one pane, as far as `feed` is concerned. -/
structure Emulator (B S : Type) where
  screen : S
  hooks : HookTap
  osc : OscTap
  hookEvents : List HookEvent
  oscEvents : List OscEvent
  blocks : B
  blockEvents : List BlockEvent

namespace Emulator

def new {B S : Type} (blocks : B) (screen : S) : Emulator B S where
  screen
  hooks := .new
  osc := .new
  hookEvents := []
  oscEvents := []
  blocks
  blockEvents := []

variable {B S : Type} (I : Interface B S)

def associateOwner (blocks : B) (id : BlockId) : B :=
  match I.owner blocks id with
  | some (.agent conversationId _) => I.associateWithConversation blocks id conversationId
  | _ => blocks

def associate (blocks : B) : BlockEvent → B
  | .blockStarted id => associateOwner I blocks id
  | _ => blocks

/-- The variables of the loop of `feed`. -/
structure Loop (B S : Type) where
  em : Emulator B S
  passthrough : List UInt8
  cursor : Nat

def Loop.pass (st : Loop B S) (bytes : List UInt8) : Loop B S :=
  let before := st.passthrough.length
  let ((osc, passthrough), events) := OscTap.tap I.decodeOsc (st.em.osc, st.passthrough) bytes
  { st with
    em := { st.em with
      osc
      oscEvents := st.em.oscEvents ++ events
      blocks := I.feed st.em.blocks (passthrough.drop before) }
    passthrough }

def Loop.apply (st : Loop B S) (hook : HookEvent) : Loop B S :=
  let (blocks, events) := I.apply st.em.blocks hook
  { st with
    em := { st.em with
      blocks := events.foldl (associate I) blocks
      hookEvents := st.em.hookEvents ++ [hook]
      blockEvents := st.em.blockEvents ++ events } }

def Loop.hook (staged : List UInt8) (st : Loop B S) (hook : Nat × HookEvent) : Loop B S :=
  let offset := min hook.1 staged.length
  let st :=
    if st.cursor < offset then
      { st.pass I ((staged.take offset).drop st.cursor) with cursor := offset }
    else st
  st.apply I hook.2

/-- The bytes after the last hook. -/
def Loop.rest (staged : List UInt8) (st : Loop B S) : Loop B S :=
  if st.cursor < staged.length then st.pass I (staged.drop st.cursor) else st

/-- Interpret one chunk of pty output. -/
def feed (em : Emulator B S) (bytes : List UInt8) : Emulator B S :=
  let ((hooks, staged), found) := HookTap.tapOrdered I.serde (em.hooks, []) bytes
  let st : Loop B S := found.foldl (Loop.hook I staged) ⟨{ em with hooks }, [], 0⟩
  let st := st.rest I staged
  { st.em with screen := I.feedScreen st.em.screen st.passthrough }

end Emulator

/-! ### The calls of the block model -/

inductive BlockCall where
  | feed (bytes : List UInt8)
  | apply (hook : HookEvent)
deriving DecidableEq, Repr

namespace BlockCall

def run {B S : Type} (I : Interface B S) (blocks : B) : BlockCall → B
  | .feed bytes => I.feed blocks bytes
  | .apply hook =>
    let (blocks, events) := I.apply blocks hook
    events.foldl (Emulator.associate I) blocks

def symbols : List BlockCall → List Symbol
  | [] => []
  | .feed bytes :: calls => bytes.map .byte ++ symbols calls
  | .apply hook :: calls => .hook hook :: symbols calls

theorem symbols_append (xs ys : List BlockCall) :
    symbols (xs ++ ys) = symbols xs ++ symbols ys := by
  induction xs with
  | nil => rfl
  | cons x xs ih => cases x <;> simp [symbols, ih]

def ofChunk (staged : List UInt8) : List (Nat × HookEvent) → Nat → List BlockCall
  | [], cursor => if cursor < staged.length then [.feed (staged.drop cursor)] else []
  | (offset, hook) :: hooks, cursor =>
    let offset := min offset staged.length
    if cursor < offset then
      .feed ((staged.take offset).drop cursor) :: .apply hook :: ofChunk staged hooks offset
    else .apply hook :: ofChunk staged hooks cursor

theorem symbols_ofChunk (done rest : List Symbol) {cursor : Nat}
    (hcursor : cursor ≤ (bytesOf done).length) :
    symbols (ofChunk (bytesOf (done ++ rest)) (hooksFrom (bytesOf done).length rest) cursor) =
      ((bytesOf done).drop cursor).map .byte ++ rest := by
  induction rest generalizing done cursor with
  | nil =>
    rw [List.append_nil, List.append_nil, hooksFrom, ofChunk]
    split
    · simp [symbols]
    · next hge => simp [symbols, List.drop_of_length_le (Nat.le_of_not_lt hge)]
  | cons sym rest ih =>
    rw [List.append_cons done]
    cases sym with
    | byte b =>
      have hlen : (bytesOf (done ++ [.byte b])).length = (bytesOf done).length + 1 := by
        simp [bytesOf]
      rw [hooksFrom, ← hlen, ih _ (by omega)]
      simp [bytesOf, List.drop_append_of_le_length hcursor]
    | hook e =>
      have hsame : bytesOf (done ++ [.hook e]) = bytesOf done := by simp [bytesOf]
      have hlen : (bytesOf done).length ≤ (bytesOf (done ++ [.hook e] ++ rest)).length := by
        simp [bytesOf]
      have htake : (bytesOf (done ++ [.hook e] ++ rest)).take (bytesOf done).length =
          bytesOf done := by
        simp [bytesOf]
      simp only [hooksFrom, ofChunk, Nat.min_eq_left hlen, htake]
      -- the hooks left are those of the symbols after this one
      have hnext := fun c => @ih (done ++ [.hook e]) c
      simp only [hsame] at hnext
      split
      · rw [symbols, symbols, hnext _ (Nat.le_refl _), List.drop_length]
        rfl
      · have heq : cursor = (bytesOf done).length := by omega
        rw [symbols, hnext _ hcursor, heq, List.drop_length]
        rfl

end BlockCall

namespace Emulator

variable {B S : Type} (I : Interface B S)

/-- The blocks are fed the bytes: the `OSC` tap gives all of them back. -/
theorem Loop.pass_blocks (st : Loop B S) (bytes : List UInt8) :
    (st.pass I bytes).em.blocks = I.feed st.em.blocks bytes := by
  simp only [Loop.pass, OscTap.tap_passthrough, List.drop_left]

theorem blocks_foldl_hook (staged : List UInt8) (found : List (Nat × HookEvent))
    (st : Loop B S) :
    ((found.foldl (Loop.hook I staged) st).rest I staged).em.blocks =
      (BlockCall.ofChunk staged found st.cursor).foldl (BlockCall.run I) st.em.blocks := by
  induction found generalizing st with
  | nil =>
    rw [List.foldl_nil, BlockCall.ofChunk, Loop.rest]
    by_cases hmore : st.cursor < staged.length
    · rw [if_pos hmore, if_pos hmore, Loop.pass_blocks]
      rfl
    · rw [if_neg hmore, if_neg hmore]
      rfl
  | cons hook found ih =>
    obtain ⟨offset, hook⟩ := hook
    rw [List.foldl_cons]
    refine (ih _).trans ?_
    simp only [BlockCall.ofChunk, Loop.hook]
    split
    · simp only [List.foldl_cons, BlockCall.run, Loop.apply, Loop.pass_blocks]
    · rfl

/-- The loop hands the `OSC` tap the bytes of the chunk in order and leaves the screen alone. -/
theorem passthrough_foldl_hook (staged : List UInt8) (found : List (Nat × HookEvent))
    (st : Loop B S) (h : st.passthrough = staged.take st.cursor) :
    (found.foldl (Loop.hook I staged) st).passthrough =
        staged.take (found.foldl (Loop.hook I staged) st).cursor ∧
      (found.foldl (Loop.hook I staged) st).em.screen = st.em.screen := by
  induction found generalizing st with
  | nil => exact ⟨h, rfl⟩
  | cons hook found ih =>
    rw [List.foldl_cons]
    have hstep : (st.hook I staged hook).passthrough =
          staged.take (st.hook I staged hook).cursor ∧
        (st.hook I staged hook).em.screen = st.em.screen := by
      simp only [Loop.hook]
      split
      · next hlt =>
        refine ⟨?_, rfl⟩
        simp only [Loop.apply, Loop.pass, OscTap.tap_passthrough, h]
        conv =>
          rhs
          rw [← List.take_append_drop st.cursor (staged.take (min hook.1 staged.length))]
        rw [List.take_take, Nat.min_eq_left (Nat.le_of_lt hlt)]
      · exact ⟨h, rfl⟩
    rw [← hstep.2]
    exact ih _ hstep.1

/-- Only the tap itself changes the tap. -/
theorem hooks_foldl_hook (staged : List UInt8) (found : List (Nat × HookEvent))
    (st : Loop B S) : (found.foldl (Loop.hook I staged) st).em.hooks = st.em.hooks := by
  induction found generalizing st with
  | nil => rfl
  | cons hook found ih =>
    rw [List.foldl_cons, ih]
    simp only [Loop.hook, Loop.apply]
    split <;> rfl

theorem hooks_feed (em : Emulator B S) (chunk : List UInt8) :
    (feed I em chunk).hooks = (Transducer.run (HookTap.scan I.serde) em.hooks chunk).1 := by
  simp only [feed, HookTap.tapOrdered_eq, Loop.rest]
  split <;> exact hooks_foldl_hook I _ _ _

theorem screen_feed (em : Emulator B S) (chunk : List UInt8) :
    (feed I em chunk).screen =
      I.feedScreen em.screen
        (bytesOf (Transducer.run (HookTap.scan I.serde) em.hooks chunk).2) := by
  rw [feed, HookTap.tapOrdered_eq]
  obtain ⟨hpass, hscreen⟩ := passthrough_foldl_hook I
    (bytesOf (Transducer.run (HookTap.scan I.serde) em.hooks chunk).2)
    (hooksFrom 0 (Transducer.run (HookTap.scan I.serde) em.hooks chunk).2)
    ⟨{ em with hooks := (Transducer.run (HookTap.scan I.serde) em.hooks chunk).1 }, [], 0⟩ rfl
  simp only [List.nil_append, List.length_nil, Loop.rest]
  split
  · next hmore =>
    simp only [Loop.pass, OscTap.tap_passthrough, hpass, hscreen, List.take_append_drop]
  · next hdone =>
    simp only [hpass, hscreen, List.take_of_length_le (Nat.le_of_not_lt hdone)]

end Emulator

namespace BlockCall

variable (serde : HookJson)

def ofStream : HookTap → List (List UInt8) → List BlockCall
  | _, [] => []
  | tap, chunk :: chunks =>
    let (tap', syms) := Transducer.run (HookTap.scan serde) tap chunk
    ofChunk (bytesOf syms) (hooksFrom 0 syms) 0 ++ ofStream tap' chunks

theorem symbols_ofStream (tap : HookTap) (chunks : List (List UInt8)) :
    symbols (ofStream serde tap chunks) =
      (Transducer.runChunks (HookTap.scan serde) tap chunks).2 := by
  induction chunks generalizing tap with
  | nil => rfl
  | cons chunk chunks ih =>
    have hchunk := fun syms => symbols_ofChunk [] syms (Nat.zero_le 0)
    simp only [List.nil_append, bytesOf, List.length_nil, List.drop_nil, List.map_nil] at hchunk
    rw [ofStream, Transducer.runChunks_cons, symbols_append, hchunk, ih]

end BlockCall

theorem Emulator.blocks_foldl_feed {B S : Type} (I : Interface B S) (em : Emulator B S)
    (chunks : List (List UInt8)) :
    (chunks.foldl (feed I) em).blocks =
      (BlockCall.ofStream I.serde em.hooks chunks).foldl (BlockCall.run I) em.blocks := by
  induction chunks generalizing em with
  | nil => rfl
  | cons chunk chunks ih =>
    have hblocks : (feed I em chunk).blocks =
        (BlockCall.ofChunk
          (bytesOf (Transducer.run (HookTap.scan I.serde) em.hooks chunk).2)
          (hooksFrom 0 (Transducer.run (HookTap.scan I.serde) em.hooks chunk).2) 0).foldl
          (BlockCall.run I) em.blocks := by
      rw [feed, HookTap.tapOrdered_eq]
      exact blocks_foldl_hook I _ _ _
    rw [List.foldl_cons, ih, hooks_feed, hblocks, BlockCall.ofStream, List.foldl_append]

/-- **Hook stream round trip.** However a stream of text and envelopes is cut into chunks,
`tap_ordered` finds the hooks in order, each at the length of the text before it, passes the
text through and never drops an envelope; and the emulator hands the block model the text and
the hooks in stream order. -/
theorem hook_stream_round_trip (serde : HookJson) (segs : List Segment) (bytes : List UInt8)
    (hwire : Segment.wire serde segs = some bytes)
    (hserde : ∀ event, .hook event ∈ segs → serde.RoundTrips event)
    (hwf : ∀ seg ∈ segs, Segment.WellFormed serde seg) (chunks : List (List UInt8))
    (hchunks : chunks.flatten = bytes) :
    Transducer.runChunks (HookTap.step serde) (HookTap.new, []) chunks =
      ((HookTap.new, Segment.texts segs), Segment.hooks 0 segs) ∧
    (∀ fed rest, chunks = fed ++ rest →
      (Transducer.runChunks (HookTap.step serde) (HookTap.new, []) fed).1.1.dropped = 0) ∧
    ∃ calls, BlockCall.symbols calls = Segment.symbols segs ∧
      ∀ (B S : Type) (I : Interface B S) (em : Emulator B S), I.serde = serde →
        em.hooks = HookTap.new →
        (chunks.foldl (Emulator.feed I) em).blocks =
          calls.foldl (BlockCall.run I) em.blocks := by
  subst hchunks
  have hscan : Transducer.run (HookTap.scan serde) HookTap.new chunks.flatten =
      (HookTap.new, Segment.symbols segs) := HookTap.scan_wire serde 0 hwire hserde hwf
  have htap := HookTap.tapOrdered_eq serde HookTap.new []
  simp only [HookTap.tapOrdered, List.nil_append, List.length_nil] at htap
  refine ⟨?_, ?_, BlockCall.ofStream serde HookTap.new chunks, ?_, ?_⟩
  · rw [Transducer.runChunks_eq, htap, hscan, Segment.bytesOf_symbols,
      Segment.hooksFrom_symbols]
  · rintro fed rest rfl
    rw [Transducer.runChunks_eq, htap]
    have hle := HookTap.dropped_run_le serde
      (Transducer.run (HookTap.scan serde) HookTap.new fed.flatten).1 rest.flatten
    rw [List.flatten_append, Transducer.run_append] at hscan
    rw [(Prod.mk.inj hscan).1] at hle
    exact Nat.le_zero.mp hle
  · rw [BlockCall.symbols_ofStream, Transducer.runChunks_eq, hscan]
  · rintro B S I em rfl hnew
    rw [Emulator.blocks_foldl_feed, hnew]

def clearJson : HookJson where
  toVec
    | .clear => .ok [123, 34, 104, 111, 111, 107, 34, 58, 34, 67, 108, 101, 97, 114, 34, 125]
    | _ => .error "no value here"
  fromSlice json :=
    if json = [123, 34, 104, 111, 111, 107, 34, 58, 34, 67, 108, 101, 97, 114, 34, 125] then
      .ok .clear
    else .error "expected a hook"

/-- A hook between two texts, of which the second has a foreign `DCS` in it; cut after the first
byte of the envelope and within the foreign sequence. -/
theorem hook_stream_clear :
    ∃ bytes, Segment.wire clearJson
        [.text [97, 98], .hook .clear, .text [0x1b, 0x50, 113, 0x1b, 0x5c, 99]] = some bytes ∧
      Transducer.runChunks (HookTap.step clearJson) (HookTap.new, [])
          [bytes.take 3, (bytes.take 42).drop 3, bytes.drop 42] =
        ((HookTap.new, [97, 98, 0x1b, 0x50, 113, 0x1b, 0x5c, 99]), [(2, .clear)]) := by
  refine ⟨_, rfl, ?_⟩
  refine (hook_stream_round_trip clearJson
    [.text [97, 98], .hook .clear, .text [0x1b, 0x50, 113, 0x1b, 0x5c, 99]] _ rfl ?_ ?_ _ ?_).1
  · intro event hmem
    obtain rfl : event = .clear := by simpa using hmem
    exact ⟨_, rfl, rfl⟩
  · intro seg hmem
    simp only [List.mem_cons, List.not_mem_nil, or_false] at hmem
    rcases hmem with rfl | rfl | rfl
    · exact (by decide : HookTap.PlainText [97, 98])
    · rintro json h
      cases h
      decide
    · exact (by decide : HookTap.PlainText [0x1b, 0x50, 113, 0x1b, 0x5c, 99])
  · decide

end Goble.Terminal
