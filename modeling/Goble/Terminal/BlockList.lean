import Goble.Lib.Lists
import Goble.Terminal.Block
import Mathlib.Algebra.Ring.Nat

/-!
# The block list

The blocks of one session, oldest first, one of them active, driven by the shell's hooks. An
operation answers `none` where the source's `blocks[active]` would panic.

`Outline` is what is left of a list without its screens and texts: of each block its id, position,
kind, owner, state and what it dropped. `Outline.Step` says all that an operation can do to it,
and `step_of_perform` that the list does no more. What is proved about whole runs is proved of
outlines.
-/

namespace Goble.Terminal

/-- Facts about the session the blocks belong to. -/
structure SessionInfo where
  sessionId : Option String := none
  shell : Option String := none
  host : Option String := none
  cwd : Option String := none
  honorPs1 : Bool := false
deriving DecidableEq, Repr, Inhabited

/-- A command the app asked for, waiting for its `Preexec`. -/
structure PendingClaim where
  block : BlockId
  owner : BlockOwner
deriving DecidableEq, Repr

structure BlockList (S : Type) where
  blocks : List (Block S)
  active : Nat
  size : ScreenSize
  nextId : Nat
  session : SessionInfo
  bootstrapped : Bool
  inputBuffer : String
  inputCursor : Option Nat
  /-- Blocks that begin a fresh screen after a `clear`. -/
  gaps : List BlockId
  pendingClaim : Option PendingClaim

namespace BlockList

variable {S : Type} (api : ScreenApi S)

/-- A list with one static block: whatever the shell prints before it is ready lands there. -/
def new (size : ScreenSize) : BlockList S where
  blocks := [.new api ⟨1⟩ 0 size .static]
  active := 0
  size
  nextId := 2
  session := {}
  bootstrapped := false
  inputBuffer := ""
  inputCursor := none
  gaps := []
  pendingClaim := none

variable (l : BlockList S)

/-- Bytes the shell wrote after their block had already finished. -/
def droppedBytes : Nat := (l.blocks.map Block.droppedBytes).sum

def activeBlock : Option (Block S) := l.blocks[l.active]?

def modifyActive (f : Block S → Block S) : Option (BlockList S × Block S) :=
  match l.activeBlock with
  | some block => some ({ l with blocks := l.blocks.set l.active (f block) }, f block)
  | none => none

/-- Claim the next `Preexec` for a command the agent asked for. -/
def claimNextPreExec (id : BlockId) (owner : BlockOwner) : Option (BlockList S × Bool) :=
  match l.activeBlock with
  | some active =>
    if active.id ≠ id ∨ active.state ≠ .beforeExecution then some (l, false)
    else some ({ l with pendingClaim := some ⟨id, owner⟩ }, true)
  | none => none

def resize (size : ScreenSize) : BlockList S :=
  { l with size, blocks := l.blocks.map fun block => block.resize api size }

def feed (bytes : List UInt8) : Option (BlockList S) :=
  if bytes = [] then some l
  else (l.modifyActive fun block => block.feed api bytes).map Prod.fst

def pushBlock : BlockList S :=
  let block := Block.new api ⟨l.nextId⟩ l.blocks.length l.size .beforeExecution
  let blocks := l.blocks ++ [block]
  { l with nextId := l.nextId + 1, blocks, active := blocks.length - 1 }

def toolResult (block : Block S) (outcome : ToolOutcome) : Option ToolResult :=
  match block.owner with
  | .agent conversationId callId =>
    some ⟨block.id, conversationId, callId, block.commandText, api.outputText block.output,
      outcome⟩
  | .user => none

def initShell (value : InitShellValue) : BlockList S × List BlockEvent :=
  let session : SessionInfo :=
    { sessionId := value.sessionId
      shell := value.shell
      host := value.host
      cwd := value.cwd.or l.session.cwd
      honorPs1 := value.honorPs1.getD l.session.honorPs1 }
  ({ l with session }, [.sessionInitialized session.sessionId session.shell])

def onBootstrapped : BlockList S × List BlockEvent :=
  if l.bootstrapped then (l, [])
  else ({ l with bootstrapped := true }.pushBlock api, [.bootstrapped])

/-- A prompt while a command is still running means the shell moved on: the command keeps its own
block, and its tool result is produced here. -/
def promote : Option (BlockList S × List BlockEvent) := do
  let active ← l.activeBlock
  if active.state = .executing then do
    let (l, promoted) ← l.modifyActive Block.promoteToBackground
    some (l.pushBlock api, (toolResult api promoted .stillRunning).toList.map .toolResult)
  else some (l, [])

def onPrecmd (value : PrecmdValue) : Option (BlockList S × List BlockEvent) := do
  let l := { l with session := { l.session with cwd := value.pwd.or l.session.cwd } }
  let (l, results) ← l.promote api
  let (l, active) ← l.modifyActive fun block => block.setMetadata value
  some (l, results ++ [.metadataUpdated active.id])

def settleClaim (claim : Option PendingClaim) (block : Block S) : Block S :=
  match claim with
  | some claim => if claim.block = block.id then { block with owner := claim.owner } else block
  | none => block

def onPreexec (value : PreexecValue) : Option (BlockList S × List BlockEvent) := do
  -- the claim is consumed either way
  let (l, active) ← { l with pendingClaim := none }.modifyActive fun block =>
    (settleClaim l.pendingClaim block).preexec (value.command.getD "")
  some (l, [.blockStarted active.id])

def onCommandFinished (exitCode : Int32) : Option (BlockList S × List BlockEvent) := do
  let (l, finished) ← l.modifyActive fun block => block.finish api exitCode
  let event := .blockFinished finished.id exitCode finished.hasFailed
  let result := toolResult api finished (.finished exitCode)
  some (l.pushBlock api, event :: result.toList.map .toolResult)

def drain : BlockList S :=
  { l with
    blocks := (l.blocks.drop l.active).mapIdx fun index block => { block with index }
    active := 0 }

def onClear : Option (BlockList S × List BlockEvent) := do
  let removed := l.active
  let l := if 0 < removed then l.drain else l
  let (l, active) ← l.modifyActive fun block => block.clear api
  let gaps := if active.id ∈ l.gaps then l.gaps else l.gaps ++ [active.id]
  some ({ l with gaps }, [.cleared removed])

def apply : HookEvent → Option (BlockList S × List BlockEvent)
  | .initShell value => some (l.initShell value)
  | .bootstrapped _ => some (l.onBootstrapped api)
  | .precmd value => l.onPrecmd api value
  | .preexec value => l.onPreexec value
  | .commandFinished value => l.onCommandFinished api value.exitCode
  | .inputBuffer value =>
    some ({ l with inputBuffer := value.buffer, inputCursor := value.cursor },
      [.inputBufferChanged value.buffer value.cursor])
  | .clear => l.onClear api

/-- Append a block standing for a conversation, without disturbing the active shell block. -/
def pushAgentViewBlock (conversationId label : String) : BlockList S × BlockId :=
  let id : BlockId := ⟨l.nextId⟩
  let block := Block.agentView api id l.blocks.length l.size conversationId label
  ({ l with nextId := l.nextId + 1, blocks := l.blocks ++ [block] }, id)

def modifyFirst (id : BlockId) (f : Block S → Block S) : List (Block S) → List (Block S)
  | [] => []
  | block :: blocks =>
    if block.id = id then f block :: blocks else block :: modifyFirst id f blocks

/-- Make a block visible inside a conversation's agent view as well. -/
def associateWithConversation (id : BlockId) (conversationId : String) : BlockList S × Bool :=
  match l.blocks.find? fun block => block.id = id with
  | none => (l, false)
  | some block =>
    let (visibility, inserted) := block.visibility.associate conversationId
    ({ l with blocks := modifyFirst id (fun block => { block with visibility }) l.blocks },
      inserted)

def setVisibility (id : BlockId) (visibility : BlockVisibility) : BlockList S × Bool :=
  match l.blocks.find? fun block => block.id = id with
  | none => (l, false)
  | some _ =>
    ({ l with blocks := modifyFirst id (fun block => { block with visibility }) l.blocks }, true)

end BlockList

inductive BlockOp where
  | apply (event : HookEvent)
  | feed (bytes : List UInt8)
  | pushAgentViewBlock (conversationId label : String)
  | claimNextPreExec (id : BlockId) (owner : BlockOwner)
  | associateWithConversation (id : BlockId) (conversationId : String)
  | setVisibility (id : BlockId) (visibility : BlockVisibility)
  | resize (size : ScreenSize)
deriving DecidableEq, Repr

namespace BlockList

variable {S : Type} (api : ScreenApi S)

/-- One operation, with the events it returns. -/
def perform (l : BlockList S) : BlockOp → Option (BlockList S × List BlockEvent)
  | .apply event => l.apply api event
  | .feed bytes => (l.feed api bytes).map fun l => (l, [])
  | .pushAgentViewBlock conversationId label =>
    some ((l.pushAgentViewBlock api conversationId label).1, [])
  | .claimNextPreExec id owner => (l.claimNextPreExec id owner).map fun r => (r.1, [])
  | .associateWithConversation id conversationId =>
    some ((l.associateWithConversation id conversationId).1, [])
  | .setVisibility id visibility => some ((l.setVisibility id visibility).1, [])
  | .resize size => some (l.resize api size, [])

end BlockList

/-! ### Outlines -/

/-- What the list's bookkeeping reads of a block. -/
structure Frame where
  id : BlockId
  index : Nat
  kind : BlockKind
  owner : BlockOwner
  state : BlockState
  droppedBytes : Nat
deriving DecidableEq, Repr

/-- A block without its screens, texts and views. -/
def Block.frame {S : Type} (block : Block S) : Frame where
  id := block.id
  index := block.index
  kind := block.kind
  owner := block.owner
  state := block.state
  droppedBytes := block.droppedBytes

namespace Frame

/-- A block that waits for its command. -/
def fresh (id index : Nat) : Frame := ⟨⟨id⟩, index, .shell, .user, .beforeExecution, 0⟩

def card (id index : Nat) (conversationId label : String) : Frame :=
  ⟨⟨id⟩, index, .agentView conversationId label, .user, .static, 0⟩

/-- Its command starts; a claim that was aimed at it says for whom. -/
def start (f : Frame) (claim : Option PendingClaim) : Frame :=
  let owner :=
    match claim with
    | some claim => if claim.block = f.id then claim.owner else f.owner
    | none => f.owner
  { f with owner, state := .executing }

end Frame

/-- A list without the screens, texts and views of its blocks. -/
structure Outline where
  frames : List Frame
  active : Nat
  nextId : Nat
  bootstrapped : Bool
  claim : Option PendingClaim

def reports (events : List BlockEvent) : List BlockId :=
  events.filterMap fun
    | .toolResult result => some result.block
    | _ => none

theorem reports_append (xs ys : List BlockEvent) :
    reports (xs ++ ys) = reports xs ++ reports ys :=
  List.filterMap_append

def Frame.report (f : Frame) : List BlockId :=
  match f.owner with
  | .agent _ _ => [f.id]
  | .user => []

namespace Outline

/-- A new block is appended and becomes the active one. -/
def push (o : Outline) : Outline :=
  { o with
    frames := o.frames ++ [.fresh o.nextId o.frames.length]
    active := o.frames.length
    nextId := o.nextId + 1 }

def drain (o : Outline) : Outline :=
  { o with
    frames := (o.frames.drop o.active).mapIdx fun index f => { f with index }
    active := 0 }

/-- All that an operation can do. -/
inductive Step (o : Outline) : BlockOp → Outline → List BlockEvent → Prop
  | keep {op : BlockOp} {events : List BlockEvent} (hquiet : reports events = []) :
    Step o op o events
  | claim {id : BlockId} {owner : BlockOwner} {f : Frame} (hact : o.frames[o.active]? = some f)
    (hid : f.id = id) (hstate : f.state = .beforeExecution) :
    Step o (.claimNextPreExec id owner) { o with claim := some ⟨id, owner⟩ } []
  | start {value : PreexecValue} {f : Frame} (hact : o.frames[o.active]? = some f) :
    Step o (.apply (.preexec value))
      { o with frames := o.frames.set o.active (f.start o.claim), claim := none }
      [.blockStarted f.id]
  | retire {op : BlockOp} {f : Frame} {state : BlockState} {events : List BlockEvent}
    (hact : o.frames[o.active]? = some f) (hstate : state ≠ .executing)
    (hreport : reports events = f.report) :
    Step o op ({ o with frames := o.frames.set o.active { f with state } }.push) events
  | bootstrap {value : BootstrappedValue} (hfirst : o.bootstrapped = false) :
    Step o (.apply (.bootstrapped value)) ({ o with bootstrapped := true }.push) [.bootstrapped]
  | card {conversationId label : String} :
    Step o (.pushAgentViewBlock conversationId label)
      { o with
        frames := o.frames ++ [.card o.nextId o.frames.length conversationId label]
        nextId := o.nextId + 1 } []
  | clear (hactive : 0 < o.active) :
    Step o (.apply .clear) o.drain [.cleared o.active]

end Outline

namespace BlockList

variable {S : Type} (api : ScreenApi S) {l l' : BlockList S}

def outline (l : BlockList S) : Outline where
  frames := l.blocks.map Block.frame
  active := l.active
  nextId := l.nextId
  bootstrapped := l.bootstrapped
  claim := l.pendingClaim

@[simp] theorem outline_active : l.outline.active = l.active := rfl

@[simp] theorem outline_frames : l.outline.frames = l.blocks.map Block.frame := rfl

theorem outline_act {block : Block S} (h : l.activeBlock = some block) :
    l.outline.frames[l.outline.active]? = some block.frame := by
  rw [outline_frames, outline_active, List.getElem?_map]
  exact congrArg (Option.map Block.frame) h

theorem modifyActive_eq {f : Block S → Block S} {block : Block S}
    (h : l.activeBlock = some block) :
    l.modifyActive f = some ({ l with blocks := l.blocks.set l.active (f block) }, f block) := by
  rw [modifyActive, h]

theorem outline_pushBlock : (l.pushBlock api).outline = l.outline.push := by
  simp [outline, pushBlock, Outline.push, Block.frame, Block.new, Frame.fresh]

theorem outline_drain : l.drain.outline = l.outline.drain := by
  have hframes : l.drain.blocks.map Block.frame =
      ((l.blocks.map Block.frame).drop l.active).mapIdx fun index f => { f with index } := by
    ext1 i
    simp only [drain, List.getElem?_map, List.getElem?_mapIdx, List.getElem?_drop,
      Option.map_map]
    rfl
  simp only [outline, Outline.drain, hframes]
  rfl

theorem map_modifyFirst (id : BlockId) {f : Block S → Block S}
    (hf : ∀ block, (f block).frame = block.frame) (blocks : List (Block S)) :
    (modifyFirst id f blocks).map Block.frame = blocks.map Block.frame := by
  induction blocks with
  | nil => rfl
  | cons block blocks ih =>
    rw [modifyFirst]
    split
    · rw [List.map_cons, hf, List.map_cons]
    · rw [List.map_cons, ih, List.map_cons]

theorem outline_modifyFirst (id : BlockId) {f : Block S → Block S}
    (hf : ∀ block, (f block).frame = block.frame) :
    ({ l with blocks := modifyFirst id f l.blocks } : BlockList S).outline = l.outline := by
  simp only [outline]
  rw [map_modifyFirst id hf]

theorem outline_associateWithConversation (id : BlockId) (conversationId : String) :
    (l.associateWithConversation id conversationId).1.outline = l.outline := by
  simp only [associateWithConversation]
  split
  · rfl
  · exact outline_modifyFirst id fun _ => rfl

theorem outline_setVisibility (id : BlockId) (visibility : BlockVisibility) :
    (l.setVisibility id visibility).1.outline = l.outline := by
  simp only [setVisibility]
  split
  · rfl
  · exact outline_modifyFirst id fun _ => rfl

theorem outline_resize (size : ScreenSize) : (l.resize api size).outline = l.outline := by
  simp only [outline, resize, List.map_map]
  rfl

theorem outline_pushAgentViewBlock (conversationId label : String) :
    (l.pushAgentViewBlock api conversationId label).1.outline =
      { l.outline with
        frames := l.outline.frames ++
          [.card l.outline.nextId l.outline.frames.length conversationId label]
        nextId := l.outline.nextId + 1 } := by
  simp [outline, pushAgentViewBlock, Block.frame, Block.agentView, Block.new, Frame.card]

theorem outline_set {block : Block S} {f : Frame} (hf : block.frame = f) :
    ({ l with blocks := l.blocks.set l.active block } : BlockList S).outline =
      { l.outline with frames := l.outline.frames.set l.outline.active f } := by
  simp [outline, List.map_set, hf]

theorem outline_set_self {block block' : Block S} (h : l.activeBlock = some block)
    (hf : block'.frame = block.frame) :
    ({ l with blocks := l.blocks.set l.active block' } : BlockList S).outline = l.outline := by
  simp only [outline, map_set_eq_map Block.frame h hf]

theorem frame_feed {block : Block S} (hshell : block.kind.isShell = true)
    (haccept : block.state.acceptsOutput = true) (bytes : List UInt8) :
    (block.feed api bytes).frame = block.frame := by
  rw [Block.feed, hshell]
  simp only [Bool.not_true, Bool.false_eq_true, if_false]
  split
  · rfl
  · rfl
  · rfl
  · rfl
  · next hstate => rw [hstate] at haccept; cases haccept
  · next hstate => rw [hstate] at haccept; cases haccept

theorem frame_preexec (claim : Option PendingClaim) (block : Block S) (command : String) :
    ((settleClaim claim block).preexec command).frame = block.frame.start claim := by
  -- a second `Preexec` changes nothing, and then the state is `executing` already
  have hstart : ∀ block : Block S, (block.preexec command).frame =
      { block.frame with state := .executing } := by
    intro block
    rw [Block.preexec]
    split
    · next hstate => simp [Block.frame, hstate]
    · rfl
  rw [hstart]
  cases claim with
  | none => rfl
  | some claim =>
    by_cases hclaim : claim.block = block.id
    · simp [settleClaim, Frame.start, Block.frame, hclaim]
    · simp [settleClaim, Frame.start, Block.frame, hclaim]

theorem reports_toolResult (block : Block S) (outcome : ToolOutcome) :
    reports ((toolResult api block outcome).toList.map .toolResult) = block.frame.report := by
  cases howner : block.owner with
  | user => simp [toolResult, Frame.report, Block.frame, howner, reports]
  | agent conversationId callId =>
    simp [toolResult, Frame.report, Block.frame, howner, reports]

section Perform

variable {block : Block S} (hact : l.activeBlock = some block)

include hact

theorem perform_promote (op : BlockOp) :
    ∃ l' events, l.promote api = some (l', events) ∧ l'.activeBlock.isSome = true ∧
      ∀ quiet, reports quiet = [] → l.outline.Step op l'.outline (events ++ quiet) := by
  simp only [promote, hact, Option.bind_eq_bind, Option.bind_some]
  by_cases hstate : block.state = .executing
  · rw [if_pos hstate, modifyActive_eq hact]
    refine ⟨_, _, rfl, ?_, ?_⟩
    · simp [activeBlock, pushBlock]
    · intro quiet hquiet
      have hframe : block.promoteToBackground.frame =
          { block.frame with state := .background } := by
        rw [Block.promoteToBackground, if_pos hstate]
        rfl
      rw [outline_pushBlock, outline_set hframe]
      refine .retire (outline_act hact) (by decide) ?_
      rw [reports_append, hquiet, List.append_nil, reports_toolResult, hframe]
      rfl
  · rw [if_neg hstate]
    refine ⟨l, [], rfl, ?_, fun quiet hquiet => .keep hquiet⟩
    rw [hact]
    rfl

theorem perform_precmd (value : PrecmdValue) :
    ∃ l' events, l.onPrecmd api value = some (l', events) ∧
      l.outline.Step (.apply (.precmd value)) l'.outline events := by
  obtain ⟨l₂, results, hpromote, hsome, hstep⟩ := @perform_promote S api
    { l with session := { l.session with cwd := value.pwd.or l.session.cwd } } block hact
    (.apply (.precmd value))
  obtain ⟨block₂, hact₂⟩ := Option.isSome_iff_exists.mp hsome
  simp only [onPrecmd, hpromote, Option.bind_eq_bind, Option.bind_some, modifyActive_eq hact₂]
  refine ⟨_, _, rfl, ?_⟩
  -- the metadata is not in the outline
  have hframe : (block₂.setMetadata value).frame = block₂.frame := rfl
  rw [outline_set_self hact₂ hframe]
  exact hstep _ rfl

theorem perform_preexec (value : PreexecValue) :
    ∃ l' events, l.onPreexec value = some (l', events) ∧
      l.outline.Step (.apply (.preexec value)) l'.outline events := by
  have hact' : ({ l with pendingClaim := none } : BlockList S).activeBlock = some block := hact
  simp only [onPreexec, modifyActive_eq hact', Option.bind_eq_bind, Option.bind_some]
  refine ⟨_, _, rfl, ?_⟩
  have hframe := frame_preexec l.pendingClaim block (value.command.getD "")
  have hid : ((settleClaim l.pendingClaim block).preexec (value.command.getD "")).id =
    block.frame.id := congrArg Frame.id hframe
  have houtline := @outline_set S { l with pendingClaim := none } _ _ hframe
  rw [hid]
  exact houtline.symm ▸ .start (outline_act hact)

theorem perform_commandFinished (value : CommandFinishedValue) :
    ∃ l' events, l.onCommandFinished api value.exitCode = some (l', events) ∧
      l.outline.Step (.apply (.commandFinished value)) l'.outline events := by
  simp only [onCommandFinished, modifyActive_eq hact, Option.bind_eq_bind, Option.bind_some]
  refine ⟨_, _, rfl, ?_⟩
  have hframe : (block.finish api value.exitCode).frame =
      { block.frame with state := (block.finish api value.exitCode).state } := rfl
  rw [outline_pushBlock, outline_set hframe]
  refine .retire (outline_act hact) ?_ ?_
  · simp only [Block.finish, Block.freeze]
    split <;> decide
  · rw [reports, List.filterMap_cons_none rfl]
    exact reports_toolResult api _ _

theorem activeBlock_drain : l.drain.activeBlock = some { block with index := 0 } := by
  have hget : l.blocks[l.active]? = some block := hact
  simp [activeBlock, drain, List.getElem?_mapIdx, hget]

theorem perform_clear :
    ∃ l' events, l.onClear api = some (l', events) ∧
      l.outline.Step (.apply .clear) l'.outline events := by
  -- what `clear` does to the active block is not in the outline, and neither are the gaps
  have hclear : ∀ block : Block S, (block.clear api).frame = block.frame := fun _ => rfl
  simp only [onClear]
  by_cases hactive : 0 < l.active
  · simp only [if_pos hactive, modifyActive_eq (activeBlock_drain hact), Option.bind_eq_bind,
      Option.bind_some]
    refine ⟨_, _, rfl, ?_⟩
    have houtline := outline_set_self (activeBlock_drain hact) (hclear _)
    rw [outline_drain] at houtline
    exact houtline.symm ▸ .clear hactive
  · simp only [if_neg hactive, modifyActive_eq hact, Option.bind_eq_bind, Option.bind_some]
    refine ⟨_, _, rfl, ?_⟩
    have houtline := outline_set_self hact (hclear block)
    exact houtline.symm ▸ .keep rfl

theorem step_of_perform (hshell : block.kind.isShell = true)
    (haccept : block.state.acceptsOutput = true) (op : BlockOp) :
    ∃ l' events, l.perform api op = some (l', events) ∧
      l.outline.Step op l'.outline events := by
  cases op with
  | apply event =>
    cases event with
    | initShell value => exact ⟨_, _, rfl, .keep rfl⟩
    | inputBuffer value => exact ⟨_, _, rfl, .keep rfl⟩
    | precmd value => exact perform_precmd api hact value
    | preexec value => exact perform_preexec hact value
    | commandFinished value => exact perform_commandFinished api hact value
    | clear => exact perform_clear api hact
    | bootstrapped value =>
      simp only [perform, apply, onBootstrapped]
      split
      · exact ⟨_, _, rfl, .keep rfl⟩
      · next hfirst =>
        refine ⟨_, _, rfl, ?_⟩
        rw [outline_pushBlock]
        exact .bootstrap (Bool.not_eq_true _ ▸ hfirst)
  | feed bytes =>
    simp only [perform, feed]
    split
    · exact ⟨_, _, rfl, .keep rfl⟩
    · rw [modifyActive_eq hact]
      refine ⟨_, _, rfl, ?_⟩
      rw [outline_set_self hact (frame_feed api hshell haccept bytes)]
      exact .keep rfl
  | pushAgentViewBlock conversationId label =>
    refine ⟨_, _, rfl, ?_⟩
    rw [outline_pushAgentViewBlock]
    exact .card
  | claimNextPreExec id owner =>
    simp only [perform, claimNextPreExec, hact]
    split
    · exact ⟨_, _, rfl, .keep rfl⟩
    · next hclaim =>
      rw [not_or, not_not, not_not] at hclaim
      exact ⟨_, _, rfl, .claim (outline_act hact) hclaim.1 hclaim.2⟩
  | associateWithConversation id conversationId =>
    refine ⟨_, _, rfl, ?_⟩
    rw [outline_associateWithConversation]
    exact .keep rfl
  | setVisibility id visibility =>
    refine ⟨_, _, rfl, ?_⟩
    rw [outline_setVisibility]
    exact .keep rfl
  | resize size =>
    refine ⟨_, _, rfl, ?_⟩
    rw [outline_resize]
    exact .keep rfl

end Perform

end BlockList

end Goble.Terminal
