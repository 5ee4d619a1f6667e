import Goble.Lib.Text
import Goble.Terminal.Hooks

/-!
# Command blocks

One command and everything it printed, as one unit. A block has two screens, one for the prompt
and the command line and one for the output; what a screen does with its bytes is a parameter
(`ScreenApi`). `feed` routes the bytes of the PTY to the screen that owns them, and counts those
that arrive at a block that takes none.
-/

namespace Goble.Terminal

structure ScreenSize where
  columns : Nat
  screenLines : Nat
deriving DecidableEq, Repr, Inhabited

structure ScreenApi (S : Type) where
  /-- `Screen::new(size, ScreenConfig::block())` -/
  new : ScreenSize → S
  feed : S → List UInt8 → S
  freeze : S → S
  reset : S → S
  resize : S → ScreenSize → S
  text : S → String
  /-- The whole content as text, without blank padding. -/
  outputText : S → String

structure BlockId where
  val : Nat
deriving DecidableEq, Repr, Inhabited

/-- Who a block's command was run for. -/
inductive BlockOwner where
  | user
  | agent (conversationId callId : String)
deriving DecidableEq, Repr, Inhabited

inductive BlockState where
  /-- A prompt is on screen and the command is being typed. -/
  | beforeExecution
  | executing
  | doneWithExecution
  /-- The prompt was submitted empty; nothing ran. -/
  | doneWithNoExecution
  /-- The shell moved on while this command was still running. -/
  | background
  | static
deriving DecidableEq, Repr

namespace BlockState

/-- The block will not change again. -/
def isDone : BlockState → Bool
  | .doneWithExecution | .doneWithNoExecution => true
  | _ => false

/-- Bytes from the PTY still belong to this block. -/
def acceptsOutput : BlockState → Bool
  | .beforeExecution | .executing | .background | .static => true
  | _ => false

end BlockState

inductive BlockKind where
  | shell
  | agentView (conversationId label : String)
deriving DecidableEq, Repr

def BlockKind.isShell : BlockKind → Bool
  | .shell => true
  | .agentView _ _ => false

/-- Which views a block belongs to. The conversations are a set; here they are listed. -/
structure BlockVisibility where
  terminal : Bool
  conversations : List String
deriving DecidableEq, Repr

namespace BlockVisibility

/-- Visible in the terminal view only. -/
def inTerminal : BlockVisibility := ⟨true, []⟩

def associate (visibility : BlockVisibility) (conversationId : String) : BlockVisibility × Bool :=
  if conversationId ∈ visibility.conversations then (visibility, false)
  else ({ visibility with conversations := conversationId :: visibility.conversations }, true)

end BlockVisibility

/-- What the shell told us about where a command was run. -/
structure BlockMetadata where
  pwd : Option String := none
  gitBranch : Option String := none
  rprompt : Option String := none
  sessionId : Option String := none
  virtualEnv : Option String := none
  condaEnv : Option String := none
  nodeVersion : Option String := none
deriving DecidableEq, Repr, Inhabited

/-- How a claimed command ended. -/
inductive ToolOutcome where
  | finished (exitCode : Int32)
  | stillRunning
deriving DecidableEq, Repr

structure ToolResult where
  block : BlockId
  conversationId : String
  callId : String
  command : String
  output : String
  outcome : ToolOutcome
deriving DecidableEq, Repr

/-- Something the block list did, for the caller to react to. -/
inductive BlockEvent where
  | sessionInitialized (sessionId shell : Option String)
  | bootstrapped
  | blockStarted (id : BlockId)
  | blockFinished (id : BlockId) (exitCode : Int32) (failed : Bool)
  | metadataUpdated (id : BlockId)
  | inputBufferChanged (buffer : String) (cursor : Option Nat)
  | cleared (removed : Nat)
  | toolResult (result : ToolResult)
deriving DecidableEq, Repr

structure Block (S : Type) where
  id : BlockId
  /-- Renumbered by the list when `clear` drops earlier blocks. -/
  index : Nat
  kind : BlockKind
  visibility : BlockVisibility
  owner : BlockOwner
  state : BlockState
  command : S
  output : S
  commandText : String
  exitCode : Option Int32
  metadata : BlockMetadata
  honorPs1 : Bool
  /-- Bytes that arrived after the block was finished and were discarded. -/
  droppedBytes : Nat

namespace Block

variable {S : Type} (api : ScreenApi S)

def new (id : BlockId) (index : Nat) (size : ScreenSize) (state : BlockState) : Block S where
  id
  index
  kind := .shell
  visibility := .inTerminal
  owner := .user
  state
  command := api.new size
  output := api.new size
  commandText := ""
  exitCode := none
  metadata := {}
  honorPs1 := false
  droppedBytes := 0

def agentView (id : BlockId) (index : Nat) (size : ScreenSize) (conversationId label : String) :
    Block S :=
  { new api id index size .static with kind := .agentView conversationId label }

/-- Only an executed command can have failed. -/
def hasFailed (block : Block S) : Bool := block.exitCode.any (· ≠ 0)

/-- Route PTY bytes to the screen that currently owns them. -/
def feed (block : Block S) (bytes : List UInt8) : Block S :=
  if !block.kind.isShell then { block with droppedBytes := block.droppedBytes + bytes.length }
  else
    match block.state with
    -- before a command runs the shell is drawing the prompt and echoing what is typed
    | .beforeExecution => { block with command := api.feed block.command bytes }
    | .executing | .background | .static => { block with output := api.feed block.output bytes }
    | .doneWithExecution | .doneWithNoExecution =>
      { block with droppedBytes := block.droppedBytes + bytes.length }

def preexec (block : Block S) (command : String) : Block S :=
  if block.state = .executing then block
  else { block with commandText := command, state := .executing }

/-- The shell moved on while this command was still running. -/
def promoteToBackground (block : Block S) : Block S :=
  if block.state = .executing then { block with state := .background } else block

def freeze (block : Block S) : Block S :=
  { block with command := api.freeze block.command, output := api.freeze block.output }

def hasOutput (block : Block S) : Bool := api.text block.output ≠ ""

/-- The command finished. Both screens freeze. -/
def finish (block : Block S) (exitCode : Int32) : Block S :=
  -- `command_text.trim().is_empty()`
  let blank := block.commandText.toList.all Text.isWhitespace
  freeze api { block with
    exitCode := some exitCode
    state := if blank && !block.hasOutput api then .doneWithNoExecution else .doneWithExecution }

/-- Drop what the command printed, keeping the command line itself. -/
def clear (block : Block S) : Block S := { block with output := api.reset block.output }

def resize (block : Block S) (size : ScreenSize) : Block S :=
  { block with command := api.resize block.command size, output := api.resize block.output size }

def setMetadata (block : Block S) (value : PrecmdValue) : Block S :=
  { block with
    metadata := {
      pwd := value.pwd
      gitBranch := value.gitBranch
      rprompt := value.rprompt
      sessionId := value.sessionId
      virtualEnv := value.virtualEnv
      condaEnv := value.condaEnv
      nodeVersion := value.nodeVersion }
    honorPs1 := value.honorPs1.getD block.honorPs1 }

end Block

end Goble.Terminal
