import Goble.Lib.Machine

/-!
# Installing an update and undoing it

`InstallPlan::apply` copies what it is about to replace, writes a `pending` marker and puts the
new build in place. A process that stays up writes a `healthy` marker and clears `pending`
(`confirm_healthy`); the next process to start decides from the two markers whether to put the
copy back (`UpdatePaths::recover`).

The machine has the steps of one process at a time: `main` runs `recover` first, then the install
thread and the health watch take their steps in any order, and the process may end anywhere. Every
operation on files may fail; what it leaves behind then is carried by the label. A bundle is
swapped by a script that outlives the process.

`record` is a history of the run. No step reads it.
-/

namespace Goble.Update

abbrev Path := List String

def fileName (path : Path) : Option String := path.getLast?.filter (· ≠ "..")

/-- The update that is staged and waiting to prove itself. -/
structure PendingInstall where
  version : String
  epoch : Nat
  target : Path
  /-- The copy of what was there before. -/
  previous : Option Path
  kind : String
deriving DecidableEq, Repr

namespace PendingInstall

def forAppimage (version : String) (epoch : Nat) (target : Path) : PendingInstall :=
  ⟨version, epoch, target, none, "appimage"⟩

def forBundle (version : String) (epoch : Nat) (target : Path) : PendingInstall :=
  ⟨version, epoch, target, none, "app-bundle"⟩

def withPrevious (pending : PendingInstall) (previous : Option Path) : PendingInstall :=
  { pending with previous }

end PendingInstall

structure UpdateState where
  installedVersion : Option String
  installedEpoch : Nat
  failedVersion : Option String
  failedEpoch : Nat
deriving DecidableEq, Repr

namespace UpdateState

def empty : UpdateState := ⟨none, 0, none, 0⟩

def confirmInstall (_ : UpdateState) (version : String) (epoch : Nat) : UpdateState :=
  ⟨some version, epoch, none, 0⟩

/-- Record that a version was installed and rolled back. -/
def recordFailed (state : UpdateState) (version : String) (epoch : Nat) : UpdateState :=
  { state with failedVersion := some version, failedEpoch := epoch }

end UpdateState

inductive InstallError where
  | noBackup (path : Path)
  | io (path : Path)
  | state
deriving DecidableEq, Repr

inductive LocalRollback where
  | none
  /-- The previous copy is back in place; the failed version is recorded. -/
  | restored (failedVersion : String) (failedEpoch : Nat) (target : Path)
  | nothingToRestore (failedVersion : String) (failedEpoch : Nat)
deriving DecidableEq, Repr

structure Disk (Build : Type) where
  /-- A file or a bundle. -/
  files : Path → Option Build
  pending : Option PendingInstall
  healthy : Bool
  state : UpdateState

/-- Which file operations of `recover` go through. -/
structure RecoverIo (Build : Type) where
  restored : Bool
  /-- What stands at the target when `restore` fails half way. -/
  leftover : Option Build
  healthyRemoved : Bool
  pendingRemoved : Bool
  recorded : Bool

namespace Disk

variable {Build : Type} (root : Path) (disk : Disk Build)

def previousDir : Path := root ++ ["previous"]

def write (path : Path) (build : Option Build) : Disk Build :=
  { disk with files := Function.update disk.files path build }

/-- Copy what is about to be replaced into `previous/`. The copy that is there already goes first.
A copy that fails leaves something behind. -/
def backup (target : Path) (copied : Except (Option Build) Unit) :
    Disk Build × Except InstallError Path :=
  match fileName target with
  | none => (disk, .error (.noBackup target))
  | some name =>
    let destination := previousDir root ++ [name]
    -- backing up a path that is already the backup would delete it first
    if destination = target then (disk, .ok destination)
    else
      match disk.files target, copied with
      | none, _ => (disk.write destination none, .error (.noBackup target))
      | some build, .ok () => (disk.write destination (some build), .ok destination)
      | some _, .error leftover => (disk.write destination leftover, .error (.io target))

def recordFailure (pending : PendingInstall) : Disk Build :=
  { disk with state := disk.state.recordFailed pending.version pending.epoch }

/-- `remove_file` on the pending marker, when its error is ignored. -/
def removePending (removed : Bool) : Disk Build :=
  if removed then { disk with pending := none } else disk

def removeHealthy (removed : Bool) : Disk Build :=
  if removed then { disk with healthy := false } else disk

section Fields

variable {disk} (removed : Bool)

@[simp] theorem files_removePending : (disk.removePending removed).files = disk.files := by
  cases removed <;> rfl

@[simp] theorem healthy_removePending : (disk.removePending removed).healthy = disk.healthy := by
  cases removed <;> rfl

@[simp] theorem state_removePending : (disk.removePending removed).state = disk.state := by
  cases removed <;> rfl

theorem pending_removePending {pending : PendingInstall}
    (h : (disk.removePending removed).pending = some pending) : disk.pending = some pending := by
  cases removed with
  | true => cases h
  | false => exact h

@[simp] theorem files_removeHealthy : (disk.removeHealthy removed).files = disk.files := by
  cases removed <;> rfl

@[simp] theorem pending_removeHealthy : (disk.removeHealthy removed).pending = disk.pending := by
  cases removed <;> rfl

@[simp] theorem state_removeHealthy : (disk.removeHealthy removed).state = disk.state := by
  cases removed <;> rfl

theorem healthy_removeHealthy (h : (disk.removeHealthy removed).healthy = true) :
    disk.healthy = true := by
  cases removed with
  | true => cases h
  | false => exact h

end Fields

def recover (io : RecoverIo Build) : Disk Build × Except InstallError LocalRollback :=
  match disk.pending with
  | none => (disk, .ok .none)
  | some pending =>
    -- a healthy marker means the swap was accepted
    if disk.healthy then (disk.removePending io.pendingRemoved, .ok .none)
    else
      match pending.previous.bind disk.files with
      | none =>
        if io.recorded then
          ((disk.recordFailure pending).removePending io.pendingRemoved,
            .ok (.nothingToRestore pending.version pending.epoch))
        else (disk, .error .state)
      | some copy =>
        if (fileName pending.target).isNone then (disk, .error (.noBackup pending.target))
        else if !io.restored then
          (disk.write pending.target io.leftover, .error (.io pending.target))
        else
          let disk := disk.write pending.target (some copy)
          let disk := (disk.removeHealthy io.healthyRemoved).removePending io.pendingRemoved
          if io.recorded then
            (disk.recordFailure pending,
              .ok (.restored pending.version pending.epoch pending.target))
          else (disk, .error .state)

/-- What `confirm_healthy` writes to the state once the markers are done. -/
def confirm (running : String) (pending : Option PendingInstall) : Disk Build :=
  match pending with
  | some pending => { disk with state := disk.state.confirmInstall pending.version pending.epoch }
  | none =>
    -- a first install that never went through a pending marker
    if disk.state.installedVersion.isNone then
      { disk with state := disk.state.confirmInstall running 0 }
    else disk

theorem confirm_eq (running : String) (pending : Option PendingInstall) :
    ∃ state, disk.confirm running pending = { disk with state } := by
  unfold confirm
  split
  · exact ⟨_, rfl⟩
  · split
    · exact ⟨_, rfl⟩
    · exact ⟨disk.state, rfl⟩

end Disk

/-! ### Processes -/

inductive Plan where
  | appImage
  | appBundle
deriving DecidableEq, Repr

def Plan.pending (plan : Plan) (version : String) (epoch : Nat) (target previous : Path) :
    PendingInstall :=
  match plan with
  | .appImage => (PendingInstall.forAppimage version epoch target).withPrevious (some previous)
  | .appBundle => (PendingInstall.forBundle version epoch target).withPrevious (some previous)

/-- A bundle swap that waits for its process to exit. -/
structure Swap (Build : Type) where
  pending : PendingInstall
  build : Build
deriving DecidableEq, Repr

/-- The install thread, within `apply`. -/
inductive Installing (Build : Type) where
  | idle
  | backedUp (plan : Plan) (target previous : Path)
  | marked (plan : Plan) (pending : PendingInstall)
  /-- The new build is in place and the process is about to exit. -/
  | applied
  /-- The swap script has been started and the process is about to exit. -/
  | spawned (swap : Swap Build)
deriving DecidableEq, Repr

/-- The health watch, within `confirm_healthy`. -/
inductive Watch where
  | waiting
  | marked
  | cleared (pending : Option PendingInstall)
  | over
deriving DecidableEq, Repr

structure Proc (Build : Type) where
  /-- Whether `main` is past `recover`. -/
  recovered : Bool
  installing : Installing Build
  watch : Watch

structure State (Build : Type) where
  disk : Disk Build
  proc : Option (Proc Build)
  /-- The swap scripts whose process has exited. -/
  scripts : List (Swap Build)

inductive Label (Build : Type) where
  | start (exe : Path)
  | recover (io : RecoverIo Build)
  | backup (plan : Plan) (target : Path) (copied : Except (Option Build) Unit)
  | writePending (version : String) (epoch : Nat) (ok : Bool)
  | replaceFile (staged : Build)
  /-- `replace_file` fails, after or before it replaced the file, and the marker is removed. -/
  | replaceFails (replaced : Option Build) (pendingRemoved : Bool)
  | spawnScript (staged : Build) (ok : Bool)
  /-- A script ends with its build in place. -/
  | scriptSwaps (i : Nat)
  | scriptFails (i : Nat) (leftover : Option Build)
  | markHealthy (ok : Bool)
  | clearPending (ok : Bool)
  | confirm (running : String) (ok : Bool)
  | die

namespace State

variable {Build : Type} (root : Path) (s : State Build)

def withProc (proc : Proc Build) : State Build := { s with proc := some proc }

def step (l : Label Build) : Option (State Build) :=
  match l, s.proc with
  | .start exe, none =>
    if (s.disk.files exe).isSome then some (s.withProc ⟨false, .idle, .waiting⟩) else none
  | .recover io, some ⟨false, installing, watch⟩ =>
    some { s with disk := (s.disk.recover io).1, proc := some ⟨true, installing, watch⟩ }
  | .backup plan target copied, some ⟨true, .idle, watch⟩ =>
    match s.disk.backup root target copied with
    | (disk, .ok previous) =>
      some { s with disk, proc := some ⟨true, .backedUp plan target previous, watch⟩ }
    | (disk, .error _) => some { s with disk }
  | .writePending version epoch ok, some ⟨true, .backedUp plan target previous, watch⟩ =>
    if ok then
      let pending := plan.pending version epoch target previous
      some {
        s with
        disk := { s.disk with pending := some pending }
        proc := some ⟨true, .marked plan pending, watch⟩ }
    else some (s.withProc ⟨true, .idle, watch⟩)
  | .replaceFile staged, some ⟨true, .marked .appImage pending, watch⟩ =>
    some {
      s with
      disk := s.disk.write pending.target (some staged)
      proc := some ⟨true, .applied, watch⟩ }
  | .replaceFails replaced pendingRemoved, some ⟨true, .marked .appImage pending, watch⟩ =>
    let disk := if replaced.isSome then s.disk.write pending.target replaced else s.disk
    some {
      s with
      disk := disk.removePending pendingRemoved
      proc := some ⟨true, .idle, watch⟩ }
  | .spawnScript staged ok, some ⟨true, .marked .appBundle pending, watch⟩ =>
    -- the marker stays when the script could not be started
    some (s.withProc ⟨true, if ok then .spawned ⟨pending, staged⟩ else .idle, watch⟩)
  | .scriptSwaps i, _ =>
    match s.scripts[i]? with
    | some swap =>
      some {
        s with
        disk := s.disk.write swap.pending.target (some swap.build)
        scripts := s.scripts.eraseIdx i }
    | none => none
  | .scriptFails i leftover, _ =>
    match s.scripts[i]? with
    | some swap =>
      some {
        s with
        disk := s.disk.write swap.pending.target leftover
        scripts := s.scripts.eraseIdx i }
    | none => none
  | .markHealthy ok, some ⟨true, installing, .waiting⟩ =>
    if ok then
      some { s with
        disk := { s.disk with healthy := true }, proc := some ⟨true, installing, .marked⟩ }
    else some (s.withProc ⟨true, installing, .over⟩)
  | .clearPending ok, some ⟨true, installing, .marked⟩ =>
    if ok then
      some {
        s with
        disk := { s.disk with pending := none }
        proc := some ⟨true, installing, .cleared s.disk.pending⟩ }
    else some (s.withProc ⟨true, installing, .over⟩)
  | .confirm running ok, some ⟨true, installing, .cleared pending⟩ =>
    some {
      s with
      disk := if ok then s.disk.confirm running pending else s.disk
      proc := some ⟨true, installing, .over⟩ }
  | .die, some proc =>
    some {
      s with
      proc := none
      scripts :=
        match proc.installing with
        | .spawned swap => s.scripts ++ [swap]
        | _ => s.scripts }
  | _, _ => none

/-- The ways a step can go. -/
inductive Steps (root : Path) (s : State Build) : Label Build → State Build → Prop
  | start {exe : Path} (hproc : s.proc = none) (hexe : (s.disk.files exe).isSome = true) :
    Steps root s (.start exe) (s.withProc ⟨false, .idle, .waiting⟩)
  | recover {io : RecoverIo Build} {installing : Installing Build} {watch : Watch}
    (hproc : s.proc = some ⟨false, installing, watch⟩) :
    Steps root s (.recover io)
      { s with disk := (s.disk.recover io).1, proc := some ⟨true, installing, watch⟩ }
  | backup {plan : Plan} {target previous : Path} {copied : Except (Option Build) Unit}
    {watch : Watch} {disk : Disk Build} (hproc : s.proc = some ⟨true, .idle, watch⟩)
    (hbackup : s.disk.backup root target copied = (disk, .ok previous)) :
    Steps root s (.backup plan target copied)
      { s with disk, proc := some ⟨true, .backedUp plan target previous, watch⟩ }
  | backupFails {plan : Plan} {target : Path} {copied : Except (Option Build) Unit}
    {watch : Watch} {disk : Disk Build} {error : InstallError}
    (hproc : s.proc = some ⟨true, .idle, watch⟩)
    (hbackup : s.disk.backup root target copied = (disk, .error error)) :
    Steps root s (.backup plan target copied) { s with disk }
  | writePending {version : String} {epoch : Nat} {plan : Plan} {target previous : Path}
    {watch : Watch} (hproc : s.proc = some ⟨true, .backedUp plan target previous, watch⟩) :
    Steps root s (.writePending version epoch true) {
      s with
      disk := { s.disk with pending := some (plan.pending version epoch target previous) }
      proc := some ⟨true, .marked plan (plan.pending version epoch target previous), watch⟩ }
  | writeFails {version : String} {epoch : Nat} {plan : Plan} {target previous : Path}
    {watch : Watch} (hproc : s.proc = some ⟨true, .backedUp plan target previous, watch⟩) :
    Steps root s (.writePending version epoch false) (s.withProc ⟨true, .idle, watch⟩)
  | replaceFile {staged : Build} {pending : PendingInstall} {watch : Watch}
    (hproc : s.proc = some ⟨true, .marked .appImage pending, watch⟩) :
    Steps root s (.replaceFile staged) {
      s with
      disk := s.disk.write pending.target (some staged)
      proc := some ⟨true, .applied, watch⟩ }
  | replaceFails {replaced : Option Build} {removed : Bool} {pending : PendingInstall}
    {watch : Watch} (hproc : s.proc = some ⟨true, .marked .appImage pending, watch⟩) :
    Steps root s (.replaceFails replaced removed) {
      s with
      disk := (if replaced.isSome then s.disk.write pending.target replaced
        else s.disk).removePending removed
      proc := some ⟨true, .idle, watch⟩ }
  | spawnScript {staged : Build} {ok : Bool} {pending : PendingInstall} {watch : Watch}
    (hproc : s.proc = some ⟨true, .marked .appBundle pending, watch⟩) :
    Steps root s (.spawnScript staged ok)
      (s.withProc ⟨true, if ok then .spawned ⟨pending, staged⟩ else .idle, watch⟩)
  | scriptSwaps {i : Nat} {swap : Swap Build} (hscript : s.scripts[i]? = some swap) :
    Steps root s (.scriptSwaps i) {
      s with
      disk := s.disk.write swap.pending.target (some swap.build)
      scripts := s.scripts.eraseIdx i }
  | scriptFails {i : Nat} {leftover : Option Build} {swap : Swap Build}
    (hscript : s.scripts[i]? = some swap) :
    Steps root s (.scriptFails i leftover) {
      s with
      disk := s.disk.write swap.pending.target leftover
      scripts := s.scripts.eraseIdx i }
  | markHealthy {installing : Installing Build}
    (hproc : s.proc = some ⟨true, installing, .waiting⟩) :
    Steps root s (.markHealthy true)
      { s with disk := { s.disk with healthy := true }, proc := some ⟨true, installing, .marked⟩ }
  | markFails {installing : Installing Build}
    (hproc : s.proc = some ⟨true, installing, .waiting⟩) :
    Steps root s (.markHealthy false) (s.withProc ⟨true, installing, .over⟩)
  | clearPending {installing : Installing Build}
    (hproc : s.proc = some ⟨true, installing, .marked⟩) :
    Steps root s (.clearPending true) {
      s with
      disk := { s.disk with pending := none }
      proc := some ⟨true, installing, .cleared s.disk.pending⟩ }
  | clearFails {installing : Installing Build}
    (hproc : s.proc = some ⟨true, installing, .marked⟩) :
    Steps root s (.clearPending false) (s.withProc ⟨true, installing, .over⟩)
  | confirm {running : String} {ok : Bool} {installing : Installing Build}
    {pending : Option PendingInstall}
    (hproc : s.proc = some ⟨true, installing, .cleared pending⟩) :
    Steps root s (.confirm running ok) {
      s with
      disk := if ok then s.disk.confirm running pending else s.disk
      proc := some ⟨true, installing, .over⟩ }
  | die {proc : Proc Build} (hproc : s.proc = some proc) :
    Steps root s .die {
      s with
      proc := none
      scripts :=
        match proc.installing with
        | .spawned swap => s.scripts ++ [swap]
        | _ => s.scripts }

variable {root} {s}

theorem steps_of_step {l : Label Build} {s' : State Build} (h : s.step root l = some s') :
    Steps root s l s' := by
  unfold step at h
  split at h
  · next exe hproc =>
    split at h
    · next hexe =>
      cases h
      exact .start hproc hexe
    · cases h
  · next io installing watch hproc =>
    cases h
    exact .recover hproc
  · next plan target copied watch hproc =>
    split at h
    · next disk previous hbackup =>
      cases h
      exact .backup hproc hbackup
    · next disk error hbackup =>
      cases h
      exact .backupFails hproc hbackup
  · next version epoch ok plan target previous watch hproc =>
    cases ok with
    | true =>
      cases h
      exact .writePending hproc
    | false =>
      cases h
      exact .writeFails hproc
  · next hproc =>
    cases h
    exact .replaceFile hproc
  · next hproc =>
    cases h
    exact .replaceFails hproc
  · next hproc =>
    cases h
    exact .spawnScript hproc
  · split at h
    · next hscript =>
      cases h
      exact .scriptSwaps hscript
    · cases h
  · split at h
    · next hscript =>
      cases h
      exact .scriptFails hscript
    · cases h
  · next ok installing hproc =>
    cases ok with
    | true =>
      cases h
      exact .markHealthy hproc
    | false =>
      cases h
      exact .markFails hproc
  · next ok installing hproc =>
    cases ok with
    | true =>
      cases h
      exact .clearPending hproc
    | false =>
      cases h
      exact .clearFails hproc
  · next hproc =>
    cases h
    exact .confirm hproc
  · next proc hproc =>
    cases h
    exact .die hproc
  · cases h

end State

/-- The installation, from a home without markers. -/
def updates {Build : Type} (root : Path) (files : Path → Option Build) :
    Machine (State Build) (Label Build) where
  init := ⟨⟨files, none, false, .empty⟩, none, []⟩
  step s l := s.step root l

/-! ### The history -/

structure Install (Build : Type) where
  pending : PendingInstall
  copy : Option Build
  swapped : Bool
  /-- The process that runs now was started from it. -/
  current : Bool
  /-- A process that was started from it ended before a healthy marker was written. -/
  ended : Bool
  vouched : Bool
deriving DecidableEq, Repr

structure History (Build : Type) where
  /-- What the last `backup` copied. -/
  copied : Option Build
  install : Option (Install Build)

namespace History

variable {Build : Type}

def new : History Build := ⟨none, none⟩

def onInstall (h : History Build) (f : Install Build → Install Build) : History Build :=
  { h with install := h.install.map f }

def record (s : State Build) (l : Label Build) (s' : State Build) (h : History Build) :
    History Build :=
  match l with
  | .backup _ _ _ =>
    match s'.proc with
    | some ⟨_, .backedUp _ _ previous, _⟩ => { h with copied := s'.disk.files previous }
    | _ => h
  | .writePending _ _ true =>
    { h with
      install := s'.disk.pending.map fun pending =>
        ⟨pending, h.copied, false, false, false, false⟩ }
  | .replaceFile _ => h.onInstall fun i => { i with swapped := true }
  | .scriptSwaps n =>
    h.onInstall fun i =>
      { i with swapped := i.swapped || (s.scripts[n]?.map Swap.pending == some i.pending) }
  | .start exe => h.onInstall fun i => { i with current := i.swapped && exe == i.pending.target }
  | .markHealthy true => h.onInstall fun i => { i with vouched := true }
  | .die =>
    h.onInstall fun i =>
      { i with ended := i.ended || (i.current && !i.vouched), current := false }
  | _ => h

end History

def updateHistory {Build : Type} (root : Path) (files : Path → Option Build) :
    Machine (State Build × History Build) (Label Build) :=
  (updates root files).withHistory .new History.record

end Goble.Update
