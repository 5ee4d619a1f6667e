import Goble.Update.Install

/-!
# Putting a build back, call by call

`restore` puts the previous copy back over a build that failed, and `InstallPlan::apply` puts a new
AppImage over the running one. Each call on files is one step and may fail; a crash may come after
any of them. So `restore` is a list of the states between its calls (`Restoring`), and what a crash
can leave is one of these.

A single file is copied beside the target and renamed over it. A bundle is not: the failed build is
moved away and the copy is made in place, and until it is through, a part of a bundle stands at the
target (`crashSafe_iff`). An AppImage that is in place and cannot be made executable is reported
like one that was never put there (`keepsTarget_iff`).

A file or a directory is a `Tree`, seen through its links. No path that is used here is inside
another one.
-/

namespace Goble.Update

mutual

inductive Tree where
  | file (bytes : List UInt8)
  | dir (entries : Entries)
deriving DecidableEq, Repr

/-- The entries of a directory, in the order in which `read_dir` lists them. -/
inductive Entries where
  | nil
  | cons (name : String) (tree : Tree) (rest : Entries)
deriving DecidableEq, Repr

end

def Entries.push (name : String) (tree : Tree) : Entries → Entries
  | nil => cons name tree nil
  | cons name' tree' rest => cons name' tree' (rest.push name tree)

def Entries.append : Entries → Entries → Entries
  | nil, entries => entries
  | cons name tree rest, entries => cons name tree (rest.append entries)

abbrev Files := Path → Option Tree

namespace Files

variable (files : Files)

def put (path : Path) (tree : Option Tree) : Files := Function.update files path tree

/-- `std::fs::rename`, when it succeeds. -/
def rename (source dest : Path) : Files :=
  if source = dest then files else (files.put dest (files source)).put source none

end Files

/-- The path with something at the end of its last name. -/
def withSuffix (path : Path) (suffix : String) : Path :=
  path.dropLast ++ [path.getLastD "" ++ suffix]

/-! ### Restoring -/

/-- The states that a number of calls go through, and the number of the next call, `none` if one of
them failed. -/
structure Copying where
  trees : List Tree
  next : Option Nat

mutual

/-- `copy_tree`, or the copy of one file: what stands at the target after each call that changes
it. `wrap` is the tree it is made in; the calls are numbered from `n` on, and `ok` says which of
them succeed. -/
def copyTree (ok : Nat → Bool) (wrap : Tree → Tree) (n : Nat) : Tree → Copying
  | .file bytes => if ok n then ⟨[wrap (.file bytes)], some (n + 1)⟩ else ⟨[], none⟩
  | .dir entries =>
    if ok n then
      -- the directory is there; now it is read
      if ok (n + 1) then
        let copied := copyEntries ok wrap (n + 2) .nil entries
        ⟨wrap (.dir .nil) :: copied.trees, copied.next⟩
      else ⟨[wrap (.dir .nil)], none⟩
    else ⟨[], none⟩

def copyEntries (ok : Nat → Bool) (wrap : Tree → Tree) (n : Nat) (done : Entries) :
    Entries → Copying
  | .nil => ⟨[], some n⟩
  | .cons name tree rest =>
    let first := copyTree ok (fun partly => wrap (.dir (done.push name partly))) n tree
    match first.next with
    | none => first
    | some n =>
      let others := copyEntries ok wrap n (done.push name tree) rest
      ⟨first.trees ++ others.trees, others.next⟩

end

structure RestoreIo where
  /-- `remove_dir_all` of what an earlier restore moved away. -/
  failedRemoved : Bool
  /-- The rename of the target, or over it. -/
  renamed : Bool
  copied : Nat → Bool
  executable : Bool
  failedRemovedAgain : Bool

/-- The states between the calls of a restore, the first one included, and how it ended. -/
structure Restoring where
  states : List Files
  result : Except InstallError Unit

/-- `remove_dir_all`, when its error is ignored. -/
def Files.removeIf (files : Files) (removed : Bool) (path : Path) : Files :=
  if removed then files.put path none else files

def copyInPlace (io : RestoreIo) (moved : Files) (copy : Tree) (target failed : Path) : Restoring :=
  let copying := copyTree io.copied id 0 copy
  let copied := copying.trees.map fun tree => moved.put target (some tree)
  match copying.next with
  | none => ⟨moved :: copied, .error (.io target)⟩
  | some _ =>
    let ended := (copied.getLastD moved).removeIf io.failedRemovedAgain failed
    ⟨moved :: (copied ++ [ended]), .ok ()⟩

/-- A bundle is put back: the failed build is moved away and the copy is made in its place. -/
def restoreDir (io : RestoreIo) (files : Files) (copy : Tree) (target failed : Path) : Restoring :=
  let cleared := files.removeIf io.failedRemoved failed
  if (cleared target).isSome && !io.renamed then ⟨[files, cleared], .error (.io target)⟩
  else
    let moved := if (cleared target).isSome then cleared.rename target failed else cleared
    let copying := copyInPlace io moved copy target failed
    ⟨files :: cleared :: copying.states, copying.result⟩

def restoreFile (io : RestoreIo) (files : Files) (previous target staged : Path) : Restoring :=
  match files previous with
  | none => ⟨[files], .error (.io staged)⟩
  | some copy =>
    if !io.copied 0 then ⟨[files], .error (.io staged)⟩
    else
      let copied := files.put staged (some copy)
      if !io.executable then ⟨[files, copied], .error (.io staged)⟩
      else if !io.renamed then ⟨[files, copied], .error (.io target)⟩
      else ⟨[files, copied, copied.rename staged target], .ok ()⟩

/-- Put `previous` back over `target`. -/
def restore (io : RestoreIo) (files : Files) (previous target : Path) : Restoring :=
  match fileName target with
  | none => ⟨[files], .error (.noBackup target)⟩
  | some _ =>
    match files previous with
    | some (.dir entries) => restoreDir io files (.dir entries) target (withSuffix target ".failed")
    | _ => restoreFile io files previous target (withSuffix target ".rollback")

/-! ### Replacing -/

structure ReplaceIo where
  renamed : Bool
  executable : Bool
  /-- The copy to the target's file system; one that fails leaves something behind. -/
  copied : Except (Option Tree) Unit
  copyExecutable : Bool
  copyRenamed : Bool
  stagedRemoved : Bool

/-- Replace one file with another, across a device boundary if need be. -/
def replaceFile (io : ReplaceIo) (files : Files) (staged target : Path) :
    Files × Except InstallError Unit :=
  if io.renamed && (files staged).isSome then
    let files := files.rename staged target
    if io.executable then (files, .ok ()) else (files, .error (.io target))
  else
    let temporary := withSuffix target ".new"
    match files staged, io.copied with
    | none, _ => (files, .error (.io temporary))
    | some _, .error leftover => (files.put temporary leftover, .error (.io temporary))
    | some build, .ok () =>
      let files := files.put temporary (some build)
      if !io.copyExecutable then (files, .error (.io temporary))
      else if !io.copyRenamed then (files, .error (.io target))
      else ((files.rename temporary target).removeIf io.stagedRemoved staged, .ok ())

structure ApplyIo where
  copied : Except (Option Tree) Unit
  pendingWritten : Bool
  replace : ReplaceIo
  pendingRemoved : Bool

/-- `InstallPlan::apply` of a `ReplaceAppImage`. -/
def applyAppImage (root : Path) (version : String) (epoch : Nat) (io : ApplyIo)
    (disk : Disk Tree) (staged target : Path) : Disk Tree × Except InstallError Unit :=
  match disk.backup root target io.copied with
  | (disk, .error error) => (disk, .error error)
  | (disk, .ok previous) =>
    if !io.pendingWritten then (disk, .error (.io (root ++ ["pending"])))
    else
      let pending := Plan.appImage.pending version epoch target previous
      match replaceFile io.replace disk.files staged target with
      | (files, .ok ()) => ({ disk with pending := some pending, files }, .ok ())
      | (files, .error error) =>
        (Disk.removePending { disk with pending := some pending, files } io.pendingRemoved,
          .error error)

/-! ### What a crash finds -/

/-- A complete build stands at the target: what was there before the restore, or the copy. -/
def Whole (files : Files) (previous target : Path) (state : Files) : Prop :=
  state target = files target ∨ state target = files previous

/-- **Crash safety.** In every state the previous copy is intact, and the target holds a complete
build or is absent for one step, after which it holds one. -/
def CrashSafe (files : Files) (previous target : Path) : List Files → Prop
  | [] => True
  | state :: rest =>
    state previous = files previous ∧
      (Whole files previous target state ∨
        state target = none ∧ ∃ next ∈ rest.head?, Whole files previous target next) ∧
      CrashSafe files previous target rest

def KeepsTarget (root : Path) (version : String) (epoch : Nat) (io : ApplyIo) (disk : Disk Tree)
    (staged target : Path) : Prop :=
  ∀ error, (applyAppImage root version epoch io disk staged target).2 = .error error →
    (applyAppImage root version epoch io disk staged target).1.files target = disk.files target

/-- The new file is renamed over the target and cannot be made executable. A staged file that lies
where the backup goes has been replaced by the old one. -/
structure SwapsThenFails (root : Path) (io : ApplyIo) (disk : Disk Tree) (staged target : Path) :
    Prop where
  backedUp : ∃ previous, (disk.backup root target io.copied).2 = .ok previous
  pendingWritten : io.pendingWritten = true
  renamed : io.replace.renamed = true
  staged_isSome : (disk.files staged).isSome = true
  staged_ne : ∀ name ∈ fileName target, staged ≠ Disk.previousDir root ++ [name]
  differs : disk.files staged ≠ disk.files target
  executable : io.replace.executable = false

def NoCopyInPlace (io : RestoreIo) (files : Files) (previous target : Path) : Prop :=
  (∀ entries, files previous ≠ some (.dir entries)) ∨
    (files target).isSome = true ∧ io.renamed = false ∨
    files target = none ∧ io.copied 0 = false

/-- The previous copy as `backup` makes it: a build under the name of the target. An empty directory
is no build. -/
structure Restorable (files : Files) (previous target : Path) : Prop where
  copy : (files previous).isSome = true
  copy_ne : files previous ≠ some (.dir .nil)
  target_ne : files target ≠ some (.dir .nil)
  named : (fileName target).isSome = true
  name : fileName previous = fileName target

theorem getLastD_eq_of_fileName {path : Path} {name : String} (h : fileName path = some name) :
    path.getLastD "" = name ∧ name ≠ ".." := by
  obtain ⟨hlast, hname⟩ := Option.filter_eq_some_iff.mp h
  rw [List.getLastD_eq_getLast?, hlast]
  exact ⟨rfl, of_decide_eq_true hname⟩

theorem ne_withSuffix {path target : Path} {suffix : String}
    (hnamed : (fileName target).isSome = true) (hname : fileName path = fileName target)
    (hsuffix : suffix ≠ "") : path ≠ withSuffix target suffix := by
  rintro rfl
  obtain ⟨name, hfile⟩ := Option.isSome_iff_exists.mp hnamed
  have hlast := (getLastD_eq_of_fileName (hname.trans hfile)).1
  rw [withSuffix, List.getLastD_concat, (getLastD_eq_of_fileName hfile).1] at hlast
  exact hsuffix (String.append_eq_left_iff.mp hlast)

namespace Files

variable {files : Files} {path other : Path}

theorem put_self (tree : Option Tree) : files.put path tree path = tree :=
  Function.update_self _ _ _

theorem put_of_ne (tree : Option Tree) (h : other ≠ path) :
    files.put path tree other = files other := Function.update_of_ne h _ _

theorem removeIf_of_ne (removed : Bool) (h : other ≠ path) :
    files.removeIf removed path other = files other := by
  cases removed with
  | true => exact put_of_ne none h
  | false => rfl

theorem rename_source {source dest : Path} (h : source ≠ dest) :
    files.rename source dest source = none := by
  rw [rename, if_neg h, put_self]

theorem rename_dest {source dest : Path} (h : source ≠ dest) :
    files.rename source dest dest = files source := by
  rw [rename, if_neg h, put_of_ne none h.symm, put_self]

theorem rename_of_ne {source dest : Path} (hsource : other ≠ source) (hdest : other ≠ dest) :
    files.rename source dest other = files other := by
  unfold rename
  split
  · rfl
  · rw [put_of_ne none hsource, put_of_ne _ hdest]

end Files

section Restore

variable {io : RestoreIo} {files : Files} {previous target : Path}

theorem CrashSafe.singleton : CrashSafe files previous target [files] :=
  ⟨rfl, .inl (.inl rfl), trivial⟩

theorem restoreFile_crashSafe {staged : Path} (hprevious : previous ≠ staged)
    (htarget : target ≠ staged) :
    CrashSafe files previous target (restoreFile io files previous target staged).states := by
  unfold restoreFile
  cases hcopy : files previous with
  | none => exact .singleton
  | some copy =>
    have hcopied : (files.put staged (some copy)) previous = files previous ∧
        (files.put staged (some copy)) target = files target :=
      ⟨Files.put_of_ne _ hprevious, Files.put_of_ne _ htarget⟩
    cases io.copied 0 with
    | false => exact .singleton
    | true =>
      cases io.executable with
      | false => exact ⟨rfl, .inl (.inl rfl), hcopied.1, .inl (.inl hcopied.2), trivial⟩
      | true =>
        cases io.renamed with
        | false => exact ⟨rfl, .inl (.inl rfl), hcopied.1, .inl (.inl hcopied.2), trivial⟩
        | true =>
          have hplaced : ((files.put staged (some copy)).rename staged target) target =
              files previous := by
            rw [Files.rename_dest htarget.symm, Files.put_self, hcopy]
          refine ⟨rfl, .inl (.inl rfl), hcopied.1, .inl (.inl hcopied.2), ?_, .inl (.inr hplaced),
            trivial⟩
          by_cases hsame : previous = target
          · rw [hsame] at hplaced ⊢
            exact hplaced
          · rw [Files.rename_of_ne hprevious hsame]
            exact hcopied.1

/-- The first call of a copy makes an empty directory. -/
theorem copyTree_dir (ok : Nat → Bool) (wrap : Tree → Tree) (n : Nat) (entries : Entries) :
    (ok n = false ∧ copyTree ok wrap n (.dir entries) = ⟨[], none⟩) ∨
      ∃ trees next, ok n = true ∧
        copyTree ok wrap n (.dir entries) = ⟨wrap (.dir .nil) :: trees, next⟩ := by
  rw [copyTree]
  cases hmade : ok n with
  | false => exact .inl ⟨rfl, rfl⟩
  | true =>
    refine .inr ?_
    cases hread : ok (n + 1) with
    | false => exact ⟨[], none, rfl, rfl⟩
    | true => exact ⟨_, _, rfl, rfl⟩

/-- The states of a copy in place: none after the first if its first call fails, else one with an
empty directory. -/
theorem copyInPlace_states (io : RestoreIo) (moved : Files) (entries : Entries)
    (target failed : Path) :
    (io.copied 0 = false ∧ (copyInPlace io moved (.dir entries) target failed).states = [moved]) ∨
      io.copied 0 = true ∧
        ∃ more, (copyInPlace io moved (.dir entries) target failed).states =
          moved :: moved.put target (some (.dir .nil)) :: more := by
  rw [copyInPlace]
  obtain ⟨hfails, hcopy⟩ | ⟨trees, next, hmade, hcopy⟩ := copyTree_dir io.copied id 0 entries
  · rw [hcopy]
    exact .inl ⟨hfails, rfl⟩
  · rw [hcopy]
    refine .inr ⟨hmade, ?_⟩
    cases next with
    | none => exact ⟨_, rfl⟩
    | some n => exact ⟨_, rfl⟩

theorem Restorable.not_whole (h : Restorable files previous target) {state : Files}
    (hstate : state target = some (.dir .nil)) : ¬ Whole files previous target state := by
  rintro (htarget | hcopy)
  · exact h.target_ne (htarget.symm.trans hstate)
  · exact h.copy_ne (hcopy.symm.trans hstate)

theorem restoreDir_crashSafe_iff (h : Restorable files previous target) {failed : Path}
    (hprevious : previous ≠ failed) (htarget : target ≠ failed) (entries : Entries) :
    CrashSafe files previous target (restoreDir io files (.dir entries) target failed).states ↔
      (files target).isSome = true ∧ io.renamed = false ∨
        files target = none ∧ io.copied 0 = false := by
  have hcleared : (files.removeIf io.failedRemoved failed) target = files target :=
    Files.removeIf_of_ne _ htarget
  have hkept : (files.removeIf io.failedRemoved failed) previous = files previous :=
    Files.removeIf_of_ne _ hprevious
  rw [restoreDir]
  dsimp only
  rw [hcleared]
  cases hbuild : files target with
  | none =>
    show CrashSafe files previous target (files :: files.removeIf io.failedRemoved failed ::
      (copyInPlace io (files.removeIf io.failedRemoved failed) _ target failed).states) ↔ _
    obtain ⟨hfails, hstates⟩ | ⟨hmade, more, hstates⟩ := copyInPlace_states io
      (files.removeIf io.failedRemoved failed) entries target failed
    · rw [hstates]
      refine iff_of_true ?_ (.inr ⟨rfl, hfails⟩)
      exact ⟨rfl, .inl (.inl rfl), hkept, .inl (.inl hcleared), hkept, .inl (.inl hcleared),
        trivial⟩
    · rw [hstates]
      refine iff_of_false ?_ ?_
      · rintro ⟨-, -, -, -, -, -, -, hpart | ⟨hnone, -⟩, -⟩
        · exact h.not_whole (Files.put_self _) hpart
        · rw [Files.put_self] at hnone
          cases hnone
      · rintro (⟨hsome, -⟩ | ⟨-, hfails⟩)
        · cases hsome
        · rw [hmade] at hfails
          cases hfails
  | some build =>
    cases hrenamed : io.renamed with
    | false =>
      refine iff_of_true ?_ (.inl ⟨rfl, rfl⟩)
      exact ⟨rfl, .inl (.inl rfl), hkept, .inl (.inl hcleared), trivial⟩
    | true =>
      show CrashSafe files previous target (files :: files.removeIf io.failedRemoved failed ::
        (copyInPlace io ((files.removeIf io.failedRemoved failed).rename target failed) _ target
          failed).states) ↔ _
      have hmoved : (files.removeIf io.failedRemoved failed).rename target failed target = none :=
        Files.rename_source htarget
      refine iff_of_false ?_ ?_
      · -- the state without a target is not followed by one with a whole build
        have hnot : ¬ Whole files previous target
            ((files.removeIf io.failedRemoved failed).rename target failed) := by
          rintro (hsame | hcopy)
          · rw [hmoved, hbuild] at hsame
            cases hsame
          · have hsome := h.copy
            rw [← hcopy, hmoved] at hsome
            cases hsome
        obtain ⟨hfails, hstates⟩ | ⟨hmade, more, hstates⟩ := copyInPlace_states io
          ((files.removeIf io.failedRemoved failed).rename target failed) entries target failed
        · rw [hstates]
          rintro ⟨-, -, -, -, -, hwhole | ⟨-, next, hnext, -⟩, -⟩
          · exact hnot hwhole
          · cases hnext
        · rw [hstates]
          rintro ⟨-, -, -, -, -, hwhole | ⟨-, next, hnext, hwhole⟩, -⟩
          · exact hnot hwhole
          · obtain rfl := Option.some.inj hnext
            exact h.not_whole (Files.put_self _) hwhole
      · rintro (⟨-, hfails⟩ | ⟨hnone, -⟩)
        · cases hfails
        · cases hnone

theorem Entries.append_push (name : String) (tree : Tree) (rest : Entries) :
    ∀ done : Entries, (done.push name tree).append rest = done.append (.cons name tree rest)
  | .nil => rfl
  | .cons name' tree' done => by rw [push, append, append_push name tree rest done, append]

theorem Entries.append_nil : ∀ entries : Entries, entries.append .nil = entries
  | .nil => rfl
  | .cons name tree rest => by rw [append, append_nil rest]

theorem getLast?_append_of_cons {α : Type} {first second : List α} {a b : α}
    (hfirst : first.getLast? = some a) (hsecond : (a :: second).getLast? = some b) (c : α) :
    (c :: (first ++ second)).getLast? = some b := by
  obtain ⟨front, rfl⟩ := List.getLast?_eq_some_iff.mp hfirst
  rw [List.append_assoc, List.singleton_append, ← List.cons_append, List.getLast?_append,
    hsecond]
  rfl

mutual

theorem copyTree_getLast? (ok : Nat → Bool) (wrap : Tree → Tree) (n : Nat) (tree : Tree) :
    (copyTree ok wrap n tree).next.isSome = true →
      (copyTree ok wrap n tree).trees.getLast? = some (wrap tree) := by
  intro hnext
  cases tree with
  | file bytes =>
    rw [copyTree] at hnext ⊢
    split at hnext
    · next hok => rw [if_pos hok]; rfl
    · cases hnext
  | dir entries =>
    rw [copyTree] at hnext ⊢
    split at hnext
    · next hmade =>
      split at hnext
      · next hread =>
        rw [if_pos hmade, if_pos hread]
        exact copyEntries_getLast? ok wrap (n + 2) .nil entries hnext
      · cases hnext
    · cases hnext

theorem copyEntries_getLast? (ok : Nat → Bool) (wrap : Tree → Tree) (n : Nat)
    (done entries : Entries) :
    (copyEntries ok wrap n done entries).next.isSome = true →
      (wrap (.dir done) :: (copyEntries ok wrap n done entries).trees).getLast? =
        some (wrap (.dir (done.append entries))) := by
  intro hnext
  cases entries with
  | nil =>
    rw [Entries.append_nil]
    rfl
  | cons name tree rest =>
    have hfirst := copyTree_getLast? ok (fun partly => wrap (.dir (done.push name partly))) n tree
    rw [copyEntries] at hnext ⊢
    split at hnext
    · next hnone =>
      rw [hnone] at hnext
      cases hnext
    · next m hsome =>
      rw [hsome] at hfirst
      have hrest := copyEntries_getLast? ok wrap m (done.push name tree) rest hnext
      rw [Entries.append_push] at hrest
      exact getLast?_append_of_cons (hfirst rfl) hrest _

end

theorem copyInPlace_target {moved : Files} {entries : Entries} {failed : Path}
    (htarget : target ≠ failed)
    (hok : (copyInPlace io moved (.dir entries) target failed).result = .ok ()) :
    ∃ state, (copyInPlace io moved (.dir entries) target failed).states.getLast? = some state ∧
      state target = some (.dir entries) := by
  rw [copyInPlace] at hok ⊢
  dsimp only at hok ⊢
  split at hok
  · cases hok
  · next n hnext =>
    have hlast := copyTree_getLast? io.copied id 0 (.dir entries) (by rw [hnext]; rfl)
    refine ⟨_, List.getLast?_concat (l := moved :: _), ?_⟩
    rw [Files.removeIf_of_ne _ htarget, List.getLastD_eq_getLast?, List.getLast?_map, hlast]
    exact Files.put_self _

theorem restore_target (h : Restorable files previous target)
    (hok : (restore io files previous target).result = .ok ()) :
    ∃ state, (restore io files previous target).states.getLast? = some state ∧
      state target = files previous := by
  have hfailed : target ≠ withSuffix target ".failed" :=
    ne_withSuffix h.named rfl (by decide)
  have hstaged : target ≠ withSuffix target ".rollback" :=
    ne_withSuffix h.named rfl (by decide)
  obtain ⟨name, hname⟩ := Option.isSome_iff_exists.mp h.named
  obtain ⟨copy, hcopy⟩ := Option.isSome_iff_exists.mp h.copy
  rw [restore, hname, hcopy] at hok ⊢
  cases copy with
  | file bytes =>
    dsimp only at hok ⊢
    rw [restoreFile, hcopy] at hok ⊢
    dsimp only at hok ⊢
    split at hok
    · cases hok
    · next hcopied =>
      split at hok
      · cases hok
      · next hexecutable =>
        split at hok
        · cases hok
        · next hrenamed =>
          rw [if_neg hcopied, if_neg hexecutable, if_neg hrenamed]
          exact ⟨_, rfl, (Files.rename_dest hstaged.symm).trans (Files.put_self _)⟩
  | dir entries =>
    dsimp only at hok ⊢
    rw [restoreDir] at hok ⊢
    dsimp only at hok ⊢
    split at hok
    · cases hok
    · next hgoes =>
      rw [if_neg hgoes]
      obtain ⟨state, hlast, hstate⟩ := copyInPlace_target hfailed hok
      refine ⟨state, ?_, hstate⟩
      show ([files, _] ++ (copyInPlace ..).states).getLast? = some state
      rw [List.getLast?_append, hlast]
      rfl

theorem crashSafe_iff (h : Restorable files previous target) :
    CrashSafe files previous target (restore io files previous target).states ↔
      NoCopyInPlace io files previous target := by
  unfold NoCopyInPlace
  obtain ⟨name, hname⟩ := Option.isSome_iff_exists.mp h.named
  obtain ⟨copy, hcopy⟩ := Option.isSome_iff_exists.mp h.copy
  rw [restore, hname]
  cases copy with
  | file bytes =>
    rw [hcopy]
    refine iff_of_true (restoreFile_crashSafe ?_ ?_) (.inl fun _ hdir => by cases hdir)
    · exact ne_withSuffix h.named h.name (by decide)
    · exact ne_withSuffix h.named rfl (by decide)
  | dir entries =>
    have hdir : ¬ ∀ entries', files previous ≠ some (.dir entries') := fun hall => hall _ hcopy
    rw [or_iff_right hdir, hcopy]
    refine restoreDir_crashSafe_iff h ?_ ?_ entries
    · exact ne_withSuffix h.named h.name (by decide)
    · exact ne_withSuffix h.named rfl (by decide)

end Restore

section Replace

variable {root staged target : Path} {disk : Disk Tree} {copied : Except (Option Tree) Unit}

/-- What a backup that succeeds has done: nothing, or the copy is what stands at the target. -/
theorem backup_ok {previous : Path}
    (hok : (disk.backup root target copied).2 = .ok previous) :
    ∃ name, fileName target = some name ∧ previous = Disk.previousDir root ++ [name] ∧
      (previous = target ∧ (disk.backup root target copied).1 = disk ∨
        previous ≠ target ∧
          (disk.backup root target copied).1 = disk.write previous (disk.files target)) := by
  unfold Disk.backup at hok ⊢
  split at hok
  · cases hok
  · next name hname =>
    refine ⟨name, hname, ?_⟩
    dsimp only at hok ⊢
    split at hok
    · next hsame =>
      rw [if_pos hsame]
      cases hok
      exact ⟨rfl, .inl ⟨hsame, rfl⟩⟩
    · next hne =>
      rw [if_neg hne]
      split at hok
      · cases hok
      · next build hbuild =>
        cases hok
        exact ⟨rfl, .inr ⟨hne, by rw [hbuild]⟩⟩
      · cases hok

theorem backup_target :
    (disk.backup root target copied).1.files target = disk.files target := by
  unfold Disk.backup
  split
  · rfl
  · next name hname =>
    dsimp only
    split
    · rfl
    · next hne =>
      split
      · exact Files.put_of_ne _ (Ne.symm hne)
      · exact Files.put_of_ne _ (Ne.symm hne)
      · exact Files.put_of_ne _ (Ne.symm hne)

variable {files : Files} {io : ReplaceIo}

theorem replaceFile_target (hnamed : (fileName target).isSome = true) {error : InstallError}
    (herror : (replaceFile io files staged target).2 = .error error) :
    (replaceFile io files staged target).1 target = files target ∨
      io.renamed = true ∧ (files staged).isSome = true ∧ io.executable = false ∧
        (replaceFile io files staged target).1 target = files staged := by
  have htemporary : target ≠ withSuffix target ".new" := ne_withSuffix hnamed rfl (by decide)
  unfold replaceFile at herror ⊢
  split at herror
  · next hrenamed =>
    obtain ⟨hrename, hsome⟩ := Bool.and_eq_true_iff.mp hrenamed
    rw [if_pos hrenamed]
    dsimp only at herror ⊢
    cases hexecutable : io.executable with
    | true =>
      rw [hexecutable] at herror
      cases herror
    | false =>
      refine .inr ⟨hrename, hsome, rfl, ?_⟩
      by_cases hsame : staged = target
      · rw [hsame, Files.rename, if_pos rfl]
        rfl
      · exact Files.rename_dest hsame
  · next hrenamed =>
    -- the copy goes beside the target
    left
    rw [if_neg hrenamed]
    dsimp only at herror ⊢
    split at herror
    · rfl
    · exact Files.put_of_ne _ htemporary
    · split at herror
      · next hexecutable =>
        rw [if_pos hexecutable]
        exact Files.put_of_ne _ htemporary
      · next hexecutable =>
        rw [if_neg hexecutable]
        split at herror
        · next hfails =>
          rw [if_pos hfails]
          exact Files.put_of_ne _ htemporary
        · cases herror

/-- The swap that is reported like one that did not happen. -/
theorem replaceFile_renamed (target : Path) (hrenamed : io.renamed = true)
    (hstaged : (files staged).isSome = true) (hexecutable : io.executable = false) :
    replaceFile io files staged target =
      (files.rename staged target, .error (.io target)) := by
  unfold replaceFile
  rw [hrenamed, hstaged, hexecutable]
  rfl

variable {version : String} {epoch : Nat} {io : ApplyIo}

theorem applyAppImage_cases {error : InstallError}
    (herror : (applyAppImage root version epoch io disk staged target).2 = .error error) :
    (applyAppImage root version epoch io disk staged target).1.files =
        (disk.backup root target io.copied).1.files ∨
      (∃ previous, (disk.backup root target io.copied).2 = .ok previous) ∧
        io.pendingWritten = true ∧
        (replaceFile io.replace (disk.backup root target io.copied).1.files staged target).2 =
          .error error ∧
        (applyAppImage root version epoch io disk staged target).1.files =
          (replaceFile io.replace (disk.backup root target io.copied).1.files staged target).1 := by
  unfold applyAppImage at herror ⊢
  generalize disk.backup root target io.copied = result at herror ⊢
  obtain ⟨backed, _ | previous⟩ := result
  · exact .inl rfl
  · dsimp only at herror ⊢
    cases hwritten : io.pendingWritten with
    | false => exact .inl rfl
    | true =>
      rw [hwritten] at herror
      rcases hreplace : replaceFile io.replace backed.files staged target with ⟨files, _ | _⟩
      · rw [hreplace] at herror
        refine .inr ⟨⟨previous, rfl⟩, rfl, ?_, Disk.files_removePending _⟩
        exact congrArg Except.error (Except.error.inj herror)
      · rw [hreplace] at herror
        cases herror

theorem applyAppImage_error (version : String) (epoch : Nat) {previous : Path} {files : Files}
    {error : InstallError} (hbackup : (disk.backup root target io.copied).2 = .ok previous)
    (hwritten : io.pendingWritten = true)
    (hreplace : replaceFile io.replace (disk.backup root target io.copied).1.files staged target =
      (files, .error error)) :
    (applyAppImage root version epoch io disk staged target).2 = .error error ∧
      (applyAppImage root version epoch io disk staged target).1.files = files := by
  unfold applyAppImage
  generalize disk.backup root target io.copied = result at hbackup hreplace ⊢
  obtain ⟨backed, result⟩ := result
  obtain rfl : result = .ok previous := hbackup
  dsimp only at hreplace ⊢
  rw [hwritten, hreplace]
  exact ⟨rfl, Disk.files_removePending _⟩

theorem backup_staged (staged : Path) {previous : Path}
    (hok : (disk.backup root target copied).2 = .ok previous) :
    (previous = target ∨ previous ≠ staged) ∧
        (disk.backup root target copied).1.files staged = disk.files staged ∨
      previous = staged ∧ (disk.backup root target copied).1.files staged = disk.files target := by
  obtain ⟨name, hname, -, ⟨hsame, hdisk⟩ | ⟨-, hdisk⟩⟩ := backup_ok hok
  · exact .inl ⟨.inl hsame, by rw [hdisk]⟩
  · rw [hdisk]
    by_cases hstaged : previous = staged
    · rw [hstaged]
      exact .inr ⟨rfl, Files.put_self _⟩
    · exact .inl ⟨.inr hstaged, Files.put_of_ne _ (Ne.symm hstaged)⟩

/-- **When a failed `apply` leaves the old bytes.** -/
theorem keepsTarget_iff :
    KeepsTarget root version epoch io disk staged target ↔
      ¬ SwapsThenFails root io disk staged target := by
  constructor
  · rintro hkeeps ⟨⟨previous, hbackup⟩, hwritten, hrenamed, hsome, hne, hdiffers, hexecutable⟩
    obtain ⟨name, hname, hprevious, -⟩ := backup_ok hbackup
    have hstaged : (disk.backup root target io.copied).1.files staged = disk.files staged := by
      obtain ⟨-, hkept⟩ | ⟨rfl, -⟩ := backup_staged staged hbackup
      · exact hkept
      · exact absurd hprevious (hne name hname)
    rw [← hstaged] at hsome
    have hreplace := replaceFile_renamed target hrenamed hsome hexecutable
    obtain ⟨hfails, hfiles⟩ := applyAppImage_error version epoch hbackup hwritten hreplace
    have hold := hkeeps (.io target) hfails
    rw [hfiles] at hold
    refine hdiffers ?_
    rw [← hstaged, ← hold]
    refine (Files.rename_dest ?_).symm
    rintro rfl
    exact hdiffers rfl
  · intro hnot error herror
    obtain hsame | ⟨⟨previous, hbackup⟩, hwritten, hreplace, hfiles⟩ := applyAppImage_cases herror
    · rw [hsame, backup_target]
    · obtain ⟨name, hname, hprevious, -⟩ := backup_ok hbackup
      have hnamed : (fileName target).isSome = true := by rw [hname]; rfl
      rw [hfiles]
      obtain hkept | ⟨hrenamed, hsome, hexecutable, hswapped⟩ :=
        replaceFile_target hnamed hreplace
      · rw [hkept, backup_target]
      · rw [hswapped]
        obtain ⟨hwhere, hstaged⟩ | ⟨-, hstaged⟩ := backup_staged staged hbackup
        · rw [hstaged] at hsome ⊢
          by_contra hdiffers
          refine hnot ⟨⟨previous, hbackup⟩, hwritten, hrenamed, hsome, ?_, hdiffers, hexecutable⟩
          -- a staged file where the backup goes is the old one by now
          rintro name' hname' hplace
          obtain rfl : name' = name := Option.some.inj (hname'.symm.trans hname)
          obtain htarget | hne := hwhere
          · rw [hplace, ← hprevious, htarget] at hdiffers
            exact hdiffers rfl
          · exact hne (hprevious.trans hplace.symm)
        · exact hstaged

end Replace

/-- **When putting a build back is safe, and a failed install undone.** A restore is crash safe
exactly when it makes no directory in place of the target. A failed `apply` leaves the old bytes
unless what failed is to make the new ones executable, after they were renamed over the target. -/
theorem restoreSafe_iff (restoreIo : RestoreIo) (files : Files) (previous target : Path)
    (root : Path) (version : String) (epoch : Nat) (io : ApplyIo) (disk : Disk Tree)
    (staged image : Path) :
    (Restorable files previous target →
      (CrashSafe files previous target (restore restoreIo files previous target).states ↔
        NoCopyInPlace restoreIo files previous target)) ∧
    (KeepsTarget root version epoch io disk staged image ↔
      ¬ SwapsThenFails root io disk staged image) :=
  ⟨fun h => crashSafe_iff h, keepsTarget_iff⟩

/-- A bundle that failed, and the copy of the one before it. -/
def bundles : Files := fun path =>
  if path = ["previous", "Goble.app"] then some (.dir (.cons "goble" (.file [1]) .nil))
  else if path = ["Goble.app"] then some (.dir (.cons "goble" (.file [2]) .nil))
  else none

/-- An AppImage and the one that is to replace it. -/
def appImages : Files := fun path =>
  if path = ["downloads", "new"] then some (.file [2])
  else if path = ["Goble.AppImage"] then some (.file [1])
  else none

def allRestored : RestoreIo := ⟨true, true, fun _ => true, true, true⟩

def notExecutable : ApplyIo := ⟨.ok (), true, ⟨true, false, .ok (), true, true, true⟩, true⟩

theorem restorable_bundles : Restorable bundles ["previous", "Goble.app"] ["Goble.app"] :=
  ⟨rfl, by decide, by decide, rfl, rfl⟩

theorem restoreSafe_iff_bundles :
    CrashSafe bundles ["previous", "Goble.app"] ["Goble.app"]
        (restore { allRestored with renamed := false } bundles ["previous", "Goble.app"]
          ["Goble.app"]).states ↔
      NoCopyInPlace { allRestored with renamed := false } bundles ["previous", "Goble.app"]
        ["Goble.app"] :=
  (restoreSafe_iff _ _ _ _ [] "2" 0 notExecutable ⟨appImages, none, false, .empty⟩
    ["downloads", "new"] ["Goble.AppImage"]).1 restorable_bundles

theorem restore_target_bundles :
    ∃ state, (restore allRestored bundles ["previous", "Goble.app"]
        ["Goble.app"]).states.getLast? = some state ∧
      state ["Goble.app"] = bundles ["previous", "Goble.app"] :=
  restore_target restorable_bundles rfl

/-- A bundle whose copy is under way stands at the target in part, and an AppImage that cannot be
made executable is swapped and reported as failed. -/
theorem not_restoreSafe :
    ¬ CrashSafe bundles ["previous", "Goble.app"] ["Goble.app"]
        (restore allRestored bundles ["previous", "Goble.app"] ["Goble.app"]).states ∧
      ¬ KeepsTarget [] "2" 0 notExecutable ⟨appImages, none, false, .empty⟩ ["downloads", "new"]
        ["Goble.AppImage"] := by
  constructor
  · rw [crashSafe_iff restorable_bundles]
    rintro (hfile | ⟨-, hfails⟩ | ⟨hnone, -⟩)
    · exact hfile _ rfl
    · cases hfails
    · cases hnone
  · intro hkeeps
    have hold := hkeeps (.io ["Goble.AppImage"]) rfl
    exact absurd hold (by decide)

end Goble.Update
