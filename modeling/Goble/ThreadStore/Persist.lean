import Goble.Lib.Machine
import Goble.ThreadStore.Memory

/-!
# The thread store on disk

Every operation changes the memory first and then rewrites all the files: the threads, one file of
messages for each thread that has any, the profile, the keys and the read receipts. Opening the
store reads whatever files there are. A file is what it parses to; JSON is taken to round trip,
without line breaks in a message. A write that fails leaves its file as it was or torn, and the
writes after it are not made.

* `Mirrored` — the invariant: the files hold what the memory holds;
* `survives_of_run` — `Survives` in every run in which no write fails and no thread is deleted
  that has messages or a read receipt.
-/

namespace Goble.ThreadStore

/-- A file of JSON: what it parses to, or one that does not parse. -/
inductive FileText (α : Type) where
  | written (value : α)
  | torn
deriving DecidableEq, Repr

def FileText.read {α : Type} : FileText α → Option α
  | .written value => some value
  | .torn => none

structure Disk where
  threads : Option (FileText (List Thread))
  messages : Table String (FileText (List ThreadMessage))
  users : Option (FileText (Option UserProfile))
  keys : Option (FileText (List AuthorizedKey))
  readReceipts : Option (FileText (Table String Int))

def Disk.empty : Disk := ⟨none, ∅, none, none, none⟩

inductive FileWrite where
  | threads (text : FileText (List Thread))
  | messages (threadId : String) (text : FileText (List ThreadMessage))
  | users (text : FileText (Option UserProfile))
  | keys (text : FileText (List AuthorizedKey))
  | readReceipts (text : FileText (Table String Int))

def FileWrite.tear : FileWrite → FileWrite
  | .threads _ => .threads .torn
  | .messages threadId _ => .messages threadId .torn
  | .users _ => .users .torn
  | .keys _ => .keys .torn
  | .readReceipts _ => .readReceipts .torn

def Disk.write (disk : Disk) : FileWrite → Disk
  | .threads text => { disk with threads := some text }
  | .messages threadId text => { disk with messages := disk.messages.insert threadId text }
  | .users text => { disk with users := some text }
  | .keys text => { disk with keys := some text }
  | .readReceipts text => { disk with readReceipts := some text }

def Memory.messageWrites (memory : Memory) : List FileWrite :=
  memory.messages.entries.map fun entry => .messages entry.1 (.written entry.2)

def Memory.writes (memory : Memory) : List FileWrite :=
  .threads (.written memory.threads) :: (memory.messageWrites ++
    [.users (.written memory.profile), .keys (.written memory.keys),
      .readReceipts (.written memory.lastReadAt)])

/-- A write that fails: how many succeed before it, and whether it leaves the file torn. -/
structure Fault where
  after : Nat
  torn : Bool
deriving DecidableEq, Repr

/-- `save`: the files it leaves, and whether all writes succeeded. -/
def Memory.save (memory : Memory) (disk : Disk) : Option Fault → Disk × Bool
  | none => (memory.writes.foldl Disk.write disk, true)
  | some fault =>
    let before := (memory.writes.take fault.after).foldl Disk.write disk
    match memory.writes.drop fault.after with
    | [] => (before, true)
    | failing :: _ => (if fault.torn then before.write failing.tear else before, false)

def readOr {α : Type} (missing : α) : Option (FileText α) → Option α
  | none => some missing
  | some text => text.read

/-- The messages of every file there is; one that does not parse fails the load. -/
def readMessages (files : Table String (FileText (List ThreadMessage))) :
    Option (Table String (List ThreadMessage)) :=
  if files.entries.all fun entry => entry.2.read.isSome then
    some ⟨files.entries.map fun entry => ⟨entry.1, entry.2.read.getD []⟩, by
      have hkeys : (files.entries.map fun entry =>
          (⟨entry.1, entry.2.read.getD []⟩ : Sigma fun _ : String => List ThreadMessage)).keys =
            files.entries.keys := by
        simp [List.keys, Function.comp_def]
      rw [List.NodupKeys, hkeys]
      exact files.nodupKeys⟩
  else none

/-- `ThreadStore::new`: what the files load to, if they load. -/
def Disk.load (disk : Disk) : Option Memory := do
  let threads ← readOr [] disk.threads
  let messages ← readMessages disk.messages
  let profile ← readOr none disk.users
  let keys ← readOr [] disk.keys
  let lastReadAt ← readOr ∅ disk.readReceipts
  return ⟨threads, messages, lastReadAt, profile, keys⟩

/-- The store: what it holds, and its directory. -/
structure Store where
  memory : Memory
  disk : Disk

def Store.init : Store := ⟨.empty, .empty⟩

/-- An operation, and the write of it that fails, if one does. -/
structure Call where
  op : ThreadOp
  fault : Option Fault
deriving DecidableEq, Repr

/-- One operation: the memory is changed, then saved. A failed save is reported as `Unauthorized`,
but not by `delete_thread`. -/
def Store.perform (isAlphanumeric : Char → Bool) (store : Store) (call : Call) :
    Except ThreadError Reply × Store :=
  match call.op.effect isAlphanumeric store.memory with
  | .error e => (.error e, store)
  | .ok (reply, none) => (.ok reply, store)
  | .ok (reply, some memory) =>
    let saved := memory.save store.disk call.fault
    let answer :=
      match call.op with
      | .deleteThread _ => .ok reply
      | _ => if saved.2 then .ok reply else .error .unauthorized
    (answer, ⟨memory, saved.1⟩)

/-- The steps of a run: an operation, or the store is opened again. -/
inductive Step where
  | call (call : Call)
  | reopen
deriving DecidableEq, Repr

def storeMachine (isAlphanumeric : Char → Bool) : Machine Store Step where
  init := .init
  step store
    | .call call => some (store.perform isAlphanumeric call).2
    | .reopen => store.disk.load.map fun memory => { store with memory }

theorem foldl_messageWrites (entries : List (Sigma fun _ : String => List ThreadMessage))
    (hnodup : entries.NodupKeys) (disk : Disk) :
    ∃ messages, ((entries.map fun entry =>
        FileWrite.messages entry.1 (.written entry.2)).foldl Disk.write disk) =
          { disk with messages } ∧
      ∀ id, messages.lookup id =
        ((entries.dlookup id).map FileText.written).or (disk.messages.lookup id) := by
  induction entries generalizing disk with
  | nil => exact ⟨disk.messages, rfl, fun _ => rfl⟩
  | cons entry entries ih =>
    obtain ⟨id', list⟩ := entry
    obtain ⟨hfresh, hnodup⟩ := List.nodupKeys_cons.mp hnodup
    obtain ⟨messages, hfold, hlookup⟩ := ih hnodup (disk.write (.messages id' (.written list)))
    refine ⟨messages, by rw [List.map_cons, List.foldl_cons, hfold]; rfl, fun id => ?_⟩
    rw [hlookup, Disk.write, Table.lookup_insert_eq]
    by_cases hid : id = id'
    · subst hid
      rw [List.dlookup_cons_eq, List.dlookup_eq_none.mpr hfresh, if_pos rfl]
      rfl
    · rw [List.dlookup_cons_ne _ _ hid, if_neg hid]

theorem save_none (memory : Memory) (disk : Disk) :
    ∃ messages, (memory.save disk none).1 =
        ⟨some (.written memory.threads), messages, some (.written memory.profile),
          some (.written memory.keys), some (.written memory.lastReadAt)⟩ ∧
      ∀ id, messages.lookup id =
        ((memory.messages.lookup id).map FileText.written).or (disk.messages.lookup id) := by
  obtain ⟨messages, hfold, hlookup⟩ := foldl_messageWrites memory.messages.entries
    memory.messages.nodupKeys (disk.write (.threads (.written memory.threads)))
  refine ⟨messages, ?_, hlookup⟩
  rw [Memory.save, Memory.writes, List.foldl_cons, List.foldl_append, Memory.messageWrites, hfold]
  rfl

theorem readMessages_of_written {files : Table String (FileText (List ThreadMessage))}
    {messages : Table String (List ThreadMessage)}
    (h : ∀ id, files.lookup id = (messages.lookup id).map FileText.written) :
    ∃ loaded, readMessages files = some loaded ∧
      ∀ id, loaded.lookup id = messages.lookup id := by
  have hall : (files.entries.all fun entry => entry.2.read.isSome) = true := by
    refine List.all_eq_true.mpr fun ⟨id, text⟩ hentry => ?_
    have htext : files.lookup id = some text := AList.mem_lookup_iff.mpr hentry
    rw [h] at htext
    obtain ⟨list, -, rfl⟩ := Option.map_eq_some_iff.mp htext
    rfl
  rw [readMessages, if_pos hall]
  refine ⟨_, rfl, fun id => ?_⟩
  have hread : ∀ entries : List (Sigma fun _ : String => FileText (List ThreadMessage)),
      (entries.map fun entry => (⟨entry.1, entry.2.read.getD []⟩ :
        Sigma fun _ : String => List ThreadMessage)).dlookup id =
          (entries.dlookup id).map fun text => text.read.getD [] := by
    intro entries
    induction entries with
    | nil => rfl
    | cons entry entries ih =>
      obtain ⟨id', text⟩ := entry
      by_cases hid : id = id'
      · subst hid
        simp
      · rw [List.map_cons, List.dlookup_cons_ne (β := fun _ => List ThreadMessage) _ _ hid, ih,
          List.dlookup_cons_ne _ _ hid]
  calc (files.entries.map fun entry => (⟨entry.1, entry.2.read.getD []⟩ :
        Sigma fun _ : String => List ThreadMessage)).dlookup id
      = (files.lookup id).map fun text => text.read.getD [] := hread files.entries
    _ = messages.lookup id := by
      rw [h, Option.map_map]
      cases messages.lookup id <;> rfl

structure Memory.Agrees (memory memory' : Memory) : Prop where
  threads : memory.threads = memory'.threads
  messages : ∀ id, memory.messages.lookup id = memory'.messages.lookup id
  lastReadAt : ∀ id, memory.lastReadAt.lookup id = memory'.lastReadAt.lookup id

/-- Nothing is left of a thread that is gone, in memory or on disk. -/
def Store.NoOrphans (store : Store) : Prop :=
  ∀ id, ¬ store.memory.Has id →
    store.memory.messages.lookup id = none ∧ store.memory.lastReadAt.lookup id = none ∧
      store.disk.messages.lookup id = none ∧
      ∀ receipts, store.disk.readReceipts = some (.written receipts) → receipts.lookup id = none

/-- If an operation fails the memory is as before; if its writes succeed
the files load to the memory; and no thread that is gone has left anything. -/
structure Survives (isAlphanumeric : Char → Bool) (store : Store) (call : Call) : Prop where
  atomic : (∃ e, (store.perform isAlphanumeric call).1 = .error e) →
    (store.perform isAlphanumeric call).2.memory = store.memory
  reloads : call.fault = none → ∃ memory,
    (store.perform isAlphanumeric call).2.disk.load = some memory ∧
      memory.Agrees (store.perform isAlphanumeric call).2.memory
  noOrphans : (store.perform isAlphanumeric call).2.NoOrphans

/-! ### The invariant -/

structure Mirrored (store : Store) : Prop where
  threads : readOr [] store.disk.threads = some store.memory.threads
  messages : ∀ id, store.disk.messages.lookup id =
    (store.memory.messages.lookup id).map FileText.written
  users : readOr none store.disk.users = some store.memory.profile
  keys : readOr [] store.disk.keys = some store.memory.keys
  readReceipts : ∃ receipts, readOr ∅ store.disk.readReceipts = some receipts ∧
    ∀ id, receipts.lookup id = store.memory.lastReadAt.lookup id
  owned : store.memory.Owned

/-- A step that meets the condition: no write fails, and a thread is deleted only when it has
neither messages nor a read receipt. -/
def Step.Clean (store : Store) (step : Step) : Prop :=
  ∀ c, step = .call c → c.fault = none ∧ ∀ id, c.op = .deleteThread id →
    store.memory.messages.lookup id = none ∧ store.memory.lastReadAt.lookup id = none

namespace Mirrored

variable {store : Store}

theorem init : Mirrored .init where
  threads := rfl
  messages _ := rfl
  users := rfl
  keys := rfl
  readReceipts := ⟨∅, rfl, fun _ => rfl⟩
  owned := ⟨fun _ h => absurd rfl h, fun _ h => absurd rfl h⟩

theorem load (h : Mirrored store) : ∃ memory, store.disk.load = some memory ∧
    memory.Agrees store.memory ∧ memory.profile = store.memory.profile ∧
      memory.keys = store.memory.keys := by
  obtain ⟨messages, hmessages, hlookup⟩ := readMessages_of_written h.messages
  obtain ⟨receipts, hreceipts, hread⟩ := h.readReceipts
  refine ⟨⟨store.memory.threads, messages, receipts, store.memory.profile, store.memory.keys⟩,
    ?_, ⟨rfl, hlookup, hread⟩, rfl, rfl⟩
  simp [Disk.load, h.threads, hmessages, h.users, h.keys, hreceipts]

theorem noOrphans (h : Mirrored store) : store.NoOrphans := by
  intro id hid
  have hmessages : store.memory.messages.lookup id = none :=
    not_not.mp fun hne => hid (h.owned.messages id hne)
  have hread : store.memory.lastReadAt.lookup id = none :=
    not_not.mp fun hne => hid (h.owned.lastReadAt id hne)
  refine ⟨hmessages, hread, by rw [h.messages, hmessages]; rfl, fun receipts hreceipts => ?_⟩
  obtain ⟨receipts', hreceipts', hlookup⟩ := h.readReceipts
  rw [hreceipts] at hreceipts'
  obtain rfl := Option.some.inj hreceipts'
  rw [hlookup, hread]

theorem save (h : Mirrored store) {memory : Memory} (howned : memory.Owned)
    (hkept : ∀ id, store.memory.messages.lookup id ≠ none → memory.messages.lookup id ≠ none) :
    Mirrored ⟨memory, (memory.save store.disk none).1⟩ := by
  obtain ⟨messages, hsave, hlookup⟩ := save_none memory store.disk
  rw [hsave]
  refine ⟨rfl, fun id => ?_, rfl, rfl, ⟨memory.lastReadAt, rfl, fun _ => rfl⟩, howned⟩
  rw [hlookup, h.messages]
  cases hnew : memory.messages.lookup id with
  | some list => rfl
  | none =>
    have hold : store.memory.messages.lookup id = none :=
      not_not.mp fun hne => hkept id hne hnew
    rw [hold]
    rfl

theorem of_effect (h : Mirrored store) {isAlphanumeric : Char → Bool} {op : ThreadOp}
    {reply : Reply} {memory : Memory}
    (hdelete : ∀ id, op = .deleteThread id →
      store.memory.messages.lookup id = none ∧ store.memory.lastReadAt.lookup id = none)
    (heffect : op.effect isAlphanumeric store.memory = .ok (reply, some memory)) :
    Mirrored ⟨memory, (memory.save store.disk none).1⟩ := by
  rcases ThreadOp.change_of_effect heffect with hchange | ⟨id, hop, rfl⟩
  · exact h.save (hchange.owned h.owned) fun _ => hchange.messages_ne_none
  · obtain ⟨hmessages, hread⟩ := hdelete id hop
    have hsame : ∀ id', (store.memory.messages.erase id).lookup id' =
        store.memory.messages.lookup id' := by
      intro id'
      rw [Table.lookup_erase_eq]
      split
      · next he => rw [he, hmessages]
      · rfl
    -- the other threads are still there
    have hother : ∀ id', id' ≠ id → store.memory.Has id' →
        ∃ thread ∈ store.memory.threads.filter (fun t => t.id != id), thread.id = id' := by
      rintro id' hne ⟨thread, hthread, rfl⟩
      exact ⟨thread, List.mem_filter.mpr ⟨hthread, bne_iff_ne.mpr hne⟩, rfl⟩
    refine h.save ⟨fun id' hid => ?_, fun id' hid => ?_⟩ fun id' hid => ?_
    · rw [hsame] at hid
      exact hother id' (fun he => hid (he ▸ hmessages)) (h.owned.messages id' hid)
    · exact hother id' (fun he => hid (he ▸ hread)) (h.owned.lastReadAt id' hid)
    · rwa [hsame]

/-- **One operation.** -/
theorem perform (h : Mirrored store) (isAlphanumeric : Char → Bool) {call : Call}
    (hclean : Step.Clean store (.call call)) :
    Mirrored (store.perform isAlphanumeric call).2 ∧
      ((∃ e, (store.perform isAlphanumeric call).1 = .error e) →
        (store.perform isAlphanumeric call).2.memory = store.memory) := by
  obtain ⟨hfault, hdelete⟩ := hclean call rfl
  unfold Store.perform
  split
  · exact ⟨h, fun _ => rfl⟩
  · exact ⟨h, fun _ => rfl⟩
  · next reply memory heffect =>
    have hsaved := h.of_effect hdelete heffect
    rw [hfault]
    refine ⟨hsaved, ?_⟩
    rintro ⟨e, he⟩
    -- the save succeeded
    simp only [Memory.save, if_true] at he
    split at he <;> cases he

theorem reopen (h : Mirrored store) {memory : Memory} (hload : store.disk.load = some memory) :
    Mirrored { store with memory } := by
  obtain ⟨memory', hload', hagrees, hprofile, hkeys⟩ := h.load
  obtain rfl := Option.some.inj (hload'.symm.trans hload)
  have hhas : ∀ id, store.memory.Has id → memory'.Has id := by
    rintro id ⟨thread, hthread, hid⟩
    exact ⟨thread, hagrees.threads ▸ hthread, hid⟩
  obtain ⟨receipts, hreceipts, hread⟩ := h.readReceipts
  refine ⟨?_, fun id => ?_, ?_, ?_, ⟨receipts, hreceipts, fun id => ?_⟩, fun id hid => ?_,
    fun id hid => ?_⟩
  · rw [hagrees.threads]
    exact h.threads
  · rw [hagrees.messages]
    exact h.messages id
  · rw [hprofile]
    exact h.users
  · rw [hkeys]
    exact h.keys
  · rw [hagrees.lastReadAt]
    exact hread id
  · rw [hagrees.messages] at hid
    exact hhas id (h.owned.messages id hid)
  · rw [hagrees.lastReadAt] at hid
    exact hhas id (h.owned.lastReadAt id hid)

theorem of_run {isAlphanumeric : Char → Bool} {steps : List Step} {store : Store}
    (hclean : (storeMachine isAlphanumeric).Along Step.Clean .init steps)
    (hrun : (storeMachine isAlphanumeric).exec .init steps = some store) : Mirrored store := by
  refine Machine.invariant (M := storeMachine isAlphanumeric) init ?_ hclean hrun
  intro store step store' h hstep hs
  cases step with
  | call call =>
    obtain rfl := Option.some.inj hs
    exact (h.perform isAlphanumeric hstep).1
  | reopen =>
    obtain ⟨memory, hload, rfl⟩ := Option.map_eq_some_iff.mp hs
    exact h.reopen hload

end Mirrored

/-- **The store survives clean runs.** Whatever the operations and however often the store is
opened again, as long as no write fails and no thread is deleted that has messages or a read
receipt: every operation leaves the memory as it was if it fails, leaves files that load to the
memory, and leaves nothing of a thread that is gone. -/
theorem survives_of_run (isAlphanumeric : Char → Bool) (steps : List Step) (call : Call)
    {store : Store}
    (hclean : (storeMachine isAlphanumeric).Along Step.Clean .init (steps ++ [.call call]))
    (hrun : (storeMachine isAlphanumeric).exec .init steps = some store) :
    Survives isAlphanumeric store call := by
  have hmirrored := Mirrored.of_run hclean.of_append hrun
  obtain ⟨hafter, hatomic⟩ := hmirrored.perform isAlphanumeric (hclean.last hrun)
  refine ⟨hatomic, fun _ => ?_, hafter.noOrphans⟩
  obtain ⟨memory, hload, hagrees, -, -⟩ := hafter.load
  exact ⟨memory, hload, hagrees⟩

theorem Step.clean_of_ne {store : Store} {op : ThreadOp} (hop : ∀ id, op ≠ .deleteThread id) :
    Step.Clean store (.call ⟨op, none⟩) := by
  rintro c hc
  obtain rfl := Step.call.inj hc
  exact ⟨rfl, fun id he => absurd he (hop id)⟩

def chatSteps : List Step :=
  [.call ⟨.createThread "t" 0 .chat "chat" "u" false [] [], none⟩,
    .call ⟨.postMessage "m" 1 "t" (.user "u") "hi" none [] [] none, none⟩]

/-- The chat is opened again and read. -/
theorem survives_of_run_chat :
    ∃ store, (storeMachine Char.isAlphanum).exec .init (chatSteps ++ [.reopen]) = some store ∧
      (store.memory.messages.lookup "t").isSome = true ∧
      Survives Char.isAlphanum store ⟨.markThreadRead 2 "t", none⟩ := by
  obtain ⟨store, hrun, hkept⟩ := Option.map_eq_some_iff.mp (show
    ((storeMachine Char.isAlphanum).exec .init (chatSteps ++ [.reopen])).map
      (fun store => (store.memory.messages.lookup "t").isSome) = some true by decide +kernel)
  refine ⟨store, hrun, hkept, survives_of_run Char.isAlphanum (chatSteps ++ [.reopen]) _ ?_ hrun⟩
  refine ⟨Step.clean_of_ne (by simp), fun _ _ => ⟨Step.clean_of_ne (by simp), fun _ _ => ?_⟩⟩
  refine ⟨fun _ hc => ?_, fun _ _ => ⟨Step.clean_of_ne (by simp), fun _ _ => trivial⟩⟩
  cases hc

/-- The chat is deleted, and every write succeeds: its messages come back with the next start. -/
theorem not_survives_delete :
    ∃ store, (storeMachine Char.isAlphanum).exec .init chatSteps = some store ∧
      ¬ Survives Char.isAlphanum store ⟨.deleteThread "t", none⟩ := by
  obtain ⟨store, hrun, hback⟩ := Option.map_eq_some_iff.mp (show
    ((storeMachine Char.isAlphanum).exec .init chatSteps).map (fun store =>
      let after := (store.perform Char.isAlphanum ⟨.deleteThread "t", none⟩).2
      ((after.memory.messages.lookup "t").isSome,
        after.disk.load.map fun memory => (memory.messages.lookup "t").isSome)) =
      some (false, some true) by decide +kernel)
  refine ⟨store, hrun, fun h => ?_⟩
  obtain ⟨memory, hload, hagrees⟩ := h.reloads rfl
  obtain ⟨hmemory, hdisk⟩ := Prod.mk.inj hback
  rw [hload, Option.map_some, hagrees.messages, hmemory] at hdisk
  cases hdisk

end Goble.ThreadStore
