import Goble.Lib.Table
import Mathlib.Data.List.Sort

/-!
# The telemetry queue on disk

Items wait for the collector as files of one directory, oldest first by name. Reading the queue
drops what does not parse.

* `CrashQueue.entryAt` — the item queued under a path, which is all that is ever said of a queue;
* `mem_entries`, `nodup_entries` — `entries` lists the items queued, each once.
-/

namespace Goble.Telemetry

/-- `u32::saturating_add`, `n` times over. -/
def saturatingAdd (a : UInt32) (n : Nat) : UInt32 :=
  UInt32.ofNat (min (a.toNat + n) (UInt32.size - 1))

theorem toNat_saturatingAdd (a : UInt32) (n : Nat) :
    (saturatingAdd a n).toNat = min (a.toNat + n) (UInt32.size - 1) := by
  have hlt : min (a.toNat + n) (UInt32.size - 1) < UInt32.size :=
    Nat.lt_of_le_of_lt (Nat.min_le_right _ _) (by decide)
  exact UInt32.toNat_ofNat_of_lt hlt

@[simp] theorem saturatingAdd_zero (a : UInt32) : saturatingAdd a 0 = a := by
  apply UInt32.toNat_inj.mp
  rw [toNat_saturatingAdd, Nat.add_zero]
  exact Nat.min_eq_left (Nat.le_sub_one_of_lt a.toNat_lt)

theorem saturatingAdd_saturatingAdd (a : UInt32) (m n : Nat) :
    saturatingAdd (saturatingAdd a m) n = saturatingAdd a (m + n) := by
  apply UInt32.toNat_inj.mp
  simp only [toNat_saturatingAdd]
  omega

theorem saturatingAdd_lt_iff {a b : UInt32} {n : Nat} :
    saturatingAdd a n < b ↔ a.toNat + n < b.toNat := by
  rw [UInt32.lt_iff_toNat_lt, toNat_saturatingAdd]
  have hb : b.toNat ≤ UInt32.size - 1 := Nat.le_sub_one_of_lt b.toNat_lt
  omega

/-- What is uploaded; a crash and an event go to different endpoints. -/
inductive QueuedItem where
  | crash (report : String)
  | event (envelope : String)
deriving DecidableEq, Repr

def QueuedItem.isCrash : QueuedItem → Bool
  | .crash _ => true
  | .event _ => false

/-- One queued item, with the bookkeeping needed to retry it. -/
structure QueueEntry where
  id : String
  queuedAt : Int
  attempts : UInt32
  item : QueuedItem
deriving DecidableEq, Repr

def QueueEntry.failed (n : Nat) (entry : QueueEntry) : QueueEntry :=
  { entry with attempts := saturatingAdd entry.attempts n }

@[simp] theorem QueueEntry.failed_zero (entry : QueueEntry) : entry.failed 0 = entry := by
  simp [failed]

theorem QueueEntry.failed_failed (entry : QueueEntry) (m n : Nat) :
    (entry.failed m).failed n = entry.failed (m + n) := by
  simp [failed, saturatingAdd_saturatingAdd]

structure CrashQueue where
  files : Table String (Option QueueEntry)

namespace CrashQueue

/-- Drop an item that has been accepted, or permanently rejected. -/
def remove (queue : CrashQueue) (path : String) : CrashQueue :=
  ⟨queue.files.erase path⟩

def write (queue : CrashQueue) (path : String) (entry : QueueEntry) : CrashQueue :=
  ⟨queue.files.insert path (some entry)⟩

def recordAttempt (queue : CrashQueue) (path : String) (entry : QueueEntry) : CrashQueue :=
  queue.write path (entry.failed 1)

/-- The files of the directory, by name. -/
def paths (queue : CrashQueue) : List String :=
  queue.files.keys.insertionSort (· ≤ ·)

def readFrom : List String → CrashQueue → List (String × QueueEntry) × CrashQueue
  | [], queue => ([], queue)
  | path :: paths, queue =>
    match queue.files.lookup path with
    | some (some entry) =>
      ((path, entry) :: (readFrom paths queue).1, (readFrom paths queue).2)
    | _ => readFrom paths (queue.remove path)

/-- Pending items, oldest first, and the queue without what cannot be read. -/
def entries (queue : CrashQueue) : List (String × QueueEntry) × CrashQueue :=
  readFrom queue.paths queue

def len (queue : CrashQueue) : Nat := queue.entries.1.length

def isEmpty (queue : CrashQueue) : Bool := queue.len == 0

def entryAt (queue : CrashQueue) (path : String) : Option QueueEntry :=
  (queue.files.lookup path).join

theorem entryAt_remove (queue : CrashQueue) (path p : String) :
    (queue.remove path).entryAt p = if p = path then none else queue.entryAt p := by
  simp only [entryAt, remove, Table.lookup_erase_eq]
  split <;> rfl

theorem entryAt_write (queue : CrashQueue) (path p : String) (entry : QueueEntry) :
    (queue.write path entry).entryAt p = if p = path then some entry else queue.entryAt p := by
  simp only [entryAt, write, Table.lookup_insert_eq]
  split <;> rfl

theorem readFrom_spec {paths : List String} (hnodup : paths.Nodup) (queue : CrashQueue) :
    (readFrom paths queue).1 =
        paths.filterMap (fun path => (queue.entryAt path).map fun entry => (path, entry)) ∧
      ∀ p, (readFrom paths queue).2.entryAt p = queue.entryAt p := by
  induction paths generalizing queue with
  | nil => exact ⟨rfl, fun _ => rfl⟩
  | cons path paths ih =>
    obtain ⟨hpath, hpaths⟩ := List.nodup_cons.mp hnodup
    unfold readFrom
    split
    · next entry hlookup =>
      obtain ⟨hlist, hleft⟩ := ih hpaths queue
      have hentry : queue.entryAt path = some entry := by rw [entryAt, hlookup]; rfl
      refine ⟨?_, hleft⟩
      rw [hlist, List.filterMap_cons_some (b := (path, entry)) (by rw [hentry]; rfl)]
    · next hlookup =>
      have hentry : queue.entryAt path = none := by
        rw [entryAt]
        cases hfile : queue.files.lookup path with
        | none => rfl
        | some entry =>
          cases entry with
          | none => rfl
          | some entry => exact absurd hfile (hlookup entry)
      obtain ⟨hlist, hleft⟩ := ih hpaths (queue.remove path)
      refine ⟨?_, fun p => ?_⟩
      · rw [hlist, List.filterMap_cons_none (by rw [hentry]; rfl)]
        refine List.filterMap_congr fun p hp => ?_
        rw [entryAt_remove, if_neg (show ¬ p = path from fun he => hpath (he ▸ hp))]
      · rw [hleft, entryAt_remove]
        split
        · next he => rw [he, hentry]
        · rfl

theorem nodup_paths (queue : CrashQueue) : queue.paths.Nodup :=
  ((List.perm_insertionSort _ _).nodup_iff).mpr queue.files.nodupKeys

theorem mem_paths {queue : CrashQueue} {path : String} {entry : QueueEntry}
    (h : queue.entryAt path = some entry) : path ∈ queue.paths := by
  have hfile : queue.files.lookup path = some (some entry) := Option.join_eq_some_iff.mp h
  refine (List.perm_insertionSort _ _).mem_iff.mpr (AList.mem_keys.mp ?_)
  exact AList.lookup_isSome.mp (Option.isSome_iff_exists.mpr ⟨_, hfile⟩)

theorem mem_entries {queue : CrashQueue} {path : String} {entry : QueueEntry} :
    (path, entry) ∈ queue.entries.1 ↔ queue.entryAt path = some entry := by
  rw [entries, (readFrom_spec queue.nodup_paths queue).1, List.mem_filterMap]
  constructor
  · rintro ⟨p, -, hp⟩
    obtain ⟨e, he, heq⟩ := Option.map_eq_some_iff.mp hp
    obtain ⟨rfl, rfl⟩ := Prod.mk.inj heq
    exact he
  · intro h
    exact ⟨path, mem_paths h, by rw [h]; rfl⟩

/-- Each item is listed once. -/
theorem nodup_entries (queue : CrashQueue) : (queue.entries.1.map Prod.fst).Nodup := by
  rw [entries, (readFrom_spec queue.nodup_paths queue).1]
  refine queue.nodup_paths.sublist ?_
  induction queue.paths with
  | nil => exact .slnil
  | cons path paths ih =>
    cases hentry : queue.entryAt path with
    | none =>
      rw [List.filterMap_cons_none (by rw [hentry]; rfl)]
      exact ih.cons path
    | some entry =>
      rw [List.filterMap_cons_some (b := (path, entry)) (by rw [hentry]; rfl), List.map_cons]
      exact ih.cons_cons path

@[simp] theorem entryAt_entries (queue : CrashQueue) (path : String) :
    queue.entries.2.entryAt path = queue.entryAt path :=
  (readFrom_spec queue.nodup_paths queue).2 path

theorem isEmpty_iff {queue : CrashQueue} :
    queue.isEmpty = true ↔ ∀ path, queue.entryAt path = none := by
  rw [isEmpty, beq_iff_eq, len, List.length_eq_zero_iff, List.eq_nil_iff_forall_not_mem]
  constructor
  · intro h path
    refine Option.eq_none_iff_forall_ne_some.mpr fun entry hentry => ?_
    exact h (path, entry) (mem_entries.mpr hentry)
  · rintro h ⟨path, entry⟩ hmem
    rw [mem_entries, h path] at hmem
    cases hmem

end CrashQueue

end Goble.Telemetry
