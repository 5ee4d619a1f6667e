import Mathlib.Algebra.Ring.Int.Defs
import Mathlib.Algebra.Ring.Nat
import Mathlib.Data.List.Induction
import Mathlib.Data.List.Nodup
import Mathlib.Data.List.TakeWhile
import Goble.Lib.Derived
import Goble.Lib.Text

/-!
# Snapshots in a directory

A snapshot is kept as a file of its own, with the worker and the second of its creation in the name.
The list of snapshots is read off the directory: the worker off the name, up to the next underscore,
and the time off the modification time of the file, but as what has passed since then, not as a
date. So a file is listed the newer the longer it has been there, and the restore,
which takes the first of the list, gets the oldest.

What is listed is right for one snapshot at most, and then only by chance (`newest_iff`). The root
of the directory is left out of the keys.
-/

namespace Goble.Snapshot

open Goble.Text (cutAt)

/-- Nanoseconds since the epoch. -/
abbrev Nanos := Nat

/-- A snapshot as it is stored: its creation time in nanoseconds, and its encrypted content. -/
structure Stored (P : Type) where
  createdAt : Int
  content : P

structure SnapshotEntry where
  key : List Char
  workerId : List Char
  createdAt : Int
deriving DecidableEq

/-- A file of the directory: what was written, and when. -/
structure SnapshotFile (P : Type) where
  name : List Char
  modified : Nanos
  snapshot : Stored P

abbrev Directory (P : Type) := List (SnapshotFile P)

/-! ### File names -/

/-- `rsplit_file_at_dot`: the stem and the extension. -/
def splitAtDot (name : List Char) : List Char × Option (List Char) :=
  let after := (name.reverse.takeWhile (· ≠ '.')).reverse
  let before := name.take (name.length - after.length - 1)
  if '.' ∈ name ∧ before ≠ [] then (before, some after) else (name, none)

def splitn (c : Char) : Nat → List Char → List (List Char)
  | 0, _ => []
  | 1, text => [text]
  | n + 2, text =>
    match cutAt [c] text with
    | none => [text]
    | some (part, rest) => part :: splitn c (n + 1) rest

def timestamp (time : Int) : Int := time / 10 ^ 9

def fileName (workerId : List Char) (createdAt : Int) : List Char :=
  "goble_".toList ++ workerId ++ '_' :: (toString (timestamp createdAt)).toList ++
    ".snapshot".toList

variable {P : Type}

/-! ### The provider -/

/-- The last second of a `DateTime<Utc>`. -/
def maxTimestamp : Nat := 8210266876799

def fromTimestamp (seconds : Nat) : Option Int :=
  if seconds ≤ maxTimestamp then some (seconds * 10 ^ 9) else none

/-- `SystemTime::elapsed`, in seconds; it fails for a time to come. -/
def elapsed (now modified : Nanos) : Option Nat :=
  if modified ≤ now then some ((now - modified) / 10 ^ 9) else none

def entryFor (now : Nanos) (file : SnapshotFile P) : Option SnapshotEntry := do
  let parts := splitn '_' 3 (splitAtDot file.name).1
  let seconds ← elapsed now file.modified
  some ⟨file.name, parts[1]?.getD [], (fromTimestamp seconds).getD now⟩

def readEntries (now : Nanos) (files : Directory P) : Option (List SnapshotEntry) :=
  (files.filter fun file => (splitAtDot file.name).2 = some "snapshot".toList).mapM (entryFor now)

def sortEntries (entries : List SnapshotEntry) : List SnapshotEntry :=
  entries.mergeSort fun a b => b.createdAt ≤ a.createdAt

def listSnapshots (now : Nanos) (files : Directory P) : Option (List SnapshotEntry) :=
  (readEntries now files).map sortEntries

/-- `fs::write`: the file is new, or replaced. -/
def Directory.write (files : Directory P) (file : SnapshotFile P) : Directory P :=
  files.filter (fun other => other.name ≠ file.name) ++ [file]

/-- A call of `upload_snapshot`, and when it is made. -/
structure Upload (P : Type) where
  workerId : List Char
  snapshot : Stored P
  time : Nanos

def Upload.name (upload : Upload P) : List Char :=
  fileName upload.workerId upload.snapshot.createdAt

/-- `upload_snapshot`. The file system may refuse the name; one with a slash is in a directory that
is not there. -/
def uploadSnapshot (canWrite : List Char → Bool) (files : Directory P) (upload : Upload P) :
    Option (Directory P) :=
  if canWrite upload.name ∧ '/' ∉ upload.name then
    some (files.write ⟨upload.name, upload.time, upload.snapshot⟩)
  else none

def downloadSnapshot (files : Directory P) (key : List Char) : Option (Stored P) :=
  (files.find? fun file => file.name = key).map SnapshotFile.snapshot

def restored (now : Nanos) (order files : Directory P) : Option (Stored P) := do
  let entries ← listSnapshots now order
  let latest ← entries.head?
  downloadSnapshot files latest.key

def uploads (canWrite : List Char → Bool) (calls : List (Upload P)) : Directory P :=
  calls.foldl (fun files upload => (uploadSnapshot canWrite files upload).getD files) []

def stored (canWrite : List Char → Bool) (calls : List (Upload P)) : List (Upload P) :=
  calls.filter fun upload => canWrite upload.name && decide ('/' ∉ upload.name)

def Upload.entry (upload : Upload P) : SnapshotEntry :=
  ⟨upload.name, upload.workerId, upload.snapshot.createdAt⟩

def Newest (now : Nanos) (order files : Directory P) (made : List (Upload P)) : Prop :=
  listSnapshots now order = some (made.reverse.map Upload.entry) ∧
    restored now order files = made.getLast?.map Upload.snapshot

theorem splitAtDot_append {before ext : List Char} (hbefore : before ≠ []) (hext : '.' ∉ ext) :
    splitAtDot (before ++ '.' :: ext) = (before, some ext) := by
  have hafter : ((before ++ '.' :: ext).reverse.takeWhile (· ≠ '.')).reverse = ext := by
    rw [List.reverse_append, List.reverse_cons, List.append_assoc, List.takeWhile_append_of_pos]
    · simp
    · intro c hc
      rw [decide_eq_true_iff]
      rintro rfl
      exact hext (List.mem_reverse.mp hc)
  have hlength : (before ++ '.' :: ext).length - ext.length - 1 = before.length := by
    rw [List.length_append, List.length_cons]
    omega
  rw [splitAtDot, hafter, hlength, List.take_left]
  exact if_pos ⟨List.mem_append_right _ List.mem_cons_self, hbefore⟩

theorem splitAtDot_fileName (workerId : List Char) (createdAt : Int) :
    splitAtDot (fileName workerId createdAt) =
      ("goble_".toList ++ workerId ++ '_' :: (toString (timestamp createdAt)).toList,
        some "snapshot".toList) :=
  splitAtDot_append (by simp) (by decide)

/-- The part after the first underscore ends at the next, wherever that comes from. -/
theorem worker_of_stem (workerId rest : List Char) :
    (splitn '_' 3 ("goble_".toList ++ workerId ++ '_' :: rest))[1]?.getD [] =
      workerId.takeWhile (· ≠ '_') := by
  have hstart : cutAt ['_'] ("goble_".toList ++ workerId ++ '_' :: rest) =
      some ("goble".toList, workerId ++ '_' :: rest) :=
    Text.cutAt_singleton_eq_some.mpr ⟨by decide, by simp⟩
  obtain ⟨after, hworker⟩ : ∃ after, cutAt ['_'] (workerId ++ '_' :: rest) =
      some (workerId.takeWhile (· ≠ '_'), after) := by
    induction workerId with
    | nil => exact ⟨rest, Text.cutAt_singleton_eq_some.mpr ⟨List.not_mem_nil, rfl⟩⟩
    | cons c workerId ih =>
      by_cases hc : c = '_'
      · subst hc
        exact ⟨workerId ++ '_' :: rest, Text.cutAt_singleton_eq_some.mpr
          ⟨by simp, by simp⟩⟩
      · obtain ⟨after, hafter⟩ := ih (Text.cutAt_singleton_eq_some.mpr ⟨by decide, by simp⟩)
        obtain ⟨hnot, heq⟩ := Text.cutAt_singleton_eq_some.mp hafter
        refine ⟨after, Text.cutAt_singleton_eq_some.mpr ⟨?_, ?_⟩⟩
        · rw [List.takeWhile_cons_of_pos (by simpa using hc), List.mem_cons, not_or]
          exact ⟨fun h => hc h.symm, hnot⟩
        · rw [List.takeWhile_cons_of_pos (by simpa using hc), List.cons_append, heq]
          rfl
  simp only [splitn, hstart, hworker]
  rfl

/-! ### The directory -/

def Upload.file (upload : Upload P) : SnapshotFile P := ⟨upload.name, upload.time, upload.snapshot⟩

/-- The files after these uploads, all of which were stored. -/
def written (made : List (Upload P)) : Directory P :=
  made.foldl (fun files upload => files.write upload.file) []

theorem uploads_eq (canWrite : List Char → Bool) (calls : List (Upload P)) :
    uploads canWrite calls = written (stored canWrite calls) := by
  rw [uploads, written]
  generalize ([] : Directory P) = files
  induction calls generalizing files with
  | nil => rfl
  | cons call calls ih =>
    rw [List.foldl_cons, stored]
    by_cases hwrite : canWrite call.name = true ∧ '/' ∉ call.name
    · rw [List.filter_cons_of_pos (by simpa using hwrite), List.foldl_cons, uploadSnapshot,
        if_pos hwrite]
      exact ih _
    · rw [List.filter_cons_of_neg (by simpa using hwrite), uploadSnapshot, if_neg hwrite]
      exact ih _

/-- The files are those of uploads, oldest first, and no two have the same name. -/
structure Kept (made : List (Upload P)) (files : Directory P) : Prop where
  made : ∀ file ∈ files, ∃ upload ∈ made, file = upload.file
  sorted : files.Pairwise fun a b => a.modified < b.modified
  nodup : (files.map SnapshotFile.name).Nodup

theorem written_concat (made : List (Upload P)) (upload : Upload P) :
    written (made ++ [upload]) = (written made).write upload.file := List.foldl_concat ..

theorem kept_written {made : List (Upload P)}
    (hincreasing : made.Pairwise fun a b => a.time < b.time) : Kept made (written made) := by
  induction made using List.reverseRecOn with
  | nil => exact ⟨nofun, .nil, .nil⟩
  | append_singleton made upload ih =>
    obtain ⟨hmade, -, hlater⟩ := List.pairwise_append.mp hincreasing
    obtain ⟨hfiles, hsorted, hnodup⟩ := ih hmade
    rw [written_concat, Directory.write]
    refine ⟨fun file hfile => ?_, ?_, ?_⟩
    · obtain hfile | hfile := List.mem_append.mp hfile
      · obtain ⟨other, hother, rfl⟩ := hfiles file (List.mem_of_mem_filter hfile)
        exact ⟨other, List.mem_append_left _ hother, rfl⟩
      · obtain rfl := List.mem_singleton.mp hfile
        exact ⟨upload, List.mem_append_right _ (List.mem_singleton_self _), rfl⟩
    · refine List.pairwise_append.mpr ⟨hsorted.filter _, List.pairwise_singleton _ _, ?_⟩
      intro a ha b hb
      obtain rfl := List.mem_singleton.mp hb
      obtain ⟨other, hother, rfl⟩ := hfiles a (List.mem_of_mem_filter ha)
      exact hlater other hother upload (List.mem_singleton_self _)
    · rw [List.map_append, List.map_singleton]
      refine List.Nodup.append ((List.filter_sublist.map _).nodup hnodup) (List.nodup_singleton _) ?_
      intro name hname hin
      obtain rfl := List.mem_singleton.mp hin
      obtain ⟨file, hfile, heq⟩ := List.mem_map.mp hname
      exact absurd heq (of_decide_eq_true (List.mem_filter.mp hfile).2)

/-! ### The list -/

/-- The time that is listed for a file, the later the longer the file is there. -/
def shownTime (now modified : Nanos) : Int :=
  (fromTimestamp ((now - modified) / 10 ^ 9)).getD now

theorem shownTime_le {now a b : Nanos} (h : a ≤ b) : shownTime now b ≤ shownTime now a := by
  have hseconds : (now - b) / 10 ^ 9 ≤ (now - a) / 10 ^ 9 :=
    Nat.div_le_div_right (Nat.sub_le_sub_left h now)
  rw [shownTime, shownTime, fromTimestamp, fromTimestamp]
  by_cases ha : (now - a) / 10 ^ 9 ≤ maxTimestamp
  · rw [if_pos ha, if_pos (Nat.le_trans hseconds ha)]
    exact Int.mul_le_mul_of_nonneg_right (Int.ofNat_le.mpr hseconds) (by decide)
  · rw [if_neg ha]
    by_cases hb : (now - b) / 10 ^ 9 ≤ maxTimestamp
    · have hle : (now - b) / 10 ^ 9 * 10 ^ 9 ≤ now :=
        (Nat.div_mul_le_self _ _).trans (Nat.sub_le _ _)
      rw [if_pos hb, Option.getD_some, Option.getD_none]
      exact_mod_cast hle
    · exact Int.le_of_eq (by rw [if_neg hb])

def Upload.shown (now : Nanos) (upload : Upload P) : SnapshotEntry :=
  ⟨upload.name, upload.workerId.takeWhile (· ≠ '_'), shownTime now upload.time⟩

theorem entryFor_file {now : Nanos} {upload : Upload P} (h : upload.time ≤ now) :
    entryFor now upload.file = some (upload.shown now) := by
  have helapsed : elapsed now upload.time = some ((now - upload.time) / 10 ^ 9) := if_pos h
  show ((elapsed now upload.time).bind fun seconds => some _) = _
  rw [helapsed]
  show some (SnapshotEntry.mk upload.name ((splitn '_' 3 (splitAtDot upload.name).1)[1]?.getD []) _) =
    _
  rw [Upload.name, splitAtDot_fileName, worker_of_stem]
  rfl

variable {made : List (Upload P)} {files : Directory P} {now : Nanos}

/-- Read from the oldest to the newest, the directory is in the order of the list. -/
theorem listSnapshots_of_kept (h : Kept made files) (hnow : ∀ upload ∈ made, upload.time ≤ now) :
    ∃ entries, listSnapshots now files = some entries ∧
      entries.map SnapshotEntry.key = files.map SnapshotFile.name := by
  have hfilter : (files.filter fun file =>
      (splitAtDot file.name).2 = some "snapshot".toList) = files := by
    refine List.filter_eq_self.mpr fun file hfile => ?_
    obtain ⟨upload, -, rfl⟩ := h.made file hfile
    exact decide_eq_true (congrArg Prod.snd (splitAtDot_fileName _ _))
  -- the entries of the files, in their order
  have hentries : ∀ file ∈ files, ∃ entry, entryFor now file = some entry ∧
      entry.key = file.name ∧ entry.createdAt = shownTime now file.modified := by
    intro file hfile
    obtain ⟨upload, hupload, rfl⟩ := h.made file hfile
    exact ⟨_, entryFor_file (hnow upload hupload), rfl, rfl⟩
  obtain ⟨entries, hread, hkeys, hsorted⟩ : ∃ entries, files.mapM (entryFor now) = some entries ∧
      entries.map SnapshotEntry.key = files.map SnapshotFile.name ∧
      entries.map SnapshotEntry.createdAt = files.map fun file => shownTime now file.modified := by
    clear hfilter h
    induction files with
    | nil => exact ⟨[], rfl, rfl, rfl⟩
    | cons file files ih =>
      obtain ⟨entry, hentry, hkey, htime⟩ := hentries file List.mem_cons_self
      obtain ⟨entries, hread, hkeys, htimes⟩ := ih fun other hother =>
        hentries other (List.mem_cons_of_mem _ hother)
      refine ⟨entry :: entries, ?_, ?_, ?_⟩
      · rw [List.mapM_cons, hentry, hread]
        rfl
      · rw [List.map_cons, List.map_cons, hkey, hkeys]
      · rw [List.map_cons, List.map_cons, htime, htimes]
  refine ⟨entries, ?_, hkeys⟩
  have hpairwise : entries.Pairwise fun a b => b.createdAt ≤ a.createdAt := by
    have htimes : (entries.map SnapshotEntry.createdAt).Pairwise fun a b => b ≤ a := by
      rw [hsorted, List.pairwise_map]
      exact h.sorted.imp fun hlt => shownTime_le (Nat.le_of_lt hlt)
    exact List.pairwise_map.mp htimes
  rw [listSnapshots, readEntries, hfilter, hread]
  exact congrArg some (List.mergeSort_of_pairwise (hpairwise.imp fun hle => decide_eq_true hle))

theorem listSnapshots_singleton {upload : Upload P} (h : upload.time ≤ now) :
    listSnapshots now [upload.file] = some [upload.shown now] ∧
      restored now [upload.file] [upload.file] = some upload.snapshot := by
  have hlist : listSnapshots now [upload.file] = some [upload.shown now] := by
    have hfilter : ([upload.file].filter fun file =>
        (splitAtDot file.name).2 = some "snapshot".toList) = [upload.file] :=
      List.filter_cons_of_pos (decide_eq_true (congrArg Prod.snd (splitAtDot_fileName _ _)))
    rw [listSnapshots, readEntries, hfilter, List.mapM_cons, entryFor_file h]
    exact congrArg some (List.mergeSort_singleton _)
  refine ⟨hlist, ?_⟩
  rw [restored, hlist]
  show downloadSnapshot [upload.file] upload.name = _
  have hfind : ([upload.file].find? fun file => file.name = upload.name) = some upload.file :=
    List.find?_cons_of_pos (decide_eq_true rfl)
  rw [downloadSnapshot, hfind]
  rfl

/-- **The newest snapshot.** The list is right, and the newest snapshot restored, in whichever order
the directory is read, just if there is no snapshot, or one, of a worker without an underscore in
its name and with a creation time that, by chance, is what has passed since its upload. -/
theorem newest_iff (canWrite : List Char → Bool) (calls : List (Upload P)) (now : Nanos)
    (hincreasing : calls.Pairwise fun a b => a.time < b.time)
    (hnow : ∀ upload ∈ calls, upload.time ≤ now) :
    (∀ order, order.Perm (uploads canWrite calls) →
      Newest now order (uploads canWrite calls) (stored canWrite calls)) ↔
    stored canWrite calls = [] ∨ ∃ upload, stored canWrite calls = [upload] ∧
      '_' ∉ upload.workerId ∧ upload.snapshot.createdAt = shownTime now upload.time := by
  have hsub : (stored canWrite calls).Sublist calls := List.filter_sublist
  rw [uploads_eq]
  replace hincreasing := hincreasing.sublist hsub
  replace hnow : ∀ upload ∈ stored canWrite calls, upload.time ≤ now :=
    fun upload hupload => hnow upload (hsub.subset hupload)
  generalize stored canWrite calls = made at *
  constructor
  · intro h
    obtain ⟨hlist, -⟩ := h (written made) (.refl _)
    have hkept := kept_written hincreasing
    obtain ⟨entries, hentries, hkeys⟩ := listSnapshots_of_kept hkept hnow
    obtain rfl := Option.some.inj (hentries.symm.trans hlist)
    rw [List.map_map] at hkeys
    obtain rfl | ⟨earlier, upload, rfl⟩ := List.eq_nil_or_concat' made
    · exact .inl rfl
    right
    -- the newest is the first of the list and the last of the files
    rw [written_concat, Directory.write, List.map_append, List.reverse_append, List.map_append]
      at hkeys
    have hnodup := hkept.nodup
    rw [written_concat, Directory.write, List.map_append] at hnodup
    cases hfiles : ((written earlier).filter fun other => other.name ≠ upload.file.name).map
        SnapshotFile.name with
    | nil =>
      rw [hfiles] at hkeys
      have hlength := congrArg List.length hkeys
      simp only [List.length_append, List.length_map, List.length_reverse, List.length_cons,
        List.length_nil] at hlength
      obtain rfl : earlier = [] := List.length_eq_zero_iff.mp (by omega)
      rw [show written ([] ++ [upload]) = [upload.file] from rfl,
        (listSnapshots_singleton (hnow upload (List.mem_singleton_self _))).1] at hlist
      have hentry : upload.shown now = upload.entry := List.head_eq_of_cons_eq (Option.some.inj hlist)
      refine ⟨upload, rfl, ?_, ?_⟩
      · have hworker : upload.workerId.takeWhile (· ≠ '_') = upload.workerId :=
          congrArg SnapshotEntry.workerId hentry
        intro hmem
        rw [← hworker] at hmem
        have hne := List.mem_takeWhile_imp hmem
        exact absurd rfl (of_decide_eq_true hne)
      · exact (congrArg SnapshotEntry.createdAt hentry).symm
    | cons name names =>
      rw [hfiles] at hkeys hnodup
      obtain rfl : upload.name = name := List.head_eq_of_cons_eq hkeys
      exact absurd (List.mem_append_right _ (List.mem_singleton_self _))
        (List.nodup_cons.mp hnodup).1
  · rintro (rfl | ⟨upload, rfl, hworker, htime⟩) order horder
    · obtain rfl := horder.eq_nil
      have hlist : listSnapshots now ([] : Directory P) = some [] :=
        congrArg some List.mergeSort_nil
      refine ⟨hlist, ?_⟩
      rw [restored, hlist]
      rfl
    · have hwritten : written [upload] = [upload.file] := rfl
      rw [hwritten] at horder ⊢
      obtain rfl := List.perm_singleton.mp horder
      obtain ⟨hlist, hrestored⟩ := listSnapshots_singleton (hnow upload (List.mem_singleton_self _))
      refine ⟨?_, hrestored⟩
      have hentry : upload.shown now = upload.entry := by
        rw [Upload.shown, Upload.entry, htime, List.takeWhile_eq_self_iff.mpr]
        intro c hc
        rw [decide_eq_true_iff]
        rintro rfl
        exact hworker hc
      rw [hlist, hentry]
      rfl

/-- A snapshot of the tenth second, which is looked for in the twentieth. -/
def tenth : Upload Unit := ⟨"w1".toList, ⟨10 * 10 ^ 9, ()⟩, 10 * 10 ^ 9⟩

theorem newest_iff_tenth :
    (∀ order, order.Perm (uploads (fun _ => true) [tenth]) →
      Newest (20 * 10 ^ 9) order (uploads (fun _ => true) [tenth])
        (stored (fun _ => true) [tenth])) ↔
    stored (fun _ => true) [tenth] = [] ∨ ∃ upload, stored (fun _ => true) [tenth] = [upload] ∧
      '_' ∉ upload.workerId ∧ upload.snapshot.createdAt = shownTime (20 * 10 ^ 9) upload.time :=
  newest_iff (fun _ => true) [tenth] (20 * 10 ^ 9) (List.pairwise_singleton _ _)
    (List.forall_mem_singleton.mpr (by decide))

def hourLater : Upload Unit := ⟨"w1".toList, ⟨3610 * 10 ^ 9, ()⟩, 3610 * 10 ^ 9⟩

/-- Of two snapshots an hour apart, the older one is first in the list. -/
theorem not_newest : ¬ ∀ (canWrite : List Char → Bool) (calls : List (Upload Unit)) (now : Nanos),
    calls.Pairwise (fun a b => a.time < b.time) → (∀ upload ∈ calls, upload.time ≤ now) →
      ∀ order, order.Perm (uploads canWrite calls) →
        Newest now order (uploads canWrite calls) (stored canWrite calls) := by
  intro h
  have hincreasing : [tenth, hourLater].Pairwise fun a b => a.time < b.time := by decide
  have hnow : ∀ upload ∈ [tenth, hourLater], upload.time ≤ 7200 * 10 ^ 9 := by decide
  obtain ⟨hlist, -⟩ := h (fun _ => true) _ _ hincreasing hnow _ (.refl _)
  have hstored : stored (fun _ => true) [tenth, hourLater] = [tenth, hourLater] := rfl
  rw [uploads_eq, hstored] at hlist
  obtain ⟨entries, hentries, hkeys⟩ := listSnapshots_of_kept (kept_written hincreasing) hnow
  obtain rfl := Option.some.inj (hentries.symm.trans hlist)
  exact absurd hkeys (by decide)

end Goble.Snapshot
