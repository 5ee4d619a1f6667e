import Goble.Telemetry.Upload

/-!
# The books of a drain

A drain counts every item that was queued when it began: as uploaded, as refused for good, as
failed, or as left alone. Its requests carry stretches of the queue, oldest first, and the first
one that fails is the last.

* `Carries` — what a request may hold: one crash, or a batch of events, none of them out of
  attempts;
* `accounted_drain` — the books of a whole drain balance, whatever is queued and whatever the
  collector answers.
-/

namespace Goble.Telemetry

/-! ### How many items are queued -/

namespace CrashQueue

theorem mem_keys_entries {queue : CrashQueue} {path : String} :
    path ∈ queue.entries.1.map Prod.fst ↔ (queue.entryAt path).isSome = true := by
  rw [List.mem_map, Option.isSome_iff_exists]
  constructor
  · rintro ⟨⟨p, entry⟩, hfile, rfl⟩
    exact ⟨entry, mem_entries.mp hfile⟩
  · rintro ⟨entry, hentry⟩
    exact ⟨(path, entry), mem_entries.mpr hentry, rfl⟩

theorem len_add {queue queue' : CrashQueue} {gone : List String} (hnodup : gone.Nodup)
    (h : ∀ path, (queue.entryAt path).isSome = true ↔
      (queue'.entryAt path).isSome = true ∨ path ∈ gone)
    (hgone : ∀ path ∈ gone, queue'.entryAt path = none) :
    queue'.len + gone.length = queue.len := by
  have hdisjoint : List.Disjoint (queue'.entries.1.map Prod.fst) gone := by
    intro path hpath hin
    rw [mem_keys_entries, hgone path hin] at hpath
    cases hpath
  have hperm : (queue'.entries.1.map Prod.fst ++ gone).Perm (queue.entries.1.map Prod.fst) := by
    refine (List.perm_ext_iff_of_nodup ?_ queue.nodup_entries).mpr fun path => ?_
    · exact List.Nodup.append queue'.nodup_entries hnodup hdisjoint
    · rw [List.mem_append, mem_keys_entries, mem_keys_entries, h path]
  have hlength := hperm.length_eq
  rw [List.length_append, List.length_map, List.length_map] at hlength
  exact hlength

theorem len_congr {queue queue' : CrashQueue}
    (h : ∀ path, (queue'.entryAt path).isSome = (queue.entryAt path).isSome) :
    queue'.len = queue.len :=
  len_add List.nodup_nil (fun path => by simp [h path]) fun _ h => absurd h List.not_mem_nil

end CrashQueue

structure Carries (config : UploadConfig) (uploader : Uploader) (n : Nat) (request : Sent)
    (batch : List QueueFile) : Prop where
  paths : request.paths = batch.map Prod.fst
  mayTry : ∀ file ∈ batch, file.2.attempts < config.maxAttempts
  kind : (∃ file, batch = [file] ∧ file.2.item.isCrash = true ∧
      request.answer = uploader.upload n config.base file.2.item) ∨
    (1 ≤ batch.length ∧ batch.length ≤ max config.maxBatch 1 ∧
      (∀ file ∈ batch, file.2.item.isCrash = false) ∧
      request.answer = uploader.uploadEvents n config.base (batch.map fun file => file.2.item))

theorem carries_batchOf {config : UploadConfig} (uploader : Uploader) (n : Nat) {file : QueueFile}
    (rest : List QueueFile) (hleft : ¬ config.maxAttempts ≤ file.2.attempts) :
    Carries config uploader n
      ⟨(batchOf config file rest).map Prod.fst,
        answerTo config uploader n file (batchOf config file rest)⟩
      (batchOf config file rest) := by
  refine ⟨rfl, fun f hf => of_decide_eq_true (mayTry_of_mem_batchOf hleft hf), ?_⟩
  obtain ⟨more, hbatch, -⟩ := batchOf_eq config rest hleft
  by_cases hcrash : file.2.item.isCrash = true
  · refine .inl ⟨file, if_pos hcrash, hcrash, ?_⟩
    exact if_pos hcrash
  · refine .inr ⟨?_, ?_, fun f hf => ?_, if_neg hcrash⟩
    · rw [hbatch]
      exact Nat.succ_pos _
    · rw [batchOf, if_neg hcrash]
      exact List.length_take_le ..
    · -- A run of events stops before the first crash.
      rw [batchOf, if_neg hcrash] at hf
      have hbatches : config.batches f = true :=
        List.all_eq_true.mp List.all_takeWhile f (List.mem_of_mem_take hf)
      exact Bool.not_eq_true' _ ▸ (Bool.and_eq_true_iff.mp hbatches).1

/-! ### The loop -/

/-- Items that are no longer queued: accepted, or refused for good. -/
def UploadOutcome.settled (outcome : UploadOutcome) : Nat := outcome.uploaded + outcome.rejected

/-- Items that the drain has counted. -/
def UploadOutcome.counted (outcome : UploadOutcome) : Nat :=
  outcome.uploaded + outcome.rejected + outcome.failed + outcome.skipped

/-- From one pass the loop has gone to another over these files, with these requests. -/
structure Pass.Booked (config : UploadConfig) (uploader : Uploader) (files : List QueueFile)
    (pass pass' : Pass) (sent : List (Sent × List QueueFile)) : Prop where
  requests : pass'.requests = pass.requests ++ sent.map Prod.fst
  carries : ∀ i p, sent[i]? = some p →
    Carries config uploader (pass.requests.length + i) p.1 p.2
  inOrder : (sent.flatMap Prod.snd).Sublist files
  stops : ∀ i p, sent[i]? = some p → p.1.answer.stops = true → sent.length = i + 1
  counted : pass'.outcome.counted = pass.outcome.counted + files.length
  queued : pass'.queue.len + pass'.outcome.settled = pass.queue.len + pass.outcome.settled

theorem Pass.queued_answered {pass : Pass} {batch : List QueueFile}
    (hnodup : (batch.map Prod.fst).Nodup)
    (hqueued : ∀ file ∈ batch, pass.queue.entryAt file.1 = some file.2) (answer : Answer)
    (left : Nat) :
    (pass.answered batch answer left).queue.len + (pass.answered batch answer left).outcome.settled =
      pass.queue.len + pass.outcome.settled := by
  have hsome : ∀ path ∈ batch.map Prod.fst, (pass.queue.entryAt path).isSome = true := by
    intro path hpath
    obtain ⟨file, hfile, rfl⟩ := List.mem_map.mp hpath
    rw [hqueued file hfile]
    rfl
  have hremoved : (batch.foldl (fun queue file => queue.remove file.1) pass.queue).len +
      batch.length = pass.queue.len := by
    rw [← List.length_map (f := Prod.fst)]
    refine CrashQueue.len_add hnodup (fun path => ?_) fun path hpath => ?_
    · rw [entryAt_removeAll]
      by_cases hin : path ∈ batch.map Prod.fst
      · simp only [hsome path hin, hin, or_true]
      · simp only [hin, if_false, or_false]
    · rw [entryAt_removeAll, if_pos hpath]
  cases answer with
  | ok =>
    show _ + (pass.outcome.uploaded + batch.length + pass.outcome.rejected) =
      _ + (pass.outcome.uploaded + pass.outcome.rejected)
    rw [← hremoved]
    simp only [Pass.answered]
    omega
  | error err =>
    by_cases hperm : err.isPermanent = true
    · simp only [Pass.answered, if_pos hperm, UploadOutcome.settled]
      omega
    · simp only [Pass.answered, if_neg hperm, UploadOutcome.settled]
      congr 1
      refine CrashQueue.len_congr fun path => ?_
      rw [entryAt_recordAll hnodup hqueued]
      split
      · exact Option.isSome_map
      · rfl

theorem Pass.counted_answered (pass : Pass) (batch : List QueueFile) (answer : Answer)
    (left : Nat) :
    (pass.answered batch answer left).outcome.counted =
      pass.outcome.counted + batch.length + if answer.stops then left else 0 := by
  cases answer with
  | ok =>
    simp only [Pass.answered, UploadOutcome.counted, Answer.stops, Bool.false_eq_true, if_false]
    omega
  | error err =>
    by_cases hperm : err.isPermanent = true
    · simp only [Pass.answered, if_pos hperm, UploadOutcome.counted, Answer.stops,
        Bool.not_eq_true', Bool.eq_false_iff, not_not.mpr hperm, if_false]
      omega
    · rw [Pass.answered, if_neg hperm]
      simp only [UploadOutcome.counted, Answer.stops, Bool.eq_false_iff.mpr hperm, Bool.not_false,
        if_true]
      omega

/-- **The loop.** It accounts for the files that it has still to look at. -/
theorem booked_drainFrom (config : UploadConfig) (uploader : Uploader) (files : List QueueFile)
    (pass : Pass) (hnodup : (files.map Prod.fst).Nodup)
    (hqueued : ∀ file ∈ files, pass.queue.entryAt file.1 = some file.2) :
    ∃ sent, Pass.Booked config uploader files pass (drainFrom config uploader files pass) sent := by
  fun_induction drainFrom config uploader files pass with
  | case1 pass =>
    exact ⟨[], (List.append_nil _).symm, fun _ _ h => by simp at h, List.Sublist.refl _,
      fun _ _ h => by simp at h, rfl, rfl⟩
  | case2 file rest pass hout ih =>
    -- Out of attempts: the item is left alone.
    obtain ⟨sent, hsent⟩ := ih (List.nodup_cons.mp hnodup).2 fun f hf =>
      hqueued f (List.mem_cons_of_mem _ hf)
    refine ⟨sent, hsent.requests, hsent.carries, hsent.inOrder.cons file, hsent.stops, ?_,
      hsent.queued⟩
    calc
      _ = (pass.skip 1).outcome.counted + rest.length := hsent.counted
      _ = pass.outcome.counted + (file :: rest).length := by
        simp only [Pass.skip, UploadOutcome.counted, List.length_cons]
        omega
  | case3 file rest pass hout batch answer left hstops =>
    -- A failure ends the loop.
    have hfiles : batch ++ left = file :: rest := batchOf_append config rest hout
    have hcarries := carries_batchOf uploader pass.requests.length rest hout
    rw [← hfiles] at hnodup hqueued ⊢
    rw [List.map_append] at hnodup
    have hrequests := (applied_answered hnodup.of_append_left
      (fun f hf => hqueued f (List.mem_append_left _ hf)) answer left.length).1
    refine ⟨[(⟨batch.map Prod.fst, answer⟩, batch)], hrequests, ?_, ?_, ?_, ?_, ?_⟩
    · intro i p hp
      obtain ⟨hi, rfl⟩ := List.getElem?_eq_some_iff.mp hp
      obtain rfl : i = 0 := Nat.lt_one_iff.mp hi
      exact hcarries
    · rw [List.flatMap_singleton]
      exact List.sublist_append_left batch left
    · intro i p hp _
      obtain ⟨hi, -⟩ := List.getElem?_eq_some_iff.mp hp
      obtain rfl : i = 0 := Nat.lt_one_iff.mp hi
      rfl
    · rw [Pass.counted_answered, if_pos hstops, List.length_append, Nat.add_assoc]
    · exact Pass.queued_answered hnodup.of_append_left
        (fun f hf => hqueued f (List.mem_append_left _ hf)) answer left.length
  | case4 file rest pass hout batch answer left hstops ih =>
    -- The batch is settled, and the loop goes on after it.
    have hfiles : batch ++ left = file :: rest := batchOf_append config rest hout
    have hcarries := carries_batchOf uploader pass.requests.length rest hout
    rw [← hfiles] at hnodup hqueued ⊢
    rw [List.map_append] at hnodup
    obtain ⟨hrequests, happlied⟩ := applied_answered hnodup.of_append_left
      (fun f hf => hqueued f (List.mem_append_left _ hf)) answer left.length
    obtain ⟨sent, hsent⟩ := ih hnodup.of_append_right fun f hf => by
      -- The request carried none of what is left.
      rw [happlied.of_not_mem fun r hr => ?_]
      · exact hqueued f (List.mem_append_right _ hf)
      · obtain rfl := List.mem_singleton.mp hr
        exact fun hin => (List.disjoint_of_nodup_append hnodup) hin (List.mem_map_of_mem hf)
    refine ⟨(⟨batch.map Prod.fst, answer⟩, batch) :: sent, ?_, ?_, ?_, ?_, ?_, ?_⟩
    · rw [hsent.requests, hrequests, List.append_assoc]
      rfl
    · intro i p hp
      cases i with
      | zero =>
        obtain rfl := Option.some.inj hp
        exact hcarries
      | succ i =>
        have hlater := hsent.carries i p hp
        rw [hrequests, List.length_append, List.length_singleton] at hlater
        rw [show pass.requests.length + (i + 1) = pass.requests.length + 1 + i by omega]
        exact hlater
    · rw [List.flatMap_cons]
      exact List.Sublist.append (List.Sublist.refl batch) hsent.inOrder
    · intro i p hp hstop
      cases i with
      | zero =>
        obtain rfl := Option.some.inj hp
        exact absurd hstop hstops
      | succ i => exact congrArg Nat.succ (hsent.stops i p hp hstop)
    · rw [hsent.counted, Pass.counted_answered, if_neg hstops, List.length_append]
      omega
    · calc
        _ = (pass.answered batch answer left.length).queue.len +
            (pass.answered batch answer left.length).outcome.settled := hsent.queued
        _ = _ := Pass.queued_answered hnodup.of_append_left
          (fun f hf => hqueued f (List.mem_append_left _ hf)) answer left.length

/-! ### A whole drain -/

/-- The collector took the items of a request, or refused them for good. -/
def Sent.Settled (request : Sent) : Prop :=
  request.answer = .ok () ∨ ∃ err, request.answer = .error err ∧ err.isPermanent = true

theorem Sent.settled_iff {request : Sent} : request.Settled ↔ request.answer.stops = false := by
  obtain ⟨paths, answer⟩ := request
  cases answer with
  | ok => simp [Sent.Settled, Answer.stops]
  | error err => simp [Sent.Settled, Answer.stops]

/-- The books of a drain balance. -/
structure Accounted (config : UploadConfig) (uploader : Uploader) (queue : CrashQueue)
    (pass : Pass) : Prop where
  counts : pass.outcome.uploaded + pass.outcome.rejected + pass.outcome.failed +
    pass.outcome.skipped = queue.entries.1.length
  remaining : pass.outcome.remaining = pass.outcome.failed + pass.outcome.skipped
  /-- The requests carry items of the queue, in its order, each at most once. -/
  requests : ∃ batches : List (List QueueFile), batches.length = pass.requests.length ∧
    (∀ i request batch, pass.requests[i]? = some request → batches[i]? = some batch →
      Carries config uploader i request batch) ∧
    batches.flatten.Sublist queue.entries.1 ∧ (batches.flatten.map Prod.fst).Nodup
  /-- An item is gone exactly when its request was accepted or rejected. -/
  gone : ∀ path entry, queue.entryAt path = some entry →
    (pass.queue.entryAt path = none ↔ ∃ request ∈ pass.requests, path ∈ request.paths ∧
      request.Settled)
  /-- An item that is kept has one more attempt if its request failed, and is unchanged if not. -/
  kept : ∀ path entry entry', queue.entryAt path = some entry →
    pass.queue.entryAt path = some entry' →
      ((∃ request ∈ pass.requests, path ∈ request.paths ∧ ¬ request.Settled) →
        entry' = { entry with attempts := entry.attempts + 1 } ∧
          entry'.attempts.toNat = entry.attempts.toNat + 1) ∧
      ((¬ ∃ request ∈ pass.requests, path ∈ request.paths ∧ ¬ request.Settled) → entry' = entry)
  /-- Nothing is queued that was not. -/
  nothingNew : ∀ path, queue.entryAt path = none → pass.queue.entryAt path = none
  /-- A failed request is the last. -/
  stops : ∀ i request, pass.requests[i]? = some request → ¬ request.Settled →
    pass.requests.length = i + 1

theorem failures_le_count (requests : List Sent) (path : String) :
    failures requests path ≤ (requests.flatMap Sent.paths).count path := by
  induction requests with
  | nil => exact Nat.le_refl 0
  | cons request requests ih =>
    rw [List.flatMap_cons, List.count_append]
    by_cases hfails : request.fails path = true
    · have hpath : path ∈ request.paths :=
        of_decide_eq_true (Bool.and_eq_true_iff.mp hfails).1
      have hone : 1 ≤ request.paths.count path := List.count_pos_iff.mpr hpath
      rw [failures, List.countP_cons, if_pos hfails]
      exact Nat.add_comm 1 _ ▸ Nat.add_le_add hone ih
    · rw [failures, List.countP_cons, if_neg hfails]
      exact Nat.le_trans ih (Nat.le_add_left _ _)

theorem failures_pos_iff {requests : List Sent} {path : String} :
    0 < failures requests path ↔ ∃ request ∈ requests, path ∈ request.paths ∧ ¬ request.Settled := by
  rw [failures, List.countP_pos_iff]
  refine exists_congr fun request => and_congr_right fun _ => ?_
  rw [Sent.settled_iff, Sent.fails, Bool.and_eq_true, decide_eq_true_eq, Bool.not_eq_false]

theorem settled_iff {requests : List Sent} {path : String} :
    settled requests path = true ↔ ∃ request ∈ requests, path ∈ request.paths ∧
      request.Settled := by
  rw [settled, List.any_eq_true]
  refine exists_congr fun request => and_congr_right fun _ => ?_
  rw [Sent.settled_iff, Sent.settles, Bool.and_eq_true, decide_eq_true_eq, Bool.not_eq_true']

theorem QueueEntry.failed_one {entry : QueueEntry} {bound : UInt32} (h : entry.attempts < bound) :
    (entry.failed 1).attempts.toNat = entry.attempts.toNat + 1 ∧
      entry.failed 1 = { entry with attempts := entry.attempts + 1 } := by
  have hlt : entry.attempts.toNat + 1 ≤ UInt32.size - 1 :=
    Nat.le_sub_one_of_lt (Nat.lt_of_le_of_lt (UInt32.lt_iff_toNat_lt.mp h) bound.toNat_lt)
  have hnat : (saturatingAdd entry.attempts 1).toNat = entry.attempts.toNat + 1 := by
    rw [toNat_saturatingAdd]
    exact Nat.min_eq_left hlt
  refine ⟨hnat, ?_⟩
  have hsame : saturatingAdd entry.attempts 1 = entry.attempts + 1 := by
    apply UInt32.toNat_inj.mp
    rw [hnat, UInt32.toNat_add]
    exact (Nat.mod_eq_of_lt (Nat.lt_of_le_sub_one (by decide) hlt)).symm
  rw [QueueEntry.failed, hsame]

/-- **A drain accounts for every item.** Whatever is queued, whatever the limits and whatever the
collector answers, the counts of the outcome balance and say what is on disk, the requests are
stretches of the queue in its order, an item is gone exactly when it was settled, and the first
failure is the last request. -/
theorem accounted_drain (config : UploadConfig) (uploader : Uploader) (queue : CrashQueue) :
    Accounted config uploader queue (drain config uploader queue) := by
  have hfiles : ∀ file ∈ queue.entries.1, queue.entries.2.entryAt file.1 = some file.2 := by
    intro file hfile
    rw [CrashQueue.entryAt_entries]
    exact CrashQueue.mem_entries.mp hfile
  obtain ⟨sent, hsent⟩ := booked_drainFrom config uploader queue.entries.1
    ⟨queue.entries.2, ⟨0, 0, 0, 0, 0⟩, []⟩ queue.nodup_entries hfiles
  have happlied := applied_drain config uploader queue
  have hrequests : (drain config uploader queue).requests = sent.map Prod.fst :=
    hsent.requests
  have hat : ∀ (i : Nat) (request : Sent),
      (drain config uploader queue).requests[i]? = some request →
        ∃ batch : List QueueFile, sent[i]? = some (request, batch) := by
    intro i request hrequest
    rw [hrequests, List.getElem?_map, Option.map_eq_some_iff] at hrequest
    obtain ⟨⟨request, batch⟩, hp, rfl⟩ := hrequest
    exact ⟨batch, hp⟩
  have hcarries : ∀ p ∈ sent, ∃ i, Carries config uploader i p.1 p.2 := by
    intro p hp
    obtain ⟨i, hi⟩ := List.getElem?_of_mem hp
    exact ⟨_, hsent.carries i p hi⟩
  have hpaths : (drain config uploader queue).requests.flatMap Sent.paths =
      (sent.flatMap Prod.snd).map Prod.fst := by
    rw [hrequests, List.flatMap_map, List.map_flatMap]
    refine List.flatMap_congr fun p hp => ?_
    obtain ⟨i, hi⟩ := hcarries p hp
    exact hi.paths
  have hnodup : ((sent.flatMap Prod.snd).map Prod.fst).Nodup :=
    queue.nodup_entries.sublist (hsent.inOrder.map Prod.fst)
  have hkept : ∀ path entry entry', queue.entryAt path = some entry →
      (drain config uploader queue).queue.entryAt path = some entry' →
        entry' = entry.failed (failures (drain config uploader queue).requests path) := by
    intro path entry entry' hentry hentry'
    rw [happlied path, hentry] at hentry'
    split at hentry'
    · cases hentry'
    · exact (Option.some.inj hentry').symm
  refine ⟨?_, ?_, ⟨sent.map Prod.snd, ?_, ?_, hsent.inOrder, hnodup⟩, ?_, ?_, ?_, ?_⟩
  · have hcounted := hsent.counted
    rw [show (⟨0, 0, 0, 0, 0⟩ : UploadOutcome).counted = 0 from rfl, Nat.zero_add] at hcounted
    exact hcounted
  · -- What is left on disk was queued at the start and has not been settled.
    have hcounted := hsent.counted
    have hqueued := hsent.queued
    have hstart : queue.entries.2.len = queue.entries.1.length :=
      CrashQueue.len_congr fun path => by rw [CrashQueue.entryAt_entries]
    rw [hstart] at hqueued
    simp only [UploadOutcome.counted, UploadOutcome.settled] at hcounted hqueued
    show (drainFrom config uploader queue.entries.1 _).queue.len =
      (drainFrom config uploader queue.entries.1 _).outcome.failed +
        (drainFrom config uploader queue.entries.1 _).outcome.skipped
    omega
  · rw [hrequests, List.length_map, List.length_map]
  · intro i request batch hrequest hbatch
    obtain ⟨batch', hp⟩ := hat i request hrequest
    rw [List.getElem?_map, hp] at hbatch
    obtain rfl := Option.some.inj hbatch
    have hcarry := hsent.carries i _ hp
    rw [show ([] : List Sent).length + i = i from Nat.zero_add i] at hcarry
    exact hcarry
  · intro path entry hentry
    rw [happlied path, hentry, ← settled_iff]
    split
    · next hsettled => exact iff_of_true rfl hsettled
    · next hsettled => exact iff_of_false nofun hsettled
  · intro path entry entry' hentry hentry'
    have hsame := hkept path entry entry' hentry hentry'
    constructor
    · intro hfailed
      -- The item was carried once, and had attempts left.
      have hpos := failures_pos_iff.mpr hfailed
      obtain ⟨request, hrequest, hpath, -⟩ := hfailed
      rw [hrequests] at hrequest
      obtain ⟨p, hp, rfl⟩ := List.mem_map.mp hrequest
      obtain ⟨i, hi⟩ := hcarries p hp
      rw [hi.paths] at hpath
      obtain ⟨file, hfile, rfl⟩ := List.mem_map.mp hpath
      have hin : file ∈ queue.entries.1 :=
        hsent.inOrder.subset (List.mem_flatMap.mpr ⟨p, hp, hfile⟩)
      obtain rfl : file.2 = entry :=
        Option.some.inj ((CrashQueue.mem_entries.mp hin).symm.trans hentry)
      have hone : failures (drain config uploader queue).requests file.1 = 1 := by
        have hle := failures_le_count (drain config uploader queue).requests file.1
        rw [hpaths] at hle
        have hcount := List.nodup_iff_count_le_one.mp hnodup file.1
        omega
      rw [hone] at hsame
      obtain ⟨hnat, heq⟩ := QueueEntry.failed_one (hi.mayTry file hfile)
      exact ⟨hsame.trans heq, hsame ▸ hnat⟩
    · intro hnone
      rw [← failures_pos_iff, Nat.pos_iff_ne_zero, not_not] at hnone
      rw [hsame, hnone, QueueEntry.failed_zero]
  · intro path hnone
    rw [happlied path, hnone]
    exact ite_self _
  · intro i request hrequest hfailed
    obtain ⟨batch, hp⟩ := hat i request hrequest
    rw [Sent.settled_iff, Bool.not_eq_false] at hfailed
    rw [hrequests, List.length_map]
    exact hsent.stops i _ hp hfailed

/-! ### All drains together -/

def carrying (requests : List Sent) (path : String) : List Sent :=
  requests.filter fun request => path ∈ request.paths

theorem length_carrying_le (requests : List Sent) (path : String) :
    (carrying requests path).length ≤ (requests.flatMap Sent.paths).count path := by
  induction requests with
  | nil => exact Nat.le_refl 0
  | cons request requests ih =>
    rw [List.flatMap_cons, List.count_append, carrying, List.filter_cons]
    split
    · next hpath =>
      have hone : 0 < request.paths.count path := List.count_pos_iff.mpr (of_decide_eq_true hpath)
      rw [List.length_cons, Nat.add_comm]
      exact Nat.add_le_add hone ih
    · exact Nat.le_trans ih (Nat.le_add_left _ _)

/-- One drain carries an item at most once, and only one that is queued and has attempts left. -/
theorem carrying_drain (config : UploadConfig) (uploader : Uploader) (queue : CrashQueue)
    (path : String) :
    (carrying (drain config uploader queue).requests path).length ≤ 1 ∧
      (carrying (drain config uploader queue).requests path ≠ [] →
        ∃ entry, queue.entryAt path = some entry ∧ entry.attempts < config.maxAttempts) := by
  obtain ⟨sent, hsent⟩ := booked_drainFrom config uploader queue.entries.1
    ⟨queue.entries.2, ⟨0, 0, 0, 0, 0⟩, []⟩ queue.nodup_entries fun file hfile => by
      rw [CrashQueue.entryAt_entries]
      exact CrashQueue.mem_entries.mp hfile
  have hcarries : ∀ p ∈ sent, ∃ i, Carries config uploader i p.1 p.2 := by
    intro p hp
    obtain ⟨i, hi⟩ := List.getElem?_of_mem hp
    exact ⟨_, hsent.carries i p hi⟩
  have hrequests : (drain config uploader queue).requests = sent.map Prod.fst := hsent.requests
  have hpaths : (sent.map Prod.fst).flatMap Sent.paths = (sent.flatMap Prod.snd).map Prod.fst := by
    rw [List.flatMap_map, List.map_flatMap]
    exact List.flatMap_congr fun p hp => (hcarries p hp).elim fun _ hi => hi.paths
  rw [hrequests]
  refine ⟨(length_carrying_le _ path).trans ?_, fun hsome => ?_⟩
  · rw [hpaths]
    exact List.nodup_iff_count_le_one.mp
      (queue.nodup_entries.sublist (hsent.inOrder.map Prod.fst)) path
  · obtain ⟨request, hrequest⟩ := List.exists_mem_of_ne_nil _ hsome
    obtain ⟨hin, hpath⟩ := List.mem_filter.mp hrequest
    obtain ⟨p, hp, rfl⟩ := List.mem_map.mp hin
    obtain ⟨i, hi⟩ := hcarries p hp
    have hpath := of_decide_eq_true hpath
    rw [hi.paths] at hpath
    obtain ⟨file, hfile, rfl⟩ := List.mem_map.mp hpath
    exact ⟨file.2, CrashQueue.mem_entries.mp (hsent.inOrder.subset
      (List.mem_flatMap.mpr ⟨p, hp, hfile⟩)), hi.mayTry file hfile⟩

/-- What the requests so far have made of an item that was queued at the start. -/
structure Once (config : UploadConfig) (queue : CrashQueue) (requests : List Sent)
    (path : String) : Prop where
  /-- Only the last request that carried it can have been accepted or refused for good. -/
  last : ∀ request ∈ (carrying requests path).dropLast, ¬ request.Settled
  attempts : ∀ entry, queue.entryAt path = some entry →
    (carrying requests path).length ≤ config.maxAttempts.toNat - entry.attempts.toNat
  queued : queue.entryAt path = none → carrying requests path = []

theorem Once.drain {config : UploadConfig} {queue queue' : CrashQueue} {requests : List Sent}
    {path : String} (uploader : Uploader) (h : Once config queue requests path)
    (happlied : Applied queue requests queue') :
    Once config queue (requests ++ (drain config uploader queue').requests) path := by
  obtain ⟨hone, hqueued⟩ := carrying_drain config uploader queue' path
  have happend : carrying (requests ++ (Telemetry.drain config uploader queue').requests) path =
      carrying requests path ++ carrying (Telemetry.drain config uploader queue').requests path :=
    List.filter_append ..
  match hmore : carrying (Telemetry.drain config uploader queue').requests path with
  | [] =>
    rw [hmore, List.append_nil] at happend
    exact ⟨happend ▸ h.last, happend ▸ h.attempts, happend ▸ h.queued⟩
  | _ :: _ :: _ => exact absurd hone (by rw [hmore]; simp)
  | [request] =>
    rw [hmore] at happend hqueued
    obtain ⟨entry', hentry', hleft⟩ := hqueued (List.cons_ne_nil _ _)
    rw [happlied path] at hentry'
    split at hentry'
    · cases hentry'
    · next hnot =>
      obtain ⟨entry, hentry, rfl⟩ := Option.map_eq_some_iff.mp hentry'
      have hfailed : ∀ request ∈ carrying requests path, ¬ request.Settled := by
        intro request hrequest hsettled
        obtain ⟨hin, hpath⟩ := List.mem_filter.mp hrequest
        exact hnot (settled_iff.mpr ⟨request, hin, of_decide_eq_true hpath, hsettled⟩)
      -- so every request that carried it counts as a failure
      have hfailures : failures requests path = (carrying requests path).length := by
        rw [failures, carrying, ← List.countP_eq_length_filter]
        refine List.countP_congr fun request hrequest => ?_
        rw [Sent.fails, Bool.and_eq_true, and_iff_left_iff_imp]
        intro hpath
        have hnot := hfailed request (List.mem_filter.mpr ⟨hrequest, hpath⟩)
        rwa [Sent.settled_iff, Bool.not_eq_false] at hnot
      have hlt : entry.attempts.toNat + failures requests path < config.maxAttempts.toNat :=
        saturatingAdd_lt_iff.mp hleft
      refine ⟨?_, fun e he => ?_, fun hnone => ?_⟩
      · rw [happend, List.dropLast_concat]
        exact hfailed
      · obtain rfl := Option.some.inj (hentry.symm.trans he)
        rw [happend, List.length_append, List.length_singleton, ← hfailures]
        omega
      · rw [hentry] at hnone
        cases hnone

/-- **Each item is settled at most once.** Whatever the collectors answer, over all the drains of
all runs of the app an item is carried by no request after the one that was accepted or refused for
good, by no more requests than it has attempts left, and only if it is queued. -/
theorem once_appRuns (config : UploadConfig) (queue : CrashQueue) (runs : List (List Uploader))
    (path : String) : Once config queue (appRuns config queue runs).2 path := by
  have hrun : ∀ (drains : List Uploader) (state : CrashQueue × List Sent),
      Applied queue state.2 state.1 → Once config queue state.2 path →
        Once config queue (appRun config state drains).2 path := by
    intro drains
    induction drains with
    | nil => exact fun _ _ h => h
    | cons uploader drains ih =>
      exact fun state happlied h =>
        ih _ (happlied.trans (applied_drain config uploader state.1)) (h.drain uploader happlied)
  have hflat : appRuns config queue runs = appRun config (queue, []) runs.flatten :=
    List.foldl_flatten.symm
  rw [hflat]
  refine hrun _ _ (Applied.nil fun _ => rfl) ⟨?_, fun _ _ => Nat.zero_le _, fun _ => rfl⟩
  exact fun _ h => absurd h List.not_mem_nil

end Goble.Telemetry
