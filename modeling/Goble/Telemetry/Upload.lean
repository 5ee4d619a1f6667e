import Goble.Telemetry.Queue

/-!
# Getting queued items to the collector

A drain reads the queue once and sends it oldest first: a crash alone, a run of events as one
request. What the collector accepted or refused for good is deleted; any other failure counts as
an attempt of every item the request carried, and ends the drain. The count is in the file of the
item, so it is still there in the next run of the app.

* `Applied` — what the requests of a drain, or of many, did to every item of the queue;
* `applied_drain`, `applied_appRuns` — for one drain, and along any number of runs;
* `keepsReports_iff` — the first drain of a later run delivers the whole queue exactly when no
  queued item was carried by `max_attempts` failed requests, over all the runs together.
-/

namespace Goble.Telemetry

inductive UploadErrorKind where
  /-- The request never reached the collector. -/
  | transport
  /-- The collector asked to come back later. -/
  | retryable
  /-- The collector will keep answering the same way. -/
  | rejected
deriving DecidableEq, Repr

structure UploadError where
  kind : UploadErrorKind
  message : String
deriving DecidableEq, Repr

def UploadError.isPermanent (err : UploadError) : Bool := err.kind == .rejected

abbrev Answer := Except UploadError Unit

/-- Sends items to a collector: the answer to the `n`-th request of a drain. -/
structure Uploader where
  upload : (n : Nat) → (base : String) → QueuedItem → Answer
  uploadEvents : (n : Nat) → (base : String) → List QueuedItem → Answer

/-- A collector that accepts everything. -/
def Uploader.accepts : Uploader where
  upload _ _ _ := .ok ()
  uploadEvents _ _ _ := .ok ()

structure UploadConfig where
  base : String
  maxAttempts : UInt32
  maxBatch : Nat
deriving DecidableEq, Repr

structure UploadOutcome where
  uploaded : Nat
  rejected : Nat
  failed : Nat
  skipped : Nat
  remaining : Nat
deriving DecidableEq, Repr

/-- A request of a drain: the files of the items it carried, and the answer. -/
structure Sent where
  paths : List String
  answer : Answer

/-- The state of a drain, with the requests it has made. -/
structure Pass where
  queue : CrashQueue
  outcome : UploadOutcome
  requests : List Sent

abbrev QueueFile := String × QueueEntry

namespace Pass

/-- Items left alone. -/
def skip (pass : Pass) (n : Nat) : Pass :=
  { pass with outcome := { pass.outcome with skipped := pass.outcome.skipped + n } }

def answered (pass : Pass) (batch : List QueueFile) (answer : Answer) (left : Nat) : Pass :=
  match answer with
  | .ok () =>
    { queue := batch.foldl (fun queue file => queue.remove file.1) pass.queue
      outcome := { pass.outcome with uploaded := pass.outcome.uploaded + batch.length }
      requests := pass.requests ++ [⟨batch.map Prod.fst, answer⟩] }
  | .error err =>
    if err.isPermanent then
      { queue := batch.foldl (fun queue file => queue.remove file.1) pass.queue
        outcome := { pass.outcome with rejected := pass.outcome.rejected + batch.length }
        requests := pass.requests ++ [⟨batch.map Prod.fst, answer⟩] }
    else
      { queue := batch.foldl (fun queue file => queue.recordAttempt file.1 file.2) pass.queue
        outcome := { pass.outcome with
          failed := pass.outcome.failed + batch.length
          skipped := pass.outcome.skipped + left }
        requests := pass.requests ++ [⟨batch.map Prod.fst, answer⟩] }

end Pass

/-- A failure that stops the drain: the rest would fail the same way. -/
def Answer.stops : Answer → Bool
  | .ok () => false
  | .error err => !err.isPermanent

def UploadConfig.batches (config : UploadConfig) (file : QueueFile) : Bool :=
  !file.2.item.isCrash && decide (file.2.attempts < config.maxAttempts)

/-- What the next request carries: a crash travels alone, a run of events as one request, which
an item out of attempts ends. -/
def batchOf (config : UploadConfig) (file : QueueFile) (rest : List QueueFile) : List QueueFile :=
  if file.2.item.isCrash then [file]
  else
    ((file :: rest).takeWhile config.batches).take (max config.maxBatch 1)

def answerTo (config : UploadConfig) (uploader : Uploader) (n : Nat) (file : QueueFile)
    (batch : List QueueFile) : Answer :=
  if file.2.item.isCrash then uploader.upload n config.base file.2.item
  else uploader.uploadEvents n config.base (batch.map fun file => file.2.item)

/-- The loop of a drain, over the files it has still to look at. -/
def drainFrom (config : UploadConfig) (uploader : Uploader) :
    List QueueFile → Pass → Pass
  | [], pass => pass
  | file :: rest, pass =>
    if config.maxAttempts ≤ file.2.attempts then
      drainFrom config uploader rest (pass.skip 1)
    else
      let batch := batchOf config file rest
      let answer := answerTo config uploader pass.requests.length file batch
      let left := rest.drop (batch.length - 1)
      if answer.stops then pass.answered batch answer left.length
      else drainFrom config uploader left (pass.answered batch answer left.length)
termination_by files => files.length
decreasing_by
  · exact Nat.lt_succ_self _
  · exact Nat.lt_succ_of_le (by rw [List.length_drop]; exact Nat.sub_le _ _)

theorem batchOf_eq (config : UploadConfig) {file : QueueFile} (rest : List QueueFile)
    (hleft : ¬ config.maxAttempts ≤ file.2.attempts) :
    ∃ more, batchOf config file rest = file :: more ∧ more <+: rest := by
  unfold batchOf
  split
  · exact ⟨[], rfl, List.nil_prefix⟩
  · next hevent =>
    have hfirst : config.batches file = true := by
      simp [UploadConfig.batches, hevent, UInt32.not_le.mp hleft]
    obtain ⟨limit, hlimit⟩ : ∃ limit, max config.maxBatch 1 = limit + 1 :=
      ⟨_, (Nat.succ_pred_eq_of_pos (Nat.le_max_right _ 1)).symm⟩
    rw [List.takeWhile_cons_of_pos hfirst, hlimit, List.take_succ_cons]
    exact ⟨_, rfl, (List.take_prefix _ _).trans (List.takeWhile_prefix _)⟩

theorem batchOf_append (config : UploadConfig) {file : QueueFile} (rest : List QueueFile)
    (hleft : ¬ config.maxAttempts ≤ file.2.attempts) :
    batchOf config file rest ++ rest.drop ((batchOf config file rest).length - 1) =
      file :: rest := by
  obtain ⟨more, hbatch, hmore⟩ := batchOf_eq config rest hleft
  obtain ⟨left, rfl⟩ := hmore
  rw [hbatch, List.length_cons, Nat.add_sub_cancel, List.drop_left, List.cons_append]

/-- Upload as much of the queue as a single pass allows, oldest first. -/
def drain (config : UploadConfig) (uploader : Uploader) (queue : CrashQueue) : Pass :=
  let pass := drainFrom config uploader queue.entries.1 ⟨queue.entries.2, ⟨0, 0, 0, 0, 0⟩, []⟩
  { pass with
    queue := pass.queue.entries.2
    outcome := { pass.outcome with remaining := pass.queue.len } }

/-! ### What requests do to the items -/

/-- The request settled the item: it was accepted, or refused for good. -/
def Sent.settles (request : Sent) (path : String) : Bool :=
  decide (path ∈ request.paths) && !request.answer.stops

def Sent.fails (request : Sent) (path : String) : Bool :=
  decide (path ∈ request.paths) && request.answer.stops

def settled (requests : List Sent) (path : String) : Bool := requests.any (·.settles path)

def failures (requests : List Sent) (path : String) : Nat := requests.countP (·.fails path)

theorem settled_append (requests more : List Sent) (path : String) :
    settled (requests ++ more) path = (settled requests path || settled more path) :=
  List.any_append

theorem failures_append (requests more : List Sent) (path : String) :
    failures (requests ++ more) path = failures requests path + failures more path :=
  List.countP_append

def Applied (queue : CrashQueue) (requests : List Sent) (queue' : CrashQueue) : Prop :=
  ∀ path, queue'.entryAt path =
    if settled requests path then none
    else (queue.entryAt path).map (QueueEntry.failed (failures requests path))

namespace Applied

variable {queue queue' queue'' : CrashQueue} {requests more : List Sent}

theorem nil (h : ∀ path, queue'.entryAt path = queue.entryAt path) : Applied queue [] queue' := by
  intro path
  rw [h]
  change _ = (queue.entryAt path).map (QueueEntry.failed 0)
  cases queue.entryAt path with
  | none => rfl
  | some entry => rw [Option.map_some, QueueEntry.failed_zero]

theorem trans (h : Applied queue requests queue') (h' : Applied queue' more queue'') :
    Applied queue (requests ++ more) queue'' := by
  intro path
  rw [h' path, h path, settled_append, failures_append]
  by_cases hmore : settled more path = true
  · rw [if_pos hmore, hmore, Bool.or_true, if_pos rfl]
  · rw [if_neg hmore, Bool.eq_false_iff.mpr hmore, Bool.or_false]
    split
    · rfl
    · rw [Option.map_map]
      congr 1
      funext entry
      exact entry.failed_failed _ _

theorem of_not_mem (h : Applied queue requests queue') {path : String}
    (hpath : ∀ r ∈ requests, path ∉ r.paths) : queue'.entryAt path = queue.entryAt path := by
  have hsettled : settled requests path = false :=
    List.any_eq_false.mpr fun r hr => by simp [Sent.settles, hpath r hr]
  have hfailures : failures requests path = 0 :=
    List.countP_eq_zero.mpr fun r hr => by simp [Sent.fails, hpath r hr]
  rw [h path, hsettled, hfailures]
  cases queue.entryAt path with
  | none => rfl
  | some entry => exact congrArg some entry.failed_zero

end Applied

theorem entryAt_removeAll (batch : List QueueFile) (queue : CrashQueue) (path : String) :
    (batch.foldl (fun queue file => queue.remove file.1) queue).entryAt path =
      if path ∈ batch.map Prod.fst then none else queue.entryAt path := by
  induction batch generalizing queue with
  | nil => rfl
  | cons file batch ih =>
    rw [List.foldl_cons, ih, CrashQueue.entryAt_remove, List.map_cons]
    simp only [List.mem_cons]
    by_cases hrest : path ∈ batch.map Prod.fst
    · rw [if_pos hrest, if_pos (.inr hrest)]
    · by_cases hfile : path = file.1 <;> simp [hrest, hfile]

theorem entryAt_recordAll {batch : List QueueFile} (hnodup : (batch.map Prod.fst).Nodup)
    {queue : CrashQueue} (hqueued : ∀ file ∈ batch, queue.entryAt file.1 = some file.2)
    (path : String) :
    (batch.foldl (fun queue file => queue.recordAttempt file.1 file.2) queue).entryAt path =
      if path ∈ batch.map Prod.fst then (queue.entryAt path).map (QueueEntry.failed 1)
      else queue.entryAt path := by
  induction batch generalizing queue with
  | nil => rfl
  | cons file batch ih =>
    rw [List.map_cons, List.nodup_cons] at hnodup
    obtain ⟨hfile, hnodup⟩ := hnodup
    have hrecord : ∀ p, (queue.recordAttempt file.1 file.2).entryAt p =
        if p = file.1 then some (file.2.failed 1) else queue.entryAt p :=
      fun p => CrashQueue.entryAt_write queue file.1 p _
    rw [List.foldl_cons, ih hnodup fun f hf => ?_, hrecord, List.map_cons]
    · by_cases he : path = file.1
      · subst he
        rw [if_neg hfile, if_pos rfl, if_pos List.mem_cons_self,
          hqueued file List.mem_cons_self]
        rfl
      · simp only [List.mem_cons, he, false_or, if_false]
    · rw [hrecord, if_neg (show ¬ f.1 = file.1 from fun he => hfile ?_)]
      · exact hqueued f (List.mem_cons_of_mem _ hf)
      · exact List.mem_map.mpr ⟨f, hf, he⟩

theorem Applied.singleton {queue queue' : CrashQueue} {request : Sent}
    (h : ∀ path, queue'.entryAt path =
      if path ∈ request.paths then
        if request.answer.stops then (queue.entryAt path).map (QueueEntry.failed 1) else none
      else queue.entryAt path) : Applied queue [request] queue' := by
  intro path
  have hsettled : settled [request] path = request.settles path := Bool.or_false _
  have hfailures : failures [request] path = if request.fails path then 1 else 0 :=
    List.countP_singleton
  rw [h path, hsettled, hfailures]
  by_cases hpath : path ∈ request.paths
  · cases hstops : request.answer.stops <;> simp [Sent.settles, Sent.fails, hpath, hstops]
  · have hsame : (queue.entryAt path).map (QueueEntry.failed 0) = queue.entryAt path := by
      cases queue.entryAt path <;> simp
    simp [Sent.settles, Sent.fails, hpath, hsame]

/-- **One request.** Its batch is deleted, or has one more failure counted. -/
theorem applied_answered {pass : Pass} {batch : List QueueFile}
    (hnodup : (batch.map Prod.fst).Nodup)
    (hqueued : ∀ file ∈ batch, pass.queue.entryAt file.1 = some file.2) (answer : Answer)
    (left : Nat) :
    (pass.answered batch answer left).requests =
        pass.requests ++ [⟨batch.map Prod.fst, answer⟩] ∧
      Applied pass.queue [⟨batch.map Prod.fst, answer⟩]
        (pass.answered batch answer left).queue := by
  cases answer with
  | ok =>
    refine ⟨rfl, Applied.singleton fun path => ?_⟩
    exact entryAt_removeAll batch pass.queue path
  | error err =>
    by_cases hperm : err.isPermanent = true
    · simp only [Pass.answered, if_pos hperm]
      refine ⟨trivial, Applied.singleton fun path => ?_⟩
      rw [entryAt_removeAll]
      simp [Answer.stops, hperm]
    · simp only [Pass.answered, if_neg hperm]
      refine ⟨trivial, Applied.singleton fun path => ?_⟩
      rw [entryAt_recordAll hnodup hqueued]
      simp [Answer.stops, hperm]

theorem applied_drainFrom (config : UploadConfig) (uploader : Uploader) (files : List QueueFile)
    (pass : Pass) (hnodup : (files.map Prod.fst).Nodup)
    (hqueued : ∀ file ∈ files, pass.queue.entryAt file.1 = some file.2) :
    ∃ more, (drainFrom config uploader files pass).requests = pass.requests ++ more ∧
      Applied pass.queue more (drainFrom config uploader files pass).queue := by
  fun_induction drainFrom config uploader files pass with
  | case1 pass => exact ⟨[], (List.append_nil _).symm, Applied.nil fun _ => rfl⟩
  | case2 file rest pass hout ih =>
    exact ih (List.nodup_cons.mp hnodup).2 fun f hf => hqueued f (List.mem_cons_of_mem _ hf)
  | case3 file rest pass hout batch answer left hstops =>
    have hfiles : batch ++ left = file :: rest := batchOf_append config rest hout
    rw [← hfiles] at hnodup hqueued
    rw [List.map_append] at hnodup
    obtain ⟨hrequests, happlied⟩ := applied_answered hnodup.of_append_left
      (fun f hf => hqueued f (List.mem_append_left _ hf)) answer left.length
    exact ⟨_, hrequests, happlied⟩
  | case4 file rest pass hout batch answer left hstops ih =>
    have hfiles : batch ++ left = file :: rest := batchOf_append config rest hout
    rw [← hfiles] at hnodup hqueued
    rw [List.map_append] at hnodup
    obtain ⟨hrequests, happlied⟩ := applied_answered hnodup.of_append_left
      (fun f hf => hqueued f (List.mem_append_left _ hf)) answer left.length
    -- the request carried none of what is left
    obtain ⟨more, hmore, hrest⟩ := ih hnodup.of_append_right fun f hf => by
      rw [happlied.of_not_mem fun r hr => ?_]
      · exact hqueued f (List.mem_append_right _ hf)
      · obtain rfl := List.mem_singleton.mp hr
        exact fun hin => (List.disjoint_of_nodup_append hnodup) hin (List.mem_map_of_mem hf)
    refine ⟨_ :: more, ?_, happlied.trans hrest⟩
    rw [hmore, hrequests, List.append_assoc]
    rfl

theorem applied_drain (config : UploadConfig) (uploader : Uploader) (queue : CrashQueue) :
    Applied queue (drain config uploader queue).requests (drain config uploader queue).queue := by
  obtain ⟨more, hmore, happlied⟩ := applied_drainFrom config uploader queue.entries.1
    ⟨queue.entries.2, ⟨0, 0, 0, 0, 0⟩, []⟩ queue.nodup_entries fun file hfile => by
      rw [CrashQueue.entryAt_entries]
      exact CrashQueue.mem_entries.mp hfile
  intro path
  simp only [drain, CrashQueue.entryAt_entries, hmore, List.nil_append]
  rw [happlied path, CrashQueue.entryAt_entries]

/-! ### Runs of the app -/

def appRun (config : UploadConfig) (state : CrashQueue × List Sent) (drains : List Uploader) :
    CrashQueue × List Sent :=
  drains.foldl (fun state uploader =>
    ((drain config uploader state.1).queue,
      state.2 ++ (drain config uploader state.1).requests)) state

def appRuns (config : UploadConfig) (queue : CrashQueue) (runs : List (List Uploader)) :
    CrashQueue × List Sent :=
  runs.foldl (appRun config) (queue, [])

theorem applied_appRun (config : UploadConfig) {queue : CrashQueue} (drains : List Uploader)
    {state : CrashQueue × List Sent} (h : Applied queue state.2 state.1) :
    Applied queue (appRun config state drains).2 (appRun config state drains).1 := by
  induction drains generalizing state with
  | nil => exact h
  | cons uploader drains ih => exact ih (h.trans (applied_drain config uploader state.1))

theorem applied_appRuns (config : UploadConfig) (queue : CrashQueue)
    (runs : List (List Uploader)) :
    Applied queue (appRuns config queue runs).2 (appRuns config queue runs).1 := by
  have hrun : ∀ (runs : List (List Uploader)) {state : CrashQueue × List Sent},
      Applied queue state.2 state.1 →
        Applied queue (runs.foldl (appRun config) state).2
          (runs.foldl (appRun config) state).1 := by
    intro runs
    induction runs with
    | nil => exact fun h => h
    | cons drains runs ih => exact fun h => ih (applied_appRun config drains h)
  exact hrun runs (Applied.nil fun _ => rfl)

/-! ### A drain to a collector that accepts everything -/

/-- The item has attempts left. -/
def UploadConfig.mayTry (config : UploadConfig) (file : QueueFile) : Bool :=
  decide (file.2.attempts < config.maxAttempts)

theorem mayTry_of_mem_batchOf {config : UploadConfig} {file f : QueueFile}
    {rest : List QueueFile} (hleft : ¬ config.maxAttempts ≤ file.2.attempts)
    (hf : f ∈ batchOf config file rest) : config.mayTry f = true := by
  unfold batchOf at hf
  split at hf
  · rw [List.mem_singleton.mp hf]
    exact decide_eq_true (UInt32.not_le.mp hleft)
  · have hbatches : config.batches f = true :=
      List.all_eq_true.mp List.all_takeWhile f (List.mem_of_mem_take hf)
    exact (Bool.and_eq_true_iff.mp hbatches).2

theorem answerTo_accepts (config : UploadConfig) (n : Nat) (file : QueueFile)
    (batch : List QueueFile) : answerTo config .accepts n file batch = .ok () :=
  ite_self _

theorem drainFrom_accepts (config : UploadConfig) (files : List QueueFile) (pass : Pass) :
    ∃ more, (drainFrom config .accepts files pass).requests = pass.requests ++ more ∧
      (∀ r ∈ more, r.answer = .ok ()) ∧
      more.flatMap (·.paths) = (files.filter config.mayTry).map Prod.fst ∧
      (drainFrom config .accepts files pass).outcome.uploaded =
        pass.outcome.uploaded + (files.filter config.mayTry).length := by
  fun_induction drainFrom config .accepts files pass with
  | case1 pass => exact ⟨[], (List.append_nil _).symm, List.forall_mem_nil _, rfl, rfl⟩
  | case2 file rest pass hout ih =>
    rw [List.filter_cons_of_neg (show ¬ config.mayTry file = true from
      fun h => UInt32.not_le.mpr (of_decide_eq_true h) hout)]
    exact ih
  | case3 file rest pass hout batch answer left hstops =>
    have hok : answer = .ok () := answerTo_accepts config _ file batch
    rw [hok] at hstops
    cases hstops
  | case4 file rest pass hout batch answer left hstops ih =>
    have hok : answer = .ok () := answerTo_accepts config _ file batch
    have hfiles : batch ++ left = file :: rest := batchOf_append config rest hout
    have hbatch : batch.filter config.mayTry = batch :=
      List.filter_eq_self.mpr fun f hf => mayTry_of_mem_batchOf hout hf
    obtain ⟨more, hmore, hall, hpaths, huploaded⟩ := ih
    rw [← hfiles, List.filter_append, hbatch]
    refine ⟨⟨batch.map Prod.fst, .ok ()⟩ :: more, ?_, List.forall_mem_cons.mpr ⟨rfl, hall⟩, ?_, ?_⟩
    · rw [hmore, hok, List.append_cons]
      rfl
    · rw [List.flatMap_cons, hpaths, List.map_append]
    · rw [huploaded, hok, List.length_append, ← Nat.add_assoc]
      rfl

theorem drain_accepts (config : UploadConfig) (queue : CrashQueue) :
    (∀ r ∈ (drain config .accepts queue).requests, r.answer = .ok ()) ∧
      (∀ path, (∃ r ∈ (drain config .accepts queue).requests, path ∈ r.paths) ↔
        ∃ entry, queue.entryAt path = some entry ∧ entry.attempts < config.maxAttempts) ∧
      (drain config .accepts queue).outcome.uploaded =
        (queue.entries.1.filter config.mayTry).length := by
  obtain ⟨more, hmore, hall, hpaths, huploaded⟩ := drainFrom_accepts config queue.entries.1
    ⟨queue.entries.2, ⟨0, 0, 0, 0, 0⟩, []⟩
  rw [List.nil_append] at hmore
  rw [Nat.zero_add] at huploaded
  refine ⟨hmore ▸ hall, fun path => ?_, huploaded⟩
  have hcarried : (∃ r ∈ more, path ∈ r.paths) ↔
      path ∈ (queue.entries.1.filter config.mayTry).map Prod.fst := by
    rw [← hpaths, List.mem_flatMap]
  rw [show (drain config .accepts queue).requests = more from hmore, hcarried]
  constructor
  · intro hpath
    obtain ⟨⟨p, entry⟩, hfile, rfl⟩ := List.mem_map.mp hpath
    obtain ⟨hin, htry⟩ := List.mem_filter.mp hfile
    exact ⟨entry, CrashQueue.mem_entries.mp hin, of_decide_eq_true htry⟩
  · rintro ⟨entry, hentry, htry⟩
    exact List.mem_map.mpr ⟨(path, entry), List.mem_filter.mpr
      ⟨CrashQueue.mem_entries.mpr hentry, decide_eq_true htry⟩, rfl⟩

theorem drain_accepts_isEmpty {config : UploadConfig} {queue : CrashQueue} :
    (drain config .accepts queue).queue.isEmpty = true ↔
      ∀ path entry, queue.entryAt path = some entry → entry.attempts < config.maxAttempts := by
  obtain ⟨hok, hcarried, -⟩ := drain_accepts config queue
  have happlied := applied_drain config .accepts queue
  rw [CrashQueue.isEmpty_iff]
  constructor
  · intro hempty path entry hentry
    by_contra hout
    have hnot : ∀ r ∈ (drain config .accepts queue).requests, path ∉ r.paths := by
      intro r hr hpath
      obtain ⟨entry', hentry', htry⟩ := (hcarried path).mp ⟨r, hr, hpath⟩
      obtain rfl := Option.some.inj (hentry.symm.trans hentry')
      exact hout htry
    rw [← happlied.of_not_mem hnot, hempty path] at hentry
    cases hentry
  · intro hall path
    cases hentry : queue.entryAt path with
    | none => rw [happlied path, hentry]; exact ite_self _
    | some entry =>
      obtain ⟨r, hr, hpath⟩ := (hcarried path).mpr ⟨entry, hentry, hall path entry hentry⟩
      have hsettled : settled (drain config .accepts queue).requests path = true := by
        refine List.any_eq_true.mpr ⟨r, hr, ?_⟩
        simp [Sent.settles, hpath, hok r hr, Answer.stops]
      rw [happlied path, hsettled, if_pos rfl]

/-! ### No report is lost -/

/-- Being offline loses no report: after any number of runs of the app an item that was neither
accepted nor refused is still queued as it was, but for its failures; and the first drain of the
next run, to a collector that accepts everything, uploads all that is queued. -/
def KeepsReports (config : UploadConfig) (queue : CrashQueue) (runs : List (List Uploader)) :
    Prop :=
  (∀ path entry, queue.entryAt path = some entry →
    settled (appRuns config queue runs).2 path = false →
      ∃ n, (appRuns config queue runs).1.entryAt path = some (entry.failed n)) ∧
  (∀ path entry, (appRuns config queue runs).1.entryAt path = some entry →
    ∃ r ∈ (drain config .accepts (appRuns config queue runs).1).requests,
      path ∈ r.paths ∧ r.answer = .ok ()) ∧
  (drain config .accepts (appRuns config queue runs).1).outcome.uploaded =
    (appRuns config queue runs).1.len ∧
  (drain config .accepts (appRuns config queue runs).1).queue.isEmpty = true

theorem attempts_appRuns (config : UploadConfig) (queue : CrashQueue)
    (runs : List (List Uploader)) :
    (∀ path entry, (appRuns config queue runs).1.entryAt path = some entry →
        entry.attempts < config.maxAttempts) ↔
      ∀ path entry, queue.entryAt path = some entry →
        settled (appRuns config queue runs).2 path = false →
          entry.attempts.toNat + failures (appRuns config queue runs).2 path <
            config.maxAttempts.toNat := by
  have happlied := applied_appRuns config queue runs
  constructor
  · intro h path entry hentry hleft
    refine saturatingAdd_lt_iff.mp (h path (entry.failed _) ?_)
    rw [happlied path, hleft, hentry]
    rfl
  · intro h path entry' hentry'
    rw [happlied path] at hentry'
    split at hentry'
    · cases hentry'
    · next hleft =>
      obtain ⟨entry, hentry, rfl⟩ := Option.map_eq_some_iff.mp hentry'
      exact saturatingAdd_lt_iff.mpr (h path entry hentry (Bool.eq_false_iff.mpr hleft))

/-- **Offline runs use up the attempts.** No item is ever lost from the disk, but the first drain
of a later run delivers the queue exactly when, for every item not yet settled, the attempts its
file had and the failed requests that carried it in all the runs are together fewer than
`max_attempts`. -/
theorem keepsReports_iff (config : UploadConfig) (queue : CrashQueue)
    (runs : List (List Uploader)) :
    KeepsReports config queue runs ↔
      ∀ path entry, queue.entryAt path = some entry →
        settled (appRuns config queue runs).2 path = false →
          entry.attempts.toNat + failures (appRuns config queue runs).2 path <
            config.maxAttempts.toNat := by
  rw [← attempts_appRuns]
  constructor
  · exact fun h => drain_accepts_isEmpty.mp h.2.2.2
  · intro hall
    obtain ⟨hok, hcarried, huploaded⟩ := drain_accepts config (appRuns config queue runs).1
    refine ⟨fun path entry hentry hleft => ?_, fun path entry hentry => ?_, ?_,
      drain_accepts_isEmpty.mpr hall⟩
    · refine ⟨failures (appRuns config queue runs).2 path, ?_⟩
      rw [applied_appRuns config queue runs path, hleft, hentry]
      rfl
    · obtain ⟨r, hr, hpath⟩ := (hcarried path).mpr ⟨entry, hentry, hall path entry hentry⟩
      exact ⟨r, hr, hpath, hok r hr⟩
    · rw [huploaded, List.filter_eq_self.mpr]
      · rfl
      · rintro ⟨path, entry⟩ hfile
        exact decide_eq_true (hall path entry (CrashQueue.mem_entries.mp hfile))

/-- One crash report, and one attempt for each item. -/
def oneCrash : CrashQueue :=
  ⟨(∅ : Table String (Option QueueEntry)).insert "0000000000000-a.json"
    (some ⟨"a", 0, 0, .crash "boom"⟩)⟩

/-- A collector that cannot be reached. -/
def Uploader.offline : Uploader where
  upload _ _ _ := .error ⟨.transport, "offline"⟩
  uploadEvents _ _ _ := .error ⟨.transport, "offline"⟩

/-- One drain while offline uses up the attempt: the next run does not send the report. -/
theorem not_keepsReports_offline :
    ¬ KeepsReports ⟨"http://collector.invalid", 1, 100⟩ oneCrash [[.offline]] := by
  intro h
  have hempty := h.2.2.2
  revert hempty
  decide +kernel

end Goble.Telemetry
