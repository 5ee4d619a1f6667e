import Goble.Lib.Machine

/-!
# The election of the scheduler

The workers of a cluster compete for one Kubernetes lease. Each tries to get it when it starts, and
from then on again every few seconds. An attempt (`acquire_or_renew`) reads the lease, decides from
what it says and from the clock, and writes; the server takes a write only if it names the version
that the lease has, and a create only if there is none. Requests and answers may be lost, a write
may reach the server after its worker has given it up, and a worker may rest anywhere for as long as
it likes, or die. The clock that a worker reads is carried by the label.

The scheduler asks `LeaderState`, and that is set by one attempt only, the one at the start. What
the later attempts find is not looked at. So the flag follows the lease exactly as long as its
holder changes at a start alone, at a time when no live worker has the flag, and the start of a
worker that holds the lease gets through (`Orderly`).
-/

namespace Goble.Leader

/-- The name of a pod. No two live workers have the same. -/
abbrev Identity := List Char

structure LeaseSpec where
  holderIdentity : Option Identity
  leaseDurationSeconds : Option Nat
  acquireTime : Option Int
  renewTime : Option Int
deriving DecidableEq, Repr

/-- The lease, with the times in nanoseconds. -/
structure Lease where
  resourceVersion : Option Nat
  spec : LeaseSpec
deriving DecidableEq, Repr

def leaseDurationSeconds : Nat := 30

def leaseOf (identity : Identity) (now : Int) (resourceVersion : Option Nat) : Lease :=
  ⟨resourceVersion, ⟨some identity, some leaseDurationSeconds, some now, some now⟩⟩

/-- What an attempt at `now` makes of the lease it has read: the version to write over, or nothing
if another holds it. A lease that does not exist is created, without a version. -/
def decideWrite (identity : Identity) (now : Int) : Option Lease → Option (Option Nat)
  | none => some none
  | some existing =>
    let isHolder := match existing.spec.holderIdentity with
      | some holder => decide (holder = identity)
      | none => false
    let expired := match existing.spec.renewTime with
      | some t => decide (t + leaseDurationSeconds * 1000000000 < now)
      | none => true
    if isHolder || expired then some existing.resourceVersion else none

/-- Whether the server takes a write: a create where there is no lease, or the version it has. -/
def accepts : Option Lease → Option Nat → Bool
  | none, none => true
  | some current, some version => current.resourceVersion = some version
  | _, _ => false

inductive Phase where
  | idle
  /-- The clock has been read, the lease has not. -/
  | reading (now : Int)
  | writing (now : Int) (version : Option Nat)
  /-- The write is under way, and its answer is waited for. -/
  | waiting (ticket : Nat)
deriving DecidableEq, Repr

structure Worker where
  /-- What the scheduler asks. -/
  isLeader : Bool
  /-- In the attempt at the start. -/
  starting : Bool
  phase : Phase
  /-- An attempt has been completed after the holder of the lease has last changed. -/
  renewed : Bool
  /-- Who held the lease when it was last read. -/
  saw : Option Identity
deriving DecidableEq, Repr

/-- A write that has been sent and not yet handled. -/
structure Write where
  ticket : Nat
  identity : Identity
  now : Int
  version : Option Nat
deriving DecidableEq, Repr

structure Election where
  lease : Option Lease
  /-- The next version the server gives. -/
  versions : Nat
  workers : Identity → Option Worker
  inFlight : List Write
  tickets : Nat

inductive ElectionStep where
  | start (id : Identity) (now : Int)
  /-- The interval of a running worker is over. -/
  | tick (id : Identity) (now : Int)
  /-- The server is asked for the lease. The answer may get lost. -/
  | read (id : Identity) (answered : Bool)
  | send (id : Identity)
  /-- The server handles a write. The answer may get lost. -/
  | serve (ticket : Nat) (answered : Bool)
  | drop (ticket : Nat)
  /-- A worker waits no longer. -/
  | giveUp (id : Identity)
  | die (id : Identity)
deriving DecidableEq, Repr

/-- The end of an attempt: the flag is set at the start, if the lease was got. -/
def Worker.finish (w : Worker) (acquired : Bool) : Worker :=
  { w with
    isLeader := w.isLeader || (w.starting && acquired)
    starting := false
    phase := .idle
    renewed := true }

namespace Election

def init (lease : Option Lease) : Election where
  lease
  versions := ((lease.bind Lease.resourceVersion).getD 0) + 1
  workers _ := none
  inFlight := []
  tickets := 0

def holder (s : Election) : Option Identity := s.lease.bind fun lease => lease.spec.holderIdentity

def setWorker (s : Election) (id : Identity) (w : Worker) : Election :=
  { s with workers := Function.update s.workers id (some w) }

/-- The lease after a write that is taken. A new holder is one that no worker has renewed under. -/
def put (s : Election) (write : Write) : Election :=
  { s with
    lease := some { leaseOf write.identity write.now write.version with
      resourceVersion := some s.versions }
    versions := s.versions + 1
    workers := if s.holder = some write.identity then s.workers
      else fun id => (s.workers id).map fun w => { w with renewed := false } }

def answer (s : Election) (write : Write) (acquired : Bool) : Election :=
  match s.workers write.identity with
  | some w =>
    if w.phase = .waiting write.ticket then s.setWorker write.identity (w.finish acquired) else s
  | none => s

def step (s : Election) : ElectionStep → Option Election
  | .start id now =>
    match s.workers id with
    | none => some (s.setWorker id ⟨false, true, .reading now, false, none⟩)
    | some _ => none
  | .tick id now =>
    (s.workers id).bind fun w =>
      if w.phase = .idle then some (s.setWorker id { w with phase := .reading now }) else none
  | .read id answered =>
    (s.workers id).bind fun w =>
      match w.phase with
      | .reading now =>
        if answered then
          let w := { w with saw := s.holder }
          match decideWrite id now s.lease with
          | some version => some (s.setWorker id { w with phase := .writing now version })
          | none => some (s.setWorker id (w.finish false))
        else some (s.setWorker id (w.finish false))
      | _ => none
  | .send id =>
    (s.workers id).bind fun w =>
      match w.phase with
      | .writing now version =>
        some { s.setWorker id { w with phase := .waiting s.tickets } with
          inFlight := s.inFlight ++ [⟨s.tickets, id, now, version⟩]
          tickets := s.tickets + 1 }
      | _ => none
  | .serve ticket answered =>
    (s.inFlight.find? (·.ticket = ticket)).map fun write =>
      let taken := accepts s.lease write.version
      let s := { s with inFlight := s.inFlight.erase write }
      let s := if taken then s.put write else s
      if answered then s.answer write taken else s
  | .drop ticket => some { s with inFlight := s.inFlight.filter (·.ticket ≠ ticket) }
  | .giveUp id =>
    (s.workers id).bind fun w =>
      match w.phase with
      | .waiting _ => some (s.setWorker id (w.finish false))
      | _ => none
  | .die id => some { s with workers := Function.update s.workers id none }

end Election

/-- One lease and any number of workers. -/
def election (lease : Option Lease) : Machine Election ElectionStep := ⟨.init lease, Election.step⟩

/-! ### What the flags have to say -/

/-- Where every live worker has completed an attempt since the holder last changed, the worker that
holds the lease is the one with the flag. -/
def Election.Leads (s : Election) : Prop :=
  (∀ id w, s.workers id = some w → w.renewed = true) →
    ∀ id w, s.workers id = some w → (w.isLeader = true ↔ s.holder = some id)

/-- Two live workers do not both have the flag when one has seen that the other holds the lease. -/
def Election.OneSchedules (s : Election) : Prop :=
  ∀ id id' w w', s.workers id = some w → s.workers id' = some w' →
    w.isLeader = true → w'.isLeader = true → w.saw = some id' → id = id'

/-- No live worker has the flag. -/
def Election.Vacant (s : Election) : Prop :=
  ∀ id w, s.workers id = some w → w.isLeader = false

/-- A worker in its first attempt does not hold the lease, so that it may end without. -/
def Election.MayFail (s : Election) (id : Identity) : Prop :=
  ∀ w, s.workers id = some w → w.starting = true → s.holder ≠ some id

/-- The holder of the lease changes by the attempt of a worker that starts, waits for the answer and
gets it, while no live worker has the flag; and the start of a worker that holds the lease does not
end without it. -/
def Election.Orderly (s : Election) : ElectionStep → Prop
  | .read id false => s.MayFail id
  | .giveUp id => s.MayFail id
  | .serve ticket answered => ∀ write, s.inFlight.find? (·.ticket = ticket) = some write →
      if accepts s.lease write.version then
        s.holder ≠ some write.identity →
          answered = true ∧ s.Vacant ∧ ∃ w, s.workers write.identity = some w ∧ w.starting = true ∧
            w.phase = .waiting ticket
      else answered = true → s.MayFail write.identity
  | _ => True

/-! ### The invariant -/

structure Worker.Follows (held : Prop) (w : Worker) : Prop where
  holds : w.isLeader = true → held
  flag : w.starting = false → held → w.isLeader = true
  starting : w.starting = true → w.isLeader = false
  renewed : w.starting = true → w.renewed = false

/-- Every flag follows the lease. -/
def Election.Sound (s : Election) : Prop :=
  ∀ id w, s.workers id = some w → w.Follows (s.holder = some id)

theorem Worker.Follows.finish {held : Prop} {w : Worker} (h : w.Follows held) {acquired : Bool}
    (hgot : acquired = true → held) (hfail : acquired = false → w.starting = true → ¬ held) :
    (w.finish acquired).Follows held := by
  refine ⟨fun hleader => ?_, fun _ hholds => ?_, fun hstarting => absurd hstarting Bool.false_ne_true,
    fun hstarting => absurd hstarting Bool.false_ne_true⟩
  · rcases Bool.or_eq_true_iff.mp hleader with hleader | hleader
    · exact h.holds hleader
    · exact hgot (Bool.and_eq_true_iff.mp hleader).2
  · show (w.isLeader || (w.starting && acquired)) = true
    rw [Bool.or_eq_true_iff, Bool.and_eq_true_iff]
    cases hstarting : w.starting with
    | false => exact .inl (h.flag hstarting hholds)
    | true =>
      cases acquired with
      | true => exact .inr ⟨rfl, rfl⟩
      | false => exact absurd hholds (hfail rfl hstarting)

theorem Worker.Follows.of_same {held : Prop} {w w' : Worker} (h : w.Follows held)
    (hleader : w'.isLeader = w.isLeader) (hstarting : w'.starting = w.starting)
    (hrenewed : w'.renewed = true → w.renewed = true) : w'.Follows held where
  holds h' := h.holds (hleader ▸ h')
  flag h' hholds := hleader ▸ h.flag (hstarting ▸ h') hholds
  starting h' := hleader ▸ h.starting (hstarting ▸ h')
  renewed h' := eq_false_of_ne_true fun h'' =>
    absurd (hrenewed h'') (ne_true_of_eq_false (h.renewed (hstarting ▸ h')))

namespace Election

variable {s s' : Election} {id : Identity} {w : Worker}

@[simp] theorem holder_setWorker : (s.setWorker id w).holder = s.holder := rfl

theorem workers_setWorker_self : (s.setWorker id w).workers id = some w := Function.update_self _ _ _

theorem workers_setWorker_of_ne {id' : Identity} (h : id' ≠ id) :
    (s.setWorker id w).workers id' = s.workers id' := Function.update_of_ne h _ _

theorem Sound.setWorker (h : s.Sound) (hw : w.Follows (s.holder = some id)) :
    (s.setWorker id w).Sound := by
  intro id' w' hw'
  by_cases hid : id' = id
  · subst hid
    obtain rfl := Option.some.inj (workers_setWorker_self.symm.trans hw')
    exact hw
  · exact h id' w' ((workers_setWorker_of_ne hid).symm.trans hw')

/-- An attempt that ends without the lease. -/
theorem Sound.fail (h : s.Sound) (hw : s.workers id = some w) (hfail : s.MayFail id)
    {w' : Worker} (hleader : w'.isLeader = w.isLeader) (hstarting : w'.starting = w.starting)
    (hrenewed : w'.renewed = true → w.renewed = true) :
    (s.setWorker id (w'.finish false)).Sound := by
  have hfollows := (h id w hw).of_same hleader hstarting hrenewed
  refine h.setWorker (hfollows.finish (by simp) fun _ hstart => ?_)
  exact hfail w hw (hstarting ▸ hstart)

theorem holder_put (write : Write) : (s.put write).holder = some write.identity := rfl

variable {write : Write}

theorem workers_put (h : (s.put write).workers id = some w) :
    ∃ w₀, s.workers id = some w₀ ∧ w.isLeader = w₀.isLeader ∧ w.starting = w₀.starting ∧
      (w.renewed = true → w₀.renewed = true) := by
  rw [put] at h
  dsimp only at h
  split at h
  · exact ⟨w, h, rfl, rfl, fun h => h⟩
  · obtain ⟨w₀, hw₀, rfl⟩ := Option.map_eq_some_iff.mp h
    exact ⟨w₀, hw₀, rfl, rfl, fun h => absurd h Bool.false_ne_true⟩

/-- A write of the worker that holds the lease already changes no flag. -/
theorem Sound.renew (h : s.Sound) (hholder : s.holder = some write.identity) :
    (s.put write).Sound := by
  intro id w hw
  obtain ⟨w₀, hw₀, hleader, hstarting, hrenewed⟩ := workers_put hw
  rw [holder_put, ← hholder]
  exact (h id w₀ hw₀).of_same hleader hstarting hrenewed

theorem Sound.answer_taken (h : s.Sound) (hholder : s.holder = some write.identity) :
    (s.answer write true).Sound := by
  rw [answer]
  split
  · next w hw =>
    split
    · exact h.setWorker ((h _ w hw).finish (fun _ => hholder) (by simp))
    · exact h
  · exact h

theorem Sound.answer_refused (h : s.Sound) (hfail : s.MayFail write.identity) :
    (s.answer write false).Sound := by
  rw [answer]
  split
  · next w hw =>
    split
    · exact h.fail hw hfail rfl rfl fun h => h
    · exact h
  · exact h

theorem Sound.takeOver (h : s.Sound) (hchange : s.holder ≠ some write.identity) (hvacant : s.Vacant)
    (hw : s.workers write.identity = some w) (hstarting : w.starting = true)
    (hphase : w.phase = .waiting write.ticket) : ((s.put write).answer write true).Sound := by
  have hput : (s.put write).workers write.identity = some { w with renewed := false } := by
    rw [put]
    dsimp only
    rw [if_neg hchange, hw]
    rfl
  rw [answer, hput]
  dsimp only
  rw [if_pos hphase]
  intro id w' hw'
  by_cases hid : id = write.identity
  · subst hid
    obtain rfl := Option.some.inj (workers_setWorker_self.symm.trans hw')
    have hfinish : (Worker.finish { w with renewed := false } true).isLeader = true := by
      show (w.isLeader || (w.starting && true)) = true
      rw [hstarting, Bool.true_and, Bool.or_true]
    exact ⟨fun _ => rfl, fun _ _ => hfinish, fun h => absurd h Bool.false_ne_true,
      fun h => absurd h Bool.false_ne_true⟩
  · rw [workers_setWorker_of_ne hid] at hw'
    obtain ⟨w₀, hw₀, hleader, hstart, hrenewed⟩ := workers_put hw'
    have hother : ¬ ((s.put write).setWorker write.identity
        (Worker.finish { w with renewed := false } true)).holder = some id := by
      rw [holder_setWorker, holder_put]
      exact fun heq => hid (Option.some.inj heq).symm
    have hflag : w'.isLeader = false := hleader.trans (hvacant id w₀ hw₀)
    refine ⟨fun h => absurd (hflag.symm.trans h) Bool.false_ne_true,
      fun _ hholds => absurd hholds hother, fun _ => hflag, fun h' => ?_⟩
    have hold := (h id w₀ hw₀).renewed (hstart ▸ h')
    exact eq_false_of_ne_true fun hnew => absurd (hrenewed hnew) (ne_true_of_eq_false hold)

/-- **Step lemma.** A step that the condition admits keeps the flags in line with the lease. -/
theorem Sound.step (h : s.Sound) {l : ElectionStep} (horderly : s.Orderly l)
    (hstep : s.step l = some s') : s'.Sound := by
  cases l with
  | start id now =>
    rw [Election.step] at hstep
    split at hstep
    · obtain rfl := Option.some.inj hstep
      exact h.setWorker ⟨fun h => absurd h Bool.false_ne_true,
        fun h => absurd h.symm Bool.false_ne_true, fun _ => rfl, fun _ => rfl⟩
    · exact absurd hstep (by simp)
  | tick id now =>
    obtain ⟨w, hw, hstep⟩ := Option.bind_eq_some_iff.mp hstep
    split at hstep
    · obtain rfl := Option.some.inj hstep
      exact h.setWorker ((h id w hw).of_same rfl rfl fun h => h)
    · exact absurd hstep (by simp)
  | read id answered =>
    obtain ⟨w, hw, hstep⟩ := Option.bind_eq_some_iff.mp hstep
    split at hstep
    · next now _ =>
      cases answered with
      | false =>
        obtain rfl := Option.some.inj hstep
        exact h.fail hw horderly rfl rfl fun h => h
      | true =>
        rw [if_pos rfl] at hstep
        dsimp only at hstep
        split at hstep
        · obtain rfl := Option.some.inj hstep
          exact h.setWorker ((h id w hw).of_same rfl rfl fun h => h)
        · next hother =>
          obtain rfl := Option.some.inj hstep
          refine h.fail hw (fun _ _ _ hholder => ?_) rfl rfl fun h => h
          -- the holder always writes
          obtain ⟨lease, hlease, hspec⟩ := Option.bind_eq_some_iff.mp hholder
          rw [hlease, decideWrite, hspec] at hother
          simp at hother
    · exact absurd hstep (by simp)
  | send id =>
    obtain ⟨w, hw, hstep⟩ := Option.bind_eq_some_iff.mp hstep
    split at hstep
    · obtain rfl := Option.some.inj hstep
      exact Sound.setWorker h ((h id w hw).of_same rfl rfl fun h => h)
    · exact absurd hstep (by simp)
  | serve ticket answered =>
    obtain ⟨write, hfind, rfl⟩ := Option.map_eq_some_iff.mp hstep
    have hticket : write.ticket = ticket := by simpa using List.find?_some hfind
    have hwrite := horderly write hfind
    have herased : Sound { s with inFlight := s.inFlight.erase write } := h
    dsimp only
    split at hwrite
    · next htaken =>
      rw [if_pos htaken, htaken]
      by_cases hholder : s.holder = some write.identity
      · have hput := herased.renew hholder
        split
        · exact hput.answer_taken (holder_put write)
        · exact hput
      · obtain ⟨hanswered, hvacant, w, hw, hstarting, hphase⟩ := hwrite hholder
        rw [if_pos hanswered]
        exact herased.takeOver hholder hvacant hw hstarting (hphase.trans (by rw [hticket]))
    · next htaken =>
      rw [if_neg htaken, eq_false_of_ne_true htaken]
      split
      · next hanswered => exact herased.answer_refused (hwrite hanswered)
      · exact herased
  | drop ticket =>
    obtain rfl := Option.some.inj hstep
    exact h
  | giveUp id =>
    obtain ⟨w, hw, hstep⟩ := Option.bind_eq_some_iff.mp hstep
    split at hstep
    · obtain rfl := Option.some.inj hstep
      exact h.fail hw horderly rfl rfl fun h => h
    · exact absurd hstep (by simp)
  | die id =>
    obtain rfl := Option.some.inj hstep
    intro id' w hw
    by_cases hid : id' = id
    · subst hid
      exact absurd ((Function.update_self _ _ _).symm.trans hw) (by simp)
    · exact h id' w ((Function.update_of_ne hid _ _).symm.trans hw)

end Election

/-! ### Every run -/

variable {lease : Option Lease} {s : Election} {steps : List ElectionStep}

theorem sound_of_run (horderly : (election lease).Along Election.Orderly (.init lease) steps)
    (hrun : (election lease).exec (.init lease) steps = some s) : s.Sound :=
  Machine.invariant (M := election lease) (I := Election.Sound)
    (fun _ _ h => absurd h (by simp [election, Election.init]))
    (fun _ _ _ h horderly hstep => h.step horderly hstep) horderly hrun

/-- In the runs that are orderly the flags follow the lease in every state. -/
theorem leads_of_orderly (horderly : (election lease).Along Election.Orderly (.init lease) steps)
    (hrun : (election lease).exec (.init lease) steps = some s) : s.Leads ∧ s.OneSchedules := by
  have hsound := sound_of_run horderly hrun
  constructor
  · intro hrenewed id w hw
    have hfollows := hsound id w hw
    refine ⟨hfollows.holds, fun hholder => ?_⟩
    cases hstarting : w.starting with
    | false => exact hfollows.flag hstarting hholder
    | true =>
      exact absurd (hrenewed id w hw) (ne_true_of_eq_false (hfollows.renewed hstarting))
  · intro id id' w w' hw hw' hleader hleader' _
    have hholds := (hsound id w hw).holds hleader
    have hholds' := (hsound id' w' hw').holds hleader'
    exact Option.some.inj (hholds.symm.trans hholds')

theorem workers_step {l : ElectionStep} {s' : Election} {id : Identity} (h : s.workers id = none)
    (hl : ∀ now, l ≠ .start id now) (hstep : s.step l = some s') : s'.workers id = none := by
  have hset : ∀ {t : Election} {id' : Identity} {w w' : Worker}, t.workers id = none →
      t.workers id' = some w → (t.setWorker id' w').workers id = none := by
    intro t id' w w' hnone hw
    have hne : id ≠ id' := fun heq => absurd (hnone.symm.trans (heq ▸ hw)) (by simp)
    exact (Election.workers_setWorker_of_ne hne).trans hnone
  cases l with
  | start id' now =>
    rw [Election.step] at hstep
    split at hstep
    · obtain rfl := Option.some.inj hstep
      exact (Election.workers_setWorker_of_ne fun heq => hl now (by rw [heq])).trans h
    · exact absurd hstep (by simp)
  | tick id' now =>
    obtain ⟨w, hw, hstep⟩ := Option.bind_eq_some_iff.mp hstep
    split at hstep
    · obtain rfl := Option.some.inj hstep
      exact hset h hw
    · exact absurd hstep (by simp)
  | read id' answered =>
    obtain ⟨w, hw, hstep⟩ := Option.bind_eq_some_iff.mp hstep
    split at hstep
    · split at hstep
      · dsimp only at hstep
        split at hstep
        all_goals
          obtain rfl := Option.some.inj hstep
          exact hset h hw
      · obtain rfl := Option.some.inj hstep
        exact hset h hw
    · exact absurd hstep (by simp)
  | send id' =>
    obtain ⟨w, hw, hstep⟩ := Option.bind_eq_some_iff.mp hstep
    split at hstep
    · obtain rfl := Option.some.inj hstep
      exact hset h hw
    · exact absurd hstep (by simp)
  | serve ticket answered =>
    obtain ⟨write, -, rfl⟩ := Option.map_eq_some_iff.mp hstep
    have hput : ∀ t : Election, t.workers id = none → (t.put write).workers id = none := by
      intro t hnone
      rw [Election.put]
      dsimp only
      split
      · exact hnone
      · show Option.map _ (t.workers id) = none
        rw [hnone]
        rfl
    have hanswer : ∀ (t : Election) (acquired : Bool), t.workers id = none →
        (t.answer write acquired).workers id = none := by
      intro t acquired hnone
      rw [Election.answer]
      split
      · next w hw =>
        split
        · exact hset hnone hw
        · exact hnone
      · exact hnone
    dsimp only
    split <;> split
    · exact hanswer _ _ (hput _ h)
    · exact hanswer _ _ h
    · exact hput _ h
    · exact h
  | drop ticket =>
    obtain rfl := Option.some.inj hstep
    exact h
  | giveUp id' =>
    obtain ⟨w, hw, hstep⟩ := Option.bind_eq_some_iff.mp hstep
    split at hstep
    · obtain rfl := Option.some.inj hstep
      exact hset h hw
    · exact absurd hstep (by simp)
  | die id' =>
    obtain rfl := Option.some.inj hstep
    by_cases hid : id = id'
    · subst hid
      exact Function.update_self _ _ _
    · exact (Function.update_of_ne hid _ _).trans h

theorem workers_of_run {id : Identity} (hsteps : ∀ l ∈ steps, ∀ now, l ≠ .start id now)
    (hrun : (election lease).exec (.init lease) steps = some s) : s.workers id = none :=
  Machine.invariant (M := election lease) (I := fun s => s.workers id = none)
    (C := fun _ l => ∀ now, l ≠ .start id now) rfl
    (fun _ _ _ h hl hstep => workers_step h hl hstep)
    ((Machine.along_true _ _).and_labels hsteps |>.mono fun _ _ h => h.2) hrun

/-! ### Two workers -/

/-- One worker starts and gets the lease, the other one starts and does not. -/
def twoStarts : List ElectionStep :=
  [.start ['a'] 0, .read ['a'] true, .send ['a'], .serve 0 true,
    .start ['b'] 1, .read ['b'] true]

theorem leads_two_starts : ∃ s, (election none).exec (.init none) twoStarts = some s ∧
    s.Leads ∧ s.OneSchedules := by
  refine ⟨_, rfl, @leads_of_orderly none _ twoStarts ?_ rfl⟩
  refine ⟨trivial, fun _ h => ?_⟩
  obtain rfl := Option.some.inj h
  refine ⟨trivial, fun _ h => ?_⟩
  obtain rfl := Option.some.inj h
  refine ⟨trivial, fun _ h => ?_⟩
  obtain rfl := Option.some.inj h
  refine ⟨fun write hfind => ?_, fun _ h => ?_⟩
  · -- the write of the only worker, which is the one that starts
    obtain rfl : (⟨0, ['a'], 0, none⟩ : Write) = write := Option.some.inj hfind
    rw [if_pos (by rfl)]
    refine fun _ => ⟨rfl, fun id w hw => ?_, _, rfl, rfl, rfl⟩
    by_cases hid : id = ['a']
    · subst hid
      obtain rfl := Option.some.inj hw
      rfl
    · have hnone := @workers_of_run none _ (twoStarts.take 3) id (by simp [twoStarts, Ne.symm hid])
        rfl
      exact absurd (hnone.symm.trans hw) (by simp)
  · obtain rfl := Option.some.inj h
    refine ⟨trivial, fun _ h => ?_⟩
    obtain rfl := Option.some.inj h
    exact ⟨trivial, fun _ _ => trivial⟩

/-- The worker that got the lease rests for longer than it lasts, the other one takes it over, and
the first one finds that out. -/
def takeOver : List ElectionStep :=
  twoStarts ++ [.tick ['b'] 31000000000, .read ['b'] true, .send ['b'],
    .serve 1 true, .tick ['a'] 40000000000, .read ['a'] true]

/-- Both have completed an attempt since then, and the flag is still where it was. -/
theorem not_leads : ¬ ∀ (lease : Option Lease) (steps : List ElectionStep) (s : Election),
    (election lease).exec (.init lease) steps = some s → s.Leads ∧ s.OneSchedules := by
  intro h
  have hleads := (h none takeOver _ rfl).1
  have hflag := (hleads ?_ ['a'] _ rfl).mp rfl
  · exact absurd hflag (by decide)
  · intro id w hw
    by_cases ha : id = ['a']
    · subst ha
      obtain rfl := Option.some.inj hw
      rfl
    by_cases hb : id = ['b']
    · subst hb
      obtain rfl := Option.some.inj hw
      rfl
    · have hnone := @workers_of_run none _ takeOver id ?_ rfl
      · exact absurd (hnone.symm.trans hw) (by simp)
      · simp [takeOver, twoStarts, Ne.symm ha, Ne.symm hb]

end Goble.Leader
