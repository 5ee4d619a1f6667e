import Mathlib.Algebra.BigOperators.Group.List.Basic
import Mathlib.Algebra.Group.Prod
import Mathlib.Algebra.Ring.Nat
import Goble.Subagents.Lifecycle

/-!
# What sub-agents spend

A child keeps calling the model after the turn that spawned it has ended. What it spends is told
to the turn that listens, or waits for the next one that attaches. Whether a turn listens is read
from its sender, which stays after the turn has dropped its receiver.

* `Ledger` — the calls of a child in groups that have been told, one amount each, and those that
  wait for the next turn;
* `accounted_of_run` — along every run in which a call is told to turns that listen only, every
  call is told in one amount, at the latest when the next turn attaches.
-/

namespace Goble.Subagents

/-- `u64::saturating_add`. -/
def saturatingAdd (a b : Nat) : Nat := min (a + b) (2 ^ 64 - 1)

theorem saturatingAdd_of_lt {a b : Nat} (h : a + b < 2 ^ 64) : saturatingAdd a b = a + b :=
  Nat.min_eq_left (Nat.le_sub_one_of_lt h)

namespace UsageBuckets

/-- Add a call to a sum. `cached` stays absent until a call reports it. -/
def fold (sum call : UsageBuckets) : UsageBuckets where
  input := saturatingAdd sum.input call.input
  cached :=
    match call.cached with
    | some cached => some (saturatingAdd (sum.cached.getD 0) cached)
    | none => sum.cached
  output := saturatingAdd sum.output call.output

/-- What the sum holds beyond another: the spend a turn has not heard yet. -/
def since (sum other : UsageBuckets) : UsageBuckets where
  input := sum.input - other.input
  cached :=
    match sum.cached, other.cached with
    | some mine, some theirs => some (mine - theirs)
    | mine, _ => mine
  output := sum.output - other.output

def isZero (usage : UsageBuckets) : Bool :=
  usage.input == 0 && usage.output == 0 && usage.cached.getD 0 == 0

def tokens (usage : UsageBuckets) : Nat × Nat × Nat :=
  (usage.input, usage.cached.getD 0, usage.output)

theorem isZero_iff {usage : UsageBuckets} : usage.isZero = true ↔ usage.tokens = 0 := by
  simp only [isZero, tokens, Bool.and_eq_true, beq_iff_eq, Prod.mk_eq_zero]
  tauto

/-- No counter of these reaches the end of a `u64`. -/
def Small (tokens : Nat × Nat × Nat) : Prop :=
  tokens.1 < 2 ^ 64 ∧ tokens.2.1 < 2 ^ 64 ∧ tokens.2.2 < 2 ^ 64

theorem Small.of_le {a b : Nat × Nat × Nat} (h : Small (a + b)) : Small a := by
  obtain ⟨h1, h2, h3⟩ := h
  simp only [Prod.fst_add, Prod.snd_add] at h1 h2 h3
  exact ⟨by omega, by omega, by omega⟩

theorem tokens_fold {sum call : UsageBuckets} (h : Small (sum.tokens + call.tokens)) :
    (sum.fold call).tokens = sum.tokens + call.tokens := by
  obtain ⟨h1, h2, h3⟩ := h
  simp only [tokens, Prod.fst_add, Prod.snd_add] at h1 h2 h3
  have hcached : (sum.fold call).cached.getD 0 = sum.cached.getD 0 + call.cached.getD 0 := by
    unfold fold
    cases hcall : call.cached with
    | none => simp
    | some cached =>
      rw [hcall] at h2
      exact saturatingAdd_of_lt h2
  simp only [tokens, Prod.mk_add_mk, hcached]
  exact Prod.ext (saturatingAdd_of_lt h1) (Prod.ext rfl (saturatingAdd_of_lt h3))

theorem tokens_since (sum other : UsageBuckets) :
    (sum.since other).tokens = sum.tokens - other.tokens := by
  have hcached : (sum.since other).cached.getD 0 = sum.cached.getD 0 - other.cached.getD 0 := by
    unfold since
    cases sum.cached <;> cases other.cached <;> simp
  exact Prod.ext rfl (Prod.ext hcached rfl)

end UsageBuckets

namespace ChildUsage

def note (usage : ChildUsage) (call : UsageBuckets) (heard : Bool) : ChildUsage where
  total := usage.total.fold call
  reported := if heard then usage.reported.fold call else usage.reported

/-- The spend that waits for a turn, if there is any. -/
def owed (usage : ChildUsage) : Option UsageBuckets :=
  if (usage.total.since usage.reported).isZero then none
  else some (usage.total.since usage.reported)

def handOver (usage : ChildUsage) : ChildUsage :=
  if (usage.total.since usage.reported).isZero then usage
  else { usage with reported := usage.total }

end ChildUsage

/-- A call of a child that has been noted, with how many turns had attached by then. -/
structure Noted where
  child : String
  usage : UsageBuckets
  attached : Nat
deriving DecidableEq, Repr

def spent (calls : List Noted) : Nat × Nat × Nat :=
  (calls.map fun call => call.usage.tokens).sum

theorem spent_append (calls more : List Noted) :
    spent (calls ++ more) = spent calls + spent more := by
  rw [spent, List.map_append, List.sum_append]
  rfl

theorem spent_perm {calls calls' : List Noted} (h : calls.Perm calls') :
    spent calls = spent calls' :=
  (h.map _).sum_eq

structure Ledger (usage : ChildUsage) (calls : List Noted) (amounts : List (Nat × Nat × Nat))
    (turns : Nat) (groups : List (List Noted)) (rest : List Noted) : Prop where
  all : (groups.flatten ++ rest).Perm calls
  told : amounts = groups.map spent
  total : usage.total.tokens = spent calls
  reported : usage.reported.tokens = spent groups.flatten
  waits : ∀ call ∈ rest, call.attached = turns ∧ call.usage.isZero = false

namespace Ledger

variable {usage : ChildUsage} {calls : List Noted} {amounts : List (Nat × Nat × Nat)}
  {turns : Nat} {groups : List (List Noted)} {rest : List Noted}

theorem new (turns : Nat) : Ledger .new [] [] turns [] [] :=
  ⟨.refl _, rfl, rfl, rfl, fun _ h => absurd h List.not_mem_nil⟩

theorem spent_calls (h : Ledger usage calls amounts turns groups rest) :
    spent calls = spent groups.flatten + spent rest := by
  rw [← spent_append, spent_perm h.all]

theorem hear (h : Ledger usage calls amounts turns groups rest) {call : Noted}
    (hsmall : UsageBuckets.Small (spent (calls ++ [call]))) :
    Ledger (usage.note call.usage true) (calls ++ [call]) (amounts ++ [call.usage.tokens]) turns
      (groups ++ [[call]]) rest := by
  have hone : spent [call] = call.usage.tokens := List.sum_singleton
  have hflatten : (groups ++ [[call]]).flatten = groups.flatten ++ [call] := by simp
  rw [spent_append, hone] at hsmall
  refine ⟨?_, ?_, ?_, ?_, h.waits⟩
  · rw [hflatten, List.append_assoc]
    refine (List.perm_append_comm.append_left _).trans ?_
    rw [← List.append_assoc]
    exact h.all.append_right _
  · rw [h.told, List.map_append, List.map_singleton, hone]
  · rw [spent_append, hone, ← h.total]
    exact UsageBuckets.tokens_fold (h.total ▸ hsmall)
  · rw [hflatten, spent_append, hone, ← h.reported]
    refine UsageBuckets.tokens_fold ?_
    rw [h.spent_calls, add_right_comm, ← h.reported] at hsmall
    exact hsmall.of_le

theorem wait (h : Ledger usage calls amounts turns groups rest) {call : Noted}
    (hsmall : UsageBuckets.Small (spent (calls ++ [call]))) (hturns : call.attached = turns)
    (hsome : call.usage.isZero = false) :
    Ledger (usage.note call.usage false) (calls ++ [call]) amounts turns groups
      (rest ++ [call]) := by
  have hone : spent [call] = call.usage.tokens := List.sum_singleton
  rw [spent_append, hone] at hsmall
  refine ⟨?_, h.told, ?_, h.reported, ?_⟩
  · rw [← List.append_assoc]
    exact h.all.append_right _
  · rw [spent_append, hone, ← h.total]
    exact UsageBuckets.tokens_fold (h.total ▸ hsmall)
  · exact List.forall_mem_append.mpr ⟨h.waits, List.forall_mem_singleton.mpr ⟨hturns, hsome⟩⟩

theorem since_tokens (h : Ledger usage calls amounts turns groups rest) :
    (usage.total.since usage.reported).tokens = spent rest := by
  rw [UsageBuckets.tokens_since, h.total, h.reported, h.spent_calls]
  exact Prod.ext (Nat.add_sub_cancel_left ..)
    (Prod.ext (Nat.add_sub_cancel_left ..) (Nat.add_sub_cancel_left ..))

theorem rest_eq_nil (h : Ledger usage calls amounts turns groups rest)
    (hzero : (usage.total.since usage.reported).isZero = true) : rest = [] := by
  rw [UsageBuckets.isZero_iff, h.since_tokens] at hzero
  cases rest with
  | nil => rfl
  | cons call rest =>
    have hcall := (h.waits call List.mem_cons_self).2
    have hsum : call.usage.tokens + spent rest = 0 := hzero
    have hnone : call.usage.tokens = 0 := by
      simp only [Prod.ext_iff, Prod.fst_add, Prod.snd_add, Prod.fst_zero, Prod.snd_zero] at hsum ⊢
      omega
    rw [UsageBuckets.isZero_iff.mpr hnone] at hcall
    cases hcall

theorem attach (h : Ledger usage calls amounts turns groups rest) :
    ∃ groups', Ledger usage.handOver calls
      (amounts ++ usage.owed.toList.map UsageBuckets.tokens) (turns + 1) groups' [] := by
  unfold ChildUsage.handOver ChildUsage.owed
  by_cases hzero : (usage.total.since usage.reported).isZero = true
  · rw [if_pos hzero, if_pos hzero]
    obtain rfl := h.rest_eq_nil hzero
    refine ⟨groups, h.all, ?_, h.total, h.reported, fun _ he => absurd he List.not_mem_nil⟩
    rw [h.told]
    exact List.append_nil _
  · rw [if_neg hzero, if_neg hzero]
    have hflatten : (groups ++ [rest]).flatten = groups.flatten ++ rest := by simp
    refine ⟨groups ++ [rest], ?_, ?_, h.total, ?_, fun _ he => absurd he List.not_mem_nil⟩
    · rw [hflatten, List.append_nil]
      exact h.all
    · rw [h.told, List.map_append, List.map_singleton, ← h.since_tokens]
      rfl
    · rw [hflatten, spent_perm h.all]
      exact h.total

end Ledger

/-! ### Notes, turns and their steps -/

/-- A `TokenUsage` event that the receiver of a turn has got. -/
structure Delivery where
  turn : Nat
  child : String
  chatId : String
  amount : UsageBuckets
deriving DecidableEq, Repr

namespace Registry

def note (registry : Registry) (child : String) (call : UsageBuckets) (heard : Bool) : Registry :=
  registry.update child (fun entry => { entry with usage := entry.usage.note call heard })
    fun _ => rfl

theorem find_note (registry : Registry) (child : String) (call : UsageBuckets) (heard : Bool)
    (c : String) :
    (registry.note child call heard).find c =
      if c = child then
        (registry.find c).map fun entry => { entry with usage := entry.usage.note call heard }
      else registry.find c :=
  find_update ..

def handOver (registry : Registry) : Registry where
  children := registry.children.map fun entry => { entry with usage := entry.usage.handOver }
  nodup := by
    rw [List.map_map]
    exact registry.nodup

/-- What a turn is told when it attaches. -/
def handed (registry : Registry) (turn : Nat) : List Delivery :=
  registry.children.filterMap fun entry =>
    entry.usage.owed.map (Delivery.mk turn entry.id entry.parent)

theorem find_handOver (registry : Registry) (c : String) :
    registry.handOver.find c =
      (registry.find c).map fun entry => { entry with usage := entry.usage.handOver } :=
  List.find?_map

end Registry

structure Spending where
  registry : Registry
  /-- The turn whose sender is attached. -/
  events : Option Nat
  /-- The turns that have not dropped their receiver. -/
  listening : List Nat
  /-- How many turns have attached. -/
  turns : Nat
  /-- The calls of registered children, in the order in which they were noted. -/
  noted : List Noted
  /-- What turns have been told of registered children. -/
  delivered : List Delivery

inductive UsageCall where
  | registry (call : RegistryCall)
  | note (child chatId : String) (usage : UsageBuckets)
  | attach
  | ends (turn : Nat)
deriving DecidableEq, Repr

/-- A thread before its next critical section. -/
inductive UsageThread where
  | registry (call : RegistryCall)
  | noting (child chatId : String) (usage : UsageBuckets)
  | spending (child chatId : String) (usage : UsageBuckets) (sender : Option Nat)
  | attaching
  | setting (turn : Nat)
  | ending (turn : Nat)
deriving DecidableEq, Repr

/-- What reaches a receiver when a call is sent: nothing, if its turn is gone. -/
def Spending.send (s : Spending) (child chatId : String) (usage : UsageBuckets) :
    Option Nat → List Delivery
  | some turn => if turn ∈ s.listening then [⟨turn, child, chatId, usage⟩] else []
  | none => []

/-- The critical sections: `note_child_usage` clones the sender and then takes the children's lock,
`attach_event_sink` takes that lock and then sets the sender. -/
def usageThreads : Threads Spending UsageThread UsageCall Unit where
  init := ⟨.empty, none, [], 0, [], []⟩
  enter _
    | .registry call => some (.registry call)
    | .note child chatId usage => some (.noting child chatId usage)
    | .attach => some .attaching
    | .ends turn => some (.ending turn)
  next s thread _ :=
    match thread with
    | .registry call => some ({ s with registry := (call.apply s.registry).1 }, none)
    | .noting child chatId usage => some (s, some (.spending child chatId usage s.events))
    | .spending child chatId usage sender =>
      match s.registry.find child with
      | none => some (s, none)
      | some _ =>
        some ({ s with
          registry := s.registry.note child usage sender.isSome
          noted := s.noted ++ [⟨child, usage, s.turns⟩]
          delivered := s.delivered ++ s.send child chatId usage sender }, none)
    | .attaching =>
      -- the receiver is there until the call returns it
      some ({ s with
        registry := s.registry.handOver
        turns := s.turns + 1
        delivered := s.delivered ++ s.registry.handed s.turns }, some (.setting s.turns))
    | .setting turn =>
      some ({ s with events := some turn, listening := s.listening ++ [turn] }, none)
    | .ending turn => some ({ s with listening := s.listening.filter (· ≠ turn) }, none)

/-- The condition on a step: what is sent is heard, and a call that nobody is there to hear has
spent something. -/
def Heard (s : Spending) : UsageThread → Unit → Prop
  | .spending child _ _ (some turn), _ =>
    (s.registry.find child).isSome = true → turn ∈ s.listening
  | .spending child _ usage none, _ =>
    (s.registry.find child).isSome = true → usage.isZero = false
  | _, _ => True

instance (s : Spending) : ∀ (thread : UsageThread) (u : Unit), Decidable (Heard s thread u)
  | .spending child _ _ (some turn), _ =>
    inferInstanceAs (Decidable ((s.registry.find child).isSome = true → turn ∈ s.listening))
  | .spending child _ usage none, _ =>
    inferInstanceAs (Decidable ((s.registry.find child).isSome = true → usage.isZero = false))
  | .registry _, _ | .noting .., _ | .attaching, _ | .setting _, _ | .ending _, _ =>
    isTrue trivial

def Spending.callsOf (s : Spending) (c : String) : List Noted :=
  s.noted.filter fun call => call.child = c

def Spending.amountsOf (s : Spending) (c : String) : List (Nat × Nat × Nat) :=
  (s.delivered.filter fun delivery => delivery.child = c).map fun delivery =>
    delivery.amount.tokens

/-- The books of a child: nothing of one that is not registered. -/
def Balanced (calls : List Noted) (amounts : List (Nat × Nat × Nat)) (turns : Nat) :
    Option ChildUsage → Prop
  | none => calls = [] ∧ amounts = []
  | some usage => ∃ groups rest, Ledger usage calls amounts turns groups rest

def Books (s : Spending) : Prop :=
  ∀ c, Balanced (s.callsOf c) (s.amountsOf c) s.turns ((s.registry.find c).map ChildEntry.usage)

/-- No sum of a child's calls reaches the end of a `u64`. -/
def Bounded (s : Spending) : Prop := ∀ c, UsageBuckets.Small (spent (s.callsOf c))

/-! ### What the steps do to the books -/

theorem RegistryCall.usage_apply (registry : Registry) (call : RegistryCall) (c : String) :
    ((call.apply registry).1.find c).map ChildEntry.usage =
        (registry.find c).map ChildEntry.usage ∨
      registry.find c = none ∧
        ((call.apply registry).1.find c).map ChildEntry.usage = some .new := by
  have hkills : ∀ {reason : String} {now : Int} {registry' : Registry}
      {ended : List SubAgentRecord}, Registry.Kills reason now registry registry' ended →
        (registry'.find c).map ChildEntry.usage = (registry.find c).map ChildEntry.usage := by
    intro reason now registry' ended h
    obtain ⟨hsame, -⟩ | ⟨entry, hfind, -, hkilled, -⟩ := h.find_cases c
    · rw [hsame]
    · rw [hkilled, hfind]
      rfl
  cases call with
  | register record handle =>
    change ((registry.register record handle).1.find c).map _ = _ ∨
      _ ∧ ((registry.register record handle).1.find c).map _ = _
    unfold Registry.register
    split
    · next h =>
      have hfind := registry.find_push ⟨record, handle, .new⟩ h c
      by_cases hc : c = record.spec.id
      · refine .inr ⟨hc ▸ h, ?_⟩
        rw [hfind.trans (if_pos hc)]
        rfl
      · exact .inl (congrArg _ (hfind.trans (if_neg hc)))
    · exact .inl rfl
  | publish record now =>
    refine .inl ?_
    change ((registry.publish record now).1.find c).map _ = _
    unfold Registry.publish
    split
    · rfl
    · split
      · rfl
      · rw [Registry.find_update]
        split
        · rw [Option.map_map]
          refine congrArg (fun f => (registry.find c).map f) (funext fun entry => ?_)
          rw [Function.comp_apply]
          unfold ChildEntry.writeRecord
          split <;> rfl
        · rfl
  | cancel id reason now => exact .inl (hkills (registry.walk_cancel id reason now).kills)
  | cancelAll reason now => exact .inl (hkills (registry.kills_cancelAll reason now).1)

theorem Registry.handed_of (registry : Registry) (turn : Nat) (c : String) :
    ((registry.handed turn).filter fun delivery => delivery.child = c).map
        (fun delivery => delivery.amount.tokens) =
      ((registry.find c).map fun entry =>
        entry.usage.owed.toList.map UsageBuckets.tokens).getD [] := by
  have hlist : ∀ children : List ChildEntry, (children.map ChildEntry.id).Nodup →
      ((children.filterMap fun entry => entry.usage.owed.map
          (Delivery.mk turn entry.id entry.parent)).filter fun delivery => delivery.child = c).map
        (fun delivery => delivery.amount.tokens) =
      ((children.find? fun entry => entry.id == c).map fun entry =>
        entry.usage.owed.toList.map UsageBuckets.tokens).getD [] := by
    intro children hnodup
    induction children with
    | nil => rfl
    | cons entry children ih =>
      obtain ⟨hnot, hnodup'⟩ := List.nodup_cons.mp hnodup
      by_cases hc : entry.id = c
      · -- nothing else is told of this child
        have hrest : (children.filterMap fun entry => entry.usage.owed.map
            (Delivery.mk turn entry.id entry.parent)).filter
              (fun delivery => delivery.child = c) = [] := by
          refine List.filter_eq_nil_iff.mpr fun delivery hdelivery he => ?_
          obtain ⟨other, hother, howed⟩ := List.mem_filterMap.mp hdelivery
          obtain ⟨amount, -, rfl⟩ := Option.map_eq_some_iff.mp howed
          have hid : other.id = c := of_decide_eq_true he
          exact hnot (hc ▸ hid ▸ List.mem_map_of_mem hother)
        rw [List.find?_cons_of_pos (p := fun e : ChildEntry => e.id == c) (beq_iff_eq.mpr hc),
          List.filterMap_cons]
        cases howed : entry.usage.owed with
        | none => simp [hrest, howed]
        | some amount => simp [hrest, howed, hc]
      · rw [List.find?_cons_of_neg (p := fun e : ChildEntry => e.id == c) (by simpa using hc),
          ← ih hnodup', List.filterMap_cons]
        cases howed : entry.usage.owed with
        | none => simp
        | some amount => simp [hc]
  exact hlist registry.children registry.nodup

variable {s : Spending}

/-- Sums only grow. -/
theorem Bounded.of_append {s' : Spending} {more : List Noted} (h : Bounded s')
    (hnoted : s'.noted = s.noted ++ more) : Bounded s := by
  intro c
  have hsmall := h c
  rw [Spending.callsOf, hnoted, List.filter_append, spent_append] at hsmall
  exact hsmall.of_le

theorem Books.note (h : Books s) {child chatId : String} {usage : UsageBuckets}
    {sender : Option Nat} {entry : ChildEntry} (hfind : s.registry.find child = some entry)
    (hheard : Heard s (.spending child chatId usage sender) ())
    (hbounded : Bounded { s with noted := s.noted ++ [⟨child, usage, s.turns⟩] }) :
    Books { s with
      registry := s.registry.note child usage sender.isSome
      noted := s.noted ++ [⟨child, usage, s.turns⟩]
      delivered := s.delivered ++ s.send child chatId usage sender } := by
  intro c
  have hbooks := h c
  have hsmall := hbounded c
  simp only [Spending.callsOf, Spending.amountsOf, List.filter_append, List.map_append] at hsmall ⊢
  rw [Registry.find_note]
  by_cases hc : c = child
  · subst hc
    rw [hfind, Option.map_some] at hbooks
    rw [if_pos rfl, hfind, Option.map_some, Option.map_some]
    have hcall : [(⟨c, usage, s.turns⟩ : Noted)].filter (fun call => call.child = c) =
        [⟨c, usage, s.turns⟩] := by simp
    rw [hcall] at hsmall ⊢
    obtain ⟨groups, rest, hledger⟩ := hbooks
    cases sender with
    | none =>
      have hsome := hheard (by rw [hfind]; rfl)
      have hnothing : ((s.send c chatId usage none).filter fun delivery =>
          delivery.child = c).map (fun delivery => delivery.amount.tokens) = [] := rfl
      rw [hnothing, List.append_nil]
      exact ⟨groups, _, hledger.wait hsmall rfl hsome⟩
    | some turn =>
      have hlistens := hheard (by rw [hfind]; rfl)
      have hone : ((s.send c chatId usage (some turn)).filter fun delivery =>
          delivery.child = c).map (fun delivery => delivery.amount.tokens) = [usage.tokens] := by
        simp [Spending.send, if_pos hlistens]
      rw [hone]
      exact ⟨_, rest, hledger.hear hsmall⟩
  · have hcall : [(⟨child, usage, s.turns⟩ : Noted)].filter (fun call => call.child = c) = [] := by
      have hne : ¬ child = c := fun he => hc he.symm
      simp [hne]
    have hnothing : ((s.send child chatId usage sender).filter fun delivery =>
        delivery.child = c).map (fun delivery => delivery.amount.tokens) = [] := by
      rw [List.map_eq_nil_iff, List.filter_eq_nil_iff]
      intro delivery hdelivery
      unfold Spending.send at hdelivery
      split at hdelivery
      · split at hdelivery
        · rw [List.mem_singleton.mp hdelivery]
          simpa using fun he => hc he.symm
        · cases hdelivery
      · cases hdelivery
    rw [if_neg hc, hcall, hnothing, List.append_nil, List.append_nil]
    exact hbooks

theorem Books.attach (h : Books s) :
    Books { s with
      registry := s.registry.handOver
      turns := s.turns + 1
      delivered := s.delivered ++ s.registry.handed s.turns } := by
  intro c
  have hbooks := h c
  simp only [Spending.callsOf, Spending.amountsOf, List.filter_append, List.map_append]
  rw [Registry.find_handOver, Registry.handed_of, Option.map_map]
  cases hfind : s.registry.find c with
  | none =>
    rw [hfind] at hbooks
    obtain ⟨hcalls, hamounts⟩ := hbooks
    exact ⟨hcalls, by rw [← Spending.amountsOf, hamounts]; rfl⟩
  | some entry =>
    rw [hfind] at hbooks
    obtain ⟨groups, rest, hledger⟩ := hbooks
    obtain ⟨groups', hledger'⟩ := hledger.attach
    exact ⟨groups', [], hledger'⟩

theorem Books.next {s' : Spending} {thread : UsageThread} {goesOn : Option UsageThread}
    (h : Books s) (hheard : Heard s thread ())
    (hnext : usageThreads.next s thread () = some (s', goesOn)) (hbounded : Bounded s') :
    Books s' := by
  cases thread with
  | registry call =>
    obtain ⟨rfl, -⟩ := Prod.mk.inj (Option.some.inj hnext)
    intro c
    have hbooks := h c
    obtain hsame | ⟨hnone, hnew⟩ := RegistryCall.usage_apply s.registry call c
    · change Balanced (s.callsOf c) (s.amountsOf c) s.turns
        (((call.apply s.registry).1.find c).map ChildEntry.usage)
      rw [hsame]
      exact hbooks
    · rw [hnone] at hbooks
      obtain ⟨hcalls, hamounts⟩ := hbooks
      change Balanced (s.callsOf c) (s.amountsOf c) s.turns
        (((call.apply s.registry).1.find c).map ChildEntry.usage)
      rw [hnew, hcalls, hamounts]
      exact ⟨[], [], Ledger.new s.turns⟩
  | noting child chatId usage =>
    obtain ⟨rfl, -⟩ := Prod.mk.inj (Option.some.inj hnext)
    exact h
  | spending child chatId usage sender =>
    change (match s.registry.find child with
      | none => some (s, none)
      | some _ => _) = some (s', goesOn) at hnext
    cases hfind : s.registry.find child with
    | none =>
      rw [hfind] at hnext
      obtain ⟨rfl, -⟩ := Prod.mk.inj (Option.some.inj hnext)
      exact h
    | some entry =>
      rw [hfind] at hnext
      obtain ⟨rfl, -⟩ := Prod.mk.inj (Option.some.inj hnext)
      exact h.note hfind hheard hbounded
  | attaching =>
    obtain ⟨rfl, -⟩ := Prod.mk.inj (Option.some.inj hnext)
    exact h.attach
  | setting turn =>
    obtain ⟨rfl, -⟩ := Prod.mk.inj (Option.some.inj hnext)
    exact h
  | ending turn =>
    obtain ⟨rfl, -⟩ := Prod.mk.inj (Option.some.inj hnext)
    exact h

theorem noted_next {s' : Spending} {thread : UsageThread} {goesOn : Option UsageThread}
    (hnext : usageThreads.next s thread () = some (s', goesOn)) :
    ∃ more, s'.noted = s.noted ++ more := by
  cases thread with
  | spending child chatId usage sender =>
    change (match s.registry.find child with
      | none => some (s, none)
      | some _ => _) = some (s', goesOn) at hnext
    cases hfind : s.registry.find child with
    | none =>
      rw [hfind] at hnext
      obtain ⟨rfl, -⟩ := Prod.mk.inj (Option.some.inj hnext)
      exact ⟨[], (List.append_nil _).symm⟩
    | some entry =>
      rw [hfind] at hnext
      obtain ⟨rfl, -⟩ := Prod.mk.inj (Option.some.inj hnext)
      exact ⟨_, rfl⟩
  | registry | noting | attaching | setting | ending =>
    obtain ⟨rfl, -⟩ := Prod.mk.inj (Option.some.inj hnext)
    exact ⟨[], (List.append_nil _).symm⟩

def Accounted (s : Spending) (c : String) : Prop :=
  ∃ (groups : List (List Noted)) (rest : List Noted),
    (groups.flatten ++ rest).Perm (s.callsOf c) ∧
    s.amountsOf c = groups.map spent ∧ (∀ call ∈ rest, call.attached = s.turns) ∧
      (s.amountsOf c).sum + spent rest = spent (s.callsOf c)

theorem Books.accounted (h : Books s) (c : String) : Accounted s c := by
  have hbooks := h c
  cases hfind : s.registry.find c with
  | none =>
    rw [hfind] at hbooks
    obtain ⟨hcalls, hamounts⟩ := hbooks
    refine ⟨[], [], ?_, hamounts, fun _ he => absurd he List.not_mem_nil, ?_⟩
    · rw [hcalls]
      rfl
    · rw [hcalls, hamounts]
      rfl
  | some entry =>
    rw [hfind] at hbooks
    obtain ⟨groups, rest, hledger⟩ := hbooks
    refine ⟨groups, rest, hledger.all, hledger.told, fun call hcall => (hledger.waits call hcall).1,
      ?_⟩
    have hsum : (groups.map spent).sum = spent groups.flatten := by
      clear hledger
      induction groups with
      | nil => rfl
      | cons group groups ih =>
        rw [List.map_cons, List.sum_cons, ih, List.flatten_cons, spent_append]
    rw [hledger.told, hsum, hledger.spent_calls]

/-- **What children spend is told once.** Along every run in which a call is sent to turns that
listen only, and a call that finds no sender has spent something, as long as the sums of a child's
calls fit into a `u64`: every call of a registered child has been told to a turn in exactly one
amount, unless it was noted after the last turn attached; and so the sums are right. -/
theorem accounted_of_run {run : List (Threads.Label UsageCall Unit)}
    {s : Threads.State Spending UsageThread}
    (hheard : usageThreads.machine.Along (Threads.Guard Heard) usageThreads.machine.init run)
    (hrun : usageThreads.machine.exec usageThreads.machine.init run = some s)
    (hbounded : Bounded s.shared) (c : String) : Accounted s.shared c := by
  have hbooks : Bounded s.shared → Books s.shared := by
    refine Machine.exec_invariant (I := fun s => Bounded s.shared → Books s.shared) ?_ ?_ hheard
      hrun
    · intro s l s' ih hguard hstep hbounded
      obtain ⟨call, rfl, rfl⟩ |
        ⟨index, answer, thread, before, after, goesOn, rfl, hthread, -, hnext, -⟩ :=
        Threads.step_cases hstep
      · exact ih hbounded
      · obtain ⟨more, hnoted⟩ := noted_next hnext
        exact (ih (hbounded.of_append hnoted)).next (hguard thread hthread) hnext hbounded
    · exact fun _ c => ⟨rfl, rfl⟩
  exact (hbooks hbounded).accounted c

/-- A child of the chat. -/
def spawnCall : List (Threads.Label UsageCall Unit) :=
  [.call (.registry (.register reviewer .new)), .run 0 ()]

/-- A call of the child, noted in two steps. -/
def noteCall (usage : UsageBuckets) : List (Threads.Label UsageCall Unit) :=
  [.call (.note "agent-1" "chat" usage), .run 0 (), .run 0 ()]

def attachCall : List (Threads.Label UsageCall Unit) := [.call .attach, .run 0 (), .run 0 ()]

/-- A call waits for a turn, another is heard at once. -/
def heardRun : List (Threads.Label UsageCall Unit) :=
  spawnCall ++ noteCall ⟨900, some 700, 40⟩ ++ attachCall ++ noteCall ⟨100, none, 5⟩

theorem accounted_of_run_two :
    ∃ s, usageThreads.machine.exec usageThreads.machine.init heardRun = some s ∧
      s.shared.amountsOf "agent-1" = [(900, 700, 40), (100, 0, 5)] ∧
      Accounted s.shared "agent-1" := by
  obtain ⟨s, hrun, hs⟩ := Option.map_eq_some_iff.mp (show
    (usageThreads.machine.exec usageThreads.machine.init heardRun).map
      (fun s => (s.shared.amountsOf "agent-1", s.shared.noted)) =
        some ([(900, 700, 40), (100, 0, 5)],
          [⟨"agent-1", ⟨900, some 700, 40⟩, 0⟩, ⟨"agent-1", ⟨100, none, 5⟩, 1⟩]) by
      decide +kernel)
  obtain ⟨hamounts, hnoted⟩ := Prod.mk.inj hs
  refine ⟨s, hrun, hamounts, accounted_of_run (by decide +kernel) hrun (fun c => ?_) "agent-1"⟩
  rw [Spending.callsOf, hnoted]
  by_cases hc : "agent-1" = c
  · subst hc
    exact ⟨by decide, by decide, by decide⟩
  · simp [hc, spent, UsageBuckets.Small]

/-- A turn attaches and ends, the child makes a call, and the next turn attaches. -/
def unheardRun : List (Threads.Label UsageCall Unit) :=
  spawnCall ++ attachCall ++ [.call (.ends 0), .run 0 ()] ++ noteCall ⟨900, some 700, 40⟩ ++
    attachCall

/-- Nobody is ever told of the call. -/
theorem not_accounted_unheard :
    ∃ s, usageThreads.machine.exec usageThreads.machine.init unheardRun = some s ∧
      Bounded s.shared ∧ ¬ Accounted s.shared "agent-1" := by
  obtain ⟨s, hrun, hs⟩ := Option.map_eq_some_iff.mp (show
    (usageThreads.machine.exec usageThreads.machine.init unheardRun).map
      (fun s => (s.shared.amountsOf "agent-1", s.shared.noted, s.shared.turns)) =
        some ([], [⟨"agent-1", ⟨900, some 700, 40⟩, 1⟩], 2) by decide +kernel)
  obtain ⟨hamounts, hrest⟩ := Prod.mk.inj hs
  obtain ⟨hnoted, hturns⟩ := Prod.mk.inj hrest
  have hcalls : s.shared.callsOf "agent-1" = [⟨"agent-1", ⟨900, some 700, 40⟩, 1⟩] := by
    rw [Spending.callsOf, hnoted]
    rfl
  refine ⟨s, hrun, fun c => ?_, ?_⟩
  · rw [Spending.callsOf, hnoted]
    by_cases hc : "agent-1" = c
    · subst hc
      exact ⟨by decide, by decide, by decide⟩
    · simp [hc, spent, UsageBuckets.Small]
  · rintro ⟨groups, rest, hperm, htold, hlate, -⟩
    -- there is no amount, so the call is among those that came late
    rw [hamounts] at htold
    obtain rfl := List.map_eq_nil_iff.mp htold.symm
    rw [hcalls] at hperm
    have hmem := hperm.mem_iff.mpr List.mem_cons_self
    have hattached := hlate _ hmem
    rw [hturns] at hattached
    cases hattached

end Goble.Subagents
