import Goble.Lib.Lists

/-!
# The registry of sub-agents

The children one harness has spawned, in spawn order, with the handle that stops each. A record
ends once: whoever moves it to a terminal status first, the child's own loop or a kill, decides
what it says.
-/

namespace Goble.Subagents

inductive SubAgentStatus where
  | initializing
  | running (turns toolCalls tokens : Nat) (activity : String)
  | completed (output : String) (durationMs turns toolCalls tokens : Nat)
  | failed (error : String)
  | cancelled (reason : String)
deriving DecidableEq, Repr

namespace SubAgentStatus

/-- Live: no terminal outcome yet. -/
def isRunning : SubAgentStatus → Bool
  | .initializing | .running .. => true
  | _ => false

def isTerminal (status : SubAgentStatus) : Bool := !status.isRunning

/-- The counters the status carries. -/
def counts : SubAgentStatus → Nat × Nat × Nat
  | .running turns toolCalls tokens _ | .completed _ _ turns toolCalls tokens =>
    (turns, toolCalls, tokens)
  | _ => (0, 0, 0)

end SubAgentStatus

/-- What the child runs from, as far as the registry and its events read it. -/
structure SubAgentSpec where
  id : String
  parentChatId : String
  parentCallId : String
  description : String
  subagentType : String
  runInBackground : Bool
deriving DecidableEq, Repr

structure SubAgentRecord where
  spec : SubAgentSpec
  status : SubAgentStatus
  startedAt : Int
  finishedAt : Option Int
deriving DecidableEq, Repr

def SubAgentRecord.cancel (record : SubAgentRecord) (reason : String) (now : Int) :
    SubAgentRecord :=
  if record.status.isTerminal then record
  else { record with status := .cancelled reason, finishedAt := some now }

/-- The stop signal of one child: its own bit, with the reason a kill gave it. -/
structure ChildCancel where
  own : Bool
  reason : Option String
deriving DecidableEq, Repr

/-- The bit of a child that nobody has stopped. -/
def ChildCancel.new : ChildCancel := ⟨false, none⟩

/-- Stop the child and remember why; the first reason wins. -/
def ChildCancel.fire (cancel : ChildCancel) (reason : String) : ChildCancel :=
  if cancel.own then cancel else ⟨true, some reason⟩

/-- One call's tokens, or a sum of them. -/
structure UsageBuckets where
  input : Nat
  cached : Option Nat
  output : Nat
deriving DecidableEq, Repr

/-- A child's token spend, and the part of it a turn has been told about. -/
structure ChildUsage where
  total : UsageBuckets
  reported : UsageBuckets
deriving DecidableEq, Repr

def ChildUsage.new : ChildUsage := ⟨⟨0, none, 0⟩, ⟨0, none, 0⟩⟩

/-- One child as the registry holds it. -/
structure ChildEntry where
  record : SubAgentRecord
  cancel : ChildCancel
  usage : ChildUsage
deriving DecidableEq, Repr

namespace ChildEntry

def id (entry : ChildEntry) : String := entry.record.spec.id

/-- The conversation that spawned the child: its spawner's id. -/
def parent (entry : ChildEntry) : String := entry.record.spec.parentChatId

def isTerminal (entry : ChildEntry) : Bool := entry.record.status.isTerminal

def kill (entry : ChildEntry) (reason : String) (now : Int) : ChildEntry :=
  ⟨entry.record.cancel reason now, entry.cancel.fire reason, entry.usage⟩

@[simp] theorem kill_id (entry : ChildEntry) (reason : String) (now : Int) :
    (entry.kill reason now).id = entry.id := by
  unfold kill SubAgentRecord.cancel
  split <;> rfl

@[simp] theorem kill_parent (entry : ChildEntry) (reason : String) (now : Int) :
    (entry.kill reason now).parent = entry.parent := by
  unfold kill SubAgentRecord.cancel
  split <;> rfl

theorem kill_isTerminal (entry : ChildEntry) (reason : String) (now : Int) :
    (entry.kill reason now).isTerminal = true := by
  unfold kill SubAgentRecord.cancel
  split
  · next h => exact h
  · rfl

end ChildEntry

/-- The children, in spawn order, each id once. -/
structure Registry where
  children : List ChildEntry
  nodup : (children.map ChildEntry.id).Nodup

namespace Registry

def empty : Registry := ⟨[], List.nodup_nil⟩

def find (registry : Registry) (id : String) : Option ChildEntry :=
  registry.children.find? fun entry => entry.id == id

def update (registry : Registry) (id : String) (f : ChildEntry → ChildEntry)
    (hf : ∀ entry, (f entry).id = entry.id) : Registry where
  children := registry.children.map fun entry => if entry.id = id then f entry else entry
  nodup := by
    have hids : (registry.children.map fun entry => if entry.id = id then f entry else entry).map
        ChildEntry.id = registry.children.map ChildEntry.id := by
      rw [List.map_map]
      refine List.map_congr_left fun entry _ => ?_
      rw [Function.comp_apply]
      split
      · exact hf entry
      · rfl
    rw [hids]
    exact registry.nodup

def push (registry : Registry) (entry : ChildEntry) (h : registry.find entry.id = none) :
    Registry where
  children := registry.children ++ [entry]
  nodup := by
    rw [List.map_append, List.map_singleton]
    refine List.Nodup.append registry.nodup (List.nodup_singleton _) ?_
    rw [List.disjoint_singleton]
    intro hmem
    obtain ⟨entry', hentry', hid⟩ := List.mem_map.mp hmem
    exact absurd (beq_iff_eq.mpr hid) (List.find?_eq_none.mp h entry' hentry')

/-- The children spawned by a conversation. -/
def nested (registry : Registry) (id : String) : List String :=
  (registry.children.filter fun entry => entry.parent == id).map ChildEntry.id

variable {entry : ChildEntry} {id : String}

theorem mem_of_find {registry : Registry} (h : registry.find id = some entry) :
    entry ∈ registry.children ∧ entry.id = id :=
  ⟨List.mem_of_find?_eq_some h, by simpa using List.find?_some h⟩

theorem find_eq_some {registry : Registry} :
    registry.find id = some entry ↔ entry ∈ registry.children ∧ entry.id = id := by
  refine ⟨mem_of_find, fun ⟨hmem, hid⟩ => ?_⟩
  cases hfind : registry.find id with
  | none => exact absurd (beq_iff_eq.mpr hid) (List.find?_eq_none.mp hfind entry hmem)
  | some entry' =>
    obtain ⟨hmem', hid'⟩ := mem_of_find hfind
    rw [List.inj_on_of_nodup_map registry.nodup hmem' hmem (hid'.trans hid.symm)]

variable {c : String}

theorem mem_nested {registry : Registry} (hfind : registry.find c = some entry)
    (hparent : entry.parent = id) :
    c ∈ registry.nested id := by
  obtain ⟨hmem, rfl⟩ := mem_of_find hfind
  exact List.mem_map_of_mem (List.mem_filter.mpr ⟨hmem, beq_iff_eq.mpr hparent⟩)

theorem find_of_mem_nested {registry : Registry} (h : c ∈ registry.nested id) :
    ∃ entry, registry.find c = some entry ∧ entry.parent = id := by
  obtain ⟨entry, hentry, rfl⟩ := List.mem_map.mp h
  obtain ⟨hmem, hparent⟩ := List.mem_filter.mp hentry
  exact ⟨entry, find_eq_some.mpr ⟨hmem, rfl⟩, beq_iff_eq.mp hparent⟩

theorem find_update (registry : Registry) (id : String) (f : ChildEntry → ChildEntry)
    (hf : ∀ entry, (f entry).id = entry.id) (c : String) :
    (registry.update id f hf).find c =
      if c = id then (registry.find c).map f else registry.find c := by
  have hmap : ∀ children : List ChildEntry,
      (children.map fun entry => if entry.id = id then f entry else entry).find?
          (fun entry => entry.id == c) =
        if c = id then (children.find? fun entry => entry.id == c).map f
        else children.find? fun entry => entry.id == c := by
    intro children
    induction children with
    | nil => simp
    | cons entry children ih =>
      by_cases hentry : entry.id = id
      · by_cases hc : id = c
        · simp [hentry, hf, hc]
        · have hc' : ¬ c = id := fun h => hc h.symm
          rw [if_neg hc'] at ih ⊢
          simpa [hentry, hf, hc] using ih
      · by_cases hc : entry.id = c
        · have hc' : ¬ c = id := fun h => hentry (hc.trans h)
          simp [hc, hc']
        · simp only [List.map_cons, if_neg hentry, List.find?_cons, beq_eq_false_iff_ne.mpr hc]
          exact ih
  exact hmap registry.children

theorem find_push (registry : Registry) (entry : ChildEntry) (h : registry.find entry.id = none)
    (c : String) :
    (registry.push entry h).find c = if c = entry.id then some entry else registry.find c := by
  simp only [find, push, List.find?_append]
  by_cases hc : c = entry.id
  · subst hc
    rw [show registry.children.find? (fun e => e.id == entry.id) = none from h, if_pos rfl]
    simp
  · rw [if_neg hc]
    cases registry.children.find? fun e => e.id == c with
    | some _ => rfl
    | none => simp [show ¬ entry.id = c from fun he => hc he.symm]

/-! ### The kill of a child and of what it spawned -/

/-- Move one record to `Cancelled`, fire its stop bit, then walk into the children it spawned; the
records ended come with the registry. The walk descends only from a record it has just ended, so
it is no deeper than there are live records. -/
def cancelEntry (reason : String) (now : Int) :
    Nat → Registry → String → Registry × List SubAgentRecord
  | 0, registry, _ => (registry, [])
  | n + 1, registry, id =>
    match registry.find id with
    | none => (registry, [])
    | some entry =>
      if entry.isTerminal then (registry, [])
      else
        let ended := registry.update id (fun e => e.kill reason now) fun e => e.kill_id reason now
        (ended.nested id).foldl
          (fun walked c =>
            ((cancelEntry reason now n walked.1 c).1,
              walked.2 ++ (cancelEntry reason now n walked.1 c).2))
          (ended, [(entry.kill reason now).record])

/-- Stop one child and everything it spawned: the registry, and the records ended. -/
def cancel (registry : Registry) (id reason : String) (now : Int) :
    Registry × List SubAgentRecord :=
  cancelEntry reason now registry.children.length registry id

def cancelAll (registry : Registry) (reason : String) (now : Int) :
    Registry × List SubAgentRecord :=
  (registry.children.map ChildEntry.id).foldl
    (fun walked id =>
      ((walked.1.cancel id reason now).1, walked.2 ++ (walked.1.cancel id reason now).2))
    (registry, [])

/-- Reached from the child by a chain of live records. -/
inductive Reached (registry : Registry) (id : String) : String → Prop
  | self {entry : ChildEntry} (hfind : registry.find id = some entry)
    (hlive : entry.isTerminal = false) : Reached registry id id
  | child {p c : String} {entry : ChildEntry} (hp : Reached registry id p)
    (hfind : registry.find c = some entry) (hparent : entry.parent = p)
    (hlive : entry.isTerminal = false) : Reached registry id c

structure Kills (reason : String) (now : Int) (registry registry' : Registry)
    (ended : List SubAgentRecord) : Prop where
  ids : registry'.children.map ChildEntry.id = registry.children.map ChildEntry.id
  same : ∀ c, c ∉ ended.map (·.spec.id) → registry'.find c = registry.find c
  killed : ∀ record ∈ ended, ∃ entry, registry.find record.spec.id = some entry ∧
    entry.isTerminal = false ∧ record = (entry.kill reason now).record ∧
      registry'.find record.spec.id = some (entry.kill reason now)
  nodup : (ended.map (·.spec.id)).Nodup

namespace Kills

variable {reason : String} {now : Int} {registry registry' registry'' : Registry}
  {ended more : List SubAgentRecord}

theorem refl : Kills reason now registry registry [] where
  ids := rfl
  same _ _ := rfl
  killed _ h := absurd h List.not_mem_nil
  nodup := List.nodup_nil

theorem find_cases (h : Kills reason now registry registry' ended) (c : String) :
    registry'.find c = registry.find c ∧ c ∉ ended.map (·.spec.id) ∨
      ∃ entry, registry.find c = some entry ∧ entry.isTerminal = false ∧
        registry'.find c = some (entry.kill reason now) ∧ c ∈ ended.map (·.spec.id) := by
  by_cases hc : c ∈ ended.map (·.spec.id)
  · obtain ⟨record, hrecord, rfl⟩ := List.mem_map.mp hc
    obtain ⟨entry, hfind, hlive, -, hfind'⟩ := h.killed record hrecord
    exact .inr ⟨entry, hfind, hlive, hfind', hc⟩
  · exact .inl ⟨h.same c hc, hc⟩

theorem find_some (h : Kills reason now registry registry' ended) {entry' : ChildEntry}
    (hfind' : registry'.find c = some entry') :
    ∃ entry, registry.find c = some entry ∧ entry.parent = entry'.parent ∧
      (entry.isTerminal = true → entry' = entry) := by
  rcases h.find_cases c with ⟨hsame, -⟩ | ⟨entry, hfind, hlive, hkilled, -⟩
  · exact ⟨entry', hsame ▸ hfind', rfl, fun _ => rfl⟩
  · obtain rfl := Option.some.inj (hkilled.symm.trans hfind')
    exact ⟨entry, hfind, (entry.kill_parent reason now).symm,
      fun hterminal => absurd (hlive.symm.trans hterminal) (by simp)⟩

theorem find_of_terminal (h : Kills reason now registry registry' ended)
    (hfind : registry.find c = some entry) (hterminal : entry.isTerminal = true) :
    registry'.find c = some entry := by
  rcases h.find_cases c with ⟨hsame, -⟩ | ⟨entry', hfind', hlive, -, -⟩
  · exact hsame.trans hfind
  · obtain rfl := Option.some.inj (hfind'.symm.trans hfind)
    exact absurd (hlive.symm.trans hterminal) (by simp)

theorem trans (h : Kills reason now registry registry' ended)
    (h' : Kills reason now registry' registry'' more) :
    Kills reason now registry registry'' (ended ++ more) := by
  -- what the first kills ended the second leave alone
  have hdisjoint : ∀ record ∈ more, record.spec.id ∉ ended.map (·.spec.id) := by
    intro record hrecord hmem
    obtain ⟨entry, hfind, hlive, -, -⟩ := h'.killed record hrecord
    obtain ⟨record', hrecord', hid⟩ := List.mem_map.mp hmem
    obtain ⟨entry', -, -, -, hfind'⟩ := h.killed record' hrecord'
    rw [hid, hfind] at hfind'
    obtain rfl := Option.some.inj hfind'
    rw [ChildEntry.kill_isTerminal] at hlive
    cases hlive
  refine ⟨h'.ids.trans h.ids, fun c hc => ?_, ?_, ?_⟩
  · rw [List.map_append, List.mem_append, not_or] at hc
    rw [h'.same c hc.2, h.same c hc.1]
  · refine List.forall_mem_append.mpr ⟨fun record hrecord => ?_, fun record hrecord => ?_⟩
    · obtain ⟨entry, hfind, hlive, heq, hfind'⟩ := h.killed record hrecord
      exact ⟨entry, hfind, hlive, heq,
        h'.find_of_terminal hfind' (entry.kill_isTerminal reason now)⟩
    · obtain ⟨entry, hfind, hlive, heq, hfind'⟩ := h'.killed record hrecord
      rw [h.same _ (hdisjoint record hrecord)] at hfind
      exact ⟨entry, hfind, hlive, heq, hfind'⟩
  · rw [List.map_append]
    refine List.Nodup.append h.nodup h'.nodup fun c hc hc' => ?_
    obtain ⟨record, hrecord, rfl⟩ := List.mem_map.mp hc'
    exact hdisjoint record hrecord hc

/-- Fewer chains of live records are left. -/
theorem reached (h : Kills reason now registry registry' ended)
    (hreached : Reached registry' id c) : Reached registry id c := by
  have hlive : ∀ {c : String} {entry' : ChildEntry}, registry'.find c = some entry' →
      entry'.isTerminal = false → registry.find c = some entry' := by
    intro c entry' hfind' hlive
    rcases h.find_cases c with ⟨hsame, -⟩ | ⟨entry, -, -, hkilled, -⟩
    · exact hsame ▸ hfind'
    · obtain rfl := Option.some.inj (hkilled.symm.trans hfind')
      rw [ChildEntry.kill_isTerminal] at hlive
      cases hlive
  induction hreached with
  | self hfind' hlive' => exact .self (hlive hfind' hlive') hlive'
  | child _ hfind' hparent hlive' ih => exact .child ih (hlive hfind' hlive') hparent hlive'

end Kills

theorem Reached.of_child {registry : Registry} {d : String} {entry' : ChildEntry}
    (hfind : registry.find id = some entry) (hlive : entry.isTerminal = false)
    (hchild : registry.find c = some entry') (hparent : entry'.parent = id)
    (h : Reached registry c d) : Reached registry id d := by
  induction h with
  | self hfind' hlive' =>
    obtain rfl := Option.some.inj (hchild.symm.trans hfind')
    exact .child (.self hfind hlive) hfind' hparent hlive'
  | child _ hfind' hparent' hlive' ih => exact .child ih hfind' hparent' hlive'

def Closed (registry' : Registry) (ended : List SubAgentRecord) : Prop :=
  ∀ record ∈ ended, ∀ c entry, registry'.find c = some entry → entry.parent = record.spec.id →
    entry.isTerminal = true

theorem Closed.kills {reason : String} {now : Int} {registry registry' : Registry}
    {ended more : List SubAgentRecord} (h : Closed registry ended)
    (hkills : Kills reason now registry registry' more) : Closed registry' ended := by
  intro record hrecord c entry' hfind' hparent
  obtain ⟨entry, hfind, hsame, hkeep⟩ := hkills.find_some hfind'
  have hterminal := h record hrecord c entry hfind (hsame.trans hparent)
  rw [hkeep hterminal]
  exact hterminal

def live (registry : Registry) : Nat :=
  (registry.children.map ChildEntry.id).countP fun id =>
    (registry.find id).any fun entry => !entry.isTerminal

theorem live_le_length (registry : Registry) : registry.live ≤ registry.children.length :=
  Nat.le_trans List.countP_le_length (Nat.le_of_eq (List.length_map _))

theorem live_pos {registry : Registry} (hfind : registry.find id = some entry)
    (halive : entry.isTerminal = false) :
    0 < registry.live := by
  refine List.countP_pos_iff.mpr ⟨id, ?_, by rw [hfind, Option.any_some, halive]; rfl⟩
  obtain ⟨hmem, rfl⟩ := mem_of_find hfind
  exact List.mem_map_of_mem hmem

theorem Kills.live_mono {reason : String} {now : Int} {registry registry' : Registry}
    {ended : List SubAgentRecord} (h : Kills reason now registry registry' ended)
    (hlive : ((registry'.find c).any fun entry => !entry.isTerminal) = true) :
    ((registry.find c).any fun entry => !entry.isTerminal) = true := by
  rcases h.find_cases c with ⟨hsame, -⟩ | ⟨entry, -, -, hkilled, -⟩
  · rwa [hsame] at hlive
  · rw [hkilled, Option.any_some, ChildEntry.kill_isTerminal] at hlive
    cases hlive

theorem Kills.live_le {reason : String} {now : Int} {registry registry' : Registry}
    {ended : List SubAgentRecord} (h : Kills reason now registry registry' ended) :
    registry'.live ≤ registry.live := by
  rw [live, live, h.ids]
  exact List.countP_mono_left fun c _ => h.live_mono

theorem Kills.live_lt {reason : String} {now : Int} {registry registry' : Registry}
    {ended : List SubAgentRecord} (h : Kills reason now registry registry' ended)
    {entry' : ChildEntry} (hfind : registry.find id = some entry)
    (halive : entry.isTerminal = false) (hfind' : registry'.find id = some entry')
    (hterminal : entry'.isTerminal = true) : registry'.live < registry.live := by
  rw [live, live, h.ids]
  obtain ⟨hmem, hid⟩ := mem_of_find hfind
  refine countP_lt_countP (List.mem_map_of_mem hmem) (fun c hlive => ?_) ?_ ?_
  · exact h.live_mono hlive
  · rw [hid, hfind', Option.any_some, hterminal]
    rfl
  · rw [hid, hfind, Option.any_some, halive]
    rfl

section Walk

variable {reason : String} {now : Int}

theorem kills_update {registry : Registry} (hfind : registry.find id = some entry)
    (hlive : entry.isTerminal = false) :
    Kills reason now registry
      (registry.update id (fun e => e.kill reason now) fun e => e.kill_id reason now)
      [(entry.kill reason now).record] := by
  have hid : (entry.kill reason now).record.spec.id = id :=
    (entry.kill_id reason now).trans (mem_of_find hfind).2
  refine ⟨?_, fun c hc => ?_, ?_, List.nodup_singleton _⟩
  · rw [update, List.map_map]
    refine List.map_congr_left fun e _ => ?_
    rw [Function.comp_apply]
    split
    · exact e.kill_id reason now
    · rfl
  · rw [List.map_singleton, List.mem_singleton, hid] at hc
    rw [find_update, if_neg hc]
  · refine List.forall_mem_singleton.mpr ⟨entry, hid.symm ▸ hfind, hlive, rfl, ?_⟩
    rw [find_update, hid, if_pos rfl, hfind]
    rfl

structure Walk (reason : String) (now : Int) (registry : Registry) (id : String)
    (walked : Registry × List SubAgentRecord) : Prop where
  kills : Kills reason now registry walked.1 walked.2
  closed : Closed walked.1 walked.2
  reached : ∀ record ∈ walked.2, Reached registry id record.spec.id
  done : ∀ entry, walked.1.find id = some entry → entry.isTerminal = true

theorem walk_foldl {n : Nat}
    (hwalk : ∀ registry c, live registry ≤ n →
      Walk reason now registry c (cancelEntry reason now n registry c))
    (ids : List String) {registry : Registry} (hlive : live registry ≤ n)
    (ended : List SubAgentRecord) :
    ∃ more registry', ids.foldl
        (fun walked c =>
          ((cancelEntry reason now n walked.1 c).1,
            walked.2 ++ (cancelEntry reason now n walked.1 c).2)) (registry, ended) =
          (registry', ended ++ more) ∧
      Kills reason now registry registry' more ∧ Closed registry' more ∧
      (∀ record ∈ more, ∃ c ∈ ids, Reached registry c record.spec.id) ∧
      ∀ c ∈ ids, ∀ entry, registry'.find c = some entry → entry.isTerminal = true := by
  induction ids generalizing registry ended with
  | nil =>
    exact ⟨[], registry, by rw [List.append_nil]; rfl, .refl,
      fun _ h => absurd h List.not_mem_nil, fun _ h => absurd h List.not_mem_nil,
      fun _ h => absurd h List.not_mem_nil⟩
  | cons c ids ih =>
    have hfirst := hwalk registry c hlive
    obtain ⟨more, registry', hfold, hkills, hclosed, hreached, hdone⟩ :=
      ih (Nat.le_trans hfirst.kills.live_le hlive)
        (ended ++ (cancelEntry reason now n registry c).2)
    refine ⟨(cancelEntry reason now n registry c).2 ++ more, registry', ?_,
      hfirst.kills.trans hkills, ?_, ?_, ?_⟩
    · rw [List.foldl_cons, hfold, List.append_assoc]
    · exact List.forall_mem_append.mpr ⟨hfirst.closed.kills hkills, hclosed⟩
    · refine List.forall_mem_append.mpr ⟨fun record hrecord => ?_, fun record hrecord => ?_⟩
      · exact ⟨c, List.mem_cons_self, hfirst.reached record hrecord⟩
      · obtain ⟨d, hd, hfrom⟩ := hreached record hrecord
        exact ⟨d, List.mem_cons_of_mem _ hd, hfirst.kills.reached hfrom⟩
    · refine List.forall_mem_cons.mpr ⟨fun entry' hfind' => ?_, hdone⟩
      obtain ⟨entry, hfind, -, hkeep⟩ := hkills.find_some hfind'
      have hterminal := hfirst.done entry hfind
      rw [hkeep hterminal]
      exact hterminal

/-- **The walk.** With as much depth as there are live records, `cancel_entry` ends the child and
what live records spawned, and nothing else. -/
theorem walk_cancelEntry (n : Nat) (registry : Registry) (id : String)
    (hlive : live registry ≤ n) :
    Walk reason now registry id (cancelEntry reason now n registry id) := by
  have hnothing : ∀ {registry : Registry} {id : String},
      (∀ entry, registry.find id = some entry → entry.isTerminal = true) →
        Walk reason now registry id (registry, []) := fun hdone =>
    ⟨.refl, fun _ h => absurd h List.not_mem_nil, fun _ h => absurd h List.not_mem_nil, hdone⟩
  induction n generalizing registry id with
  | zero =>
    refine hnothing fun entry hfind => ?_
    by_contra hne
    have hpos := live_pos hfind (Bool.eq_false_iff.mpr hne)
    omega
  | succ n ih =>
    unfold cancelEntry
    cases hfind : registry.find id with
    | none => exact hnothing fun entry h => absurd (hfind.symm.trans h) (by simp)
    | some entry =>
      by_cases hterminal : entry.isTerminal = true
      · simp only [if_pos hterminal]
        refine hnothing fun entry' h => ?_
        obtain rfl := Option.some.inj (hfind.symm.trans h)
        exact hterminal
      · simp only [if_neg hterminal]
        have halive := Bool.eq_false_iff.mpr hterminal
        generalize hended : registry.update id (fun e => e.kill reason now)
          (fun e => e.kill_id reason now) = first
        have hkilled : Kills reason now registry first [(entry.kill reason now).record] :=
          hended ▸ kills_update hfind halive
        have hself : first.find id = some (entry.kill reason now) := by
          rw [← hended, find_update, if_pos rfl, hfind]
          rfl
        have hid : (entry.kill reason now).record.spec.id = id :=
          (entry.kill_id reason now).trans (mem_of_find hfind).2
        -- one live record fewer
        have hfewer : first.live ≤ n := Nat.le_of_lt_succ (Nat.lt_of_lt_of_le
          (hkilled.live_lt hfind halive hself (entry.kill_isTerminal reason now)) hlive)
        obtain ⟨more, registry', hfold, hkills, hclosed, hreached, hdone⟩ :=
          walk_foldl ih (first.nested id) hfewer [(entry.kill reason now).record]
        rw [hfold]
        refine ⟨hkilled.trans hkills, ?_, ?_, fun entry' hfind' => ?_⟩
        · refine List.forall_mem_append.mpr ⟨List.forall_mem_singleton.mpr ?_, hclosed⟩
          rw [hid]
          intro c entry' hfind' hparent
          obtain ⟨e, hfinde, hsame, -⟩ := hkills.find_some hfind'
          exact hdone c (mem_nested hfinde (hsame.trans hparent)) entry' hfind'
        · refine List.forall_mem_append.mpr ⟨List.forall_mem_singleton.mpr ?_, ?_⟩
          · rw [hid]
            exact .self hfind halive
          · intro record hrecord
            obtain ⟨c, hc, hfrom⟩ := hreached record hrecord
            obtain ⟨e, hfinde, hparent⟩ := find_of_mem_nested hc
            obtain ⟨e', hfinde', hsame, -⟩ := hkilled.find_some hfinde
            exact (hkilled.reached hfrom).of_child hfind halive hfinde' (hsame.trans hparent)
        · have hkept := hkills.find_of_terminal hself (entry.kill_isTerminal reason now)
          obtain rfl := Option.some.inj (hkept.symm.trans hfind')
          exact entry.kill_isTerminal reason now

/-- **A kill.** `cancel` ends the child, when it is live, and all that live records below it
spawned; nothing else changes. -/
theorem walk_cancel (registry : Registry) (id reason : String) (now : Int) :
    Walk reason now registry id (registry.cancel id reason now) :=
  walk_cancelEntry _ registry id registry.live_le_length

theorem kills_foldl (ids : List String) (registry : Registry) (ended : List SubAgentRecord) :
    ∃ more registry', ids.foldl
        (fun walked id =>
          ((walked.1.cancel id reason now).1, walked.2 ++ (walked.1.cancel id reason now).2))
        (registry, ended) = (registry', ended ++ more) ∧
      Kills reason now registry registry' more ∧
      ∀ id ∈ ids, ∀ entry, registry'.find id = some entry → entry.isTerminal = true := by
  induction ids generalizing registry ended with
  | nil =>
    exact ⟨[], registry, by rw [List.append_nil]; rfl, .refl, fun _ h => absurd h List.not_mem_nil⟩
  | cons id ids ih =>
    have hfirst := registry.walk_cancel id reason now
    obtain ⟨more, registry', hfold, hkills, hdone⟩ :=
      ih (registry.cancel id reason now).1 (ended ++ (registry.cancel id reason now).2)
    refine ⟨(registry.cancel id reason now).2 ++ more, registry', ?_, hfirst.kills.trans hkills,
      List.forall_mem_cons.mpr ⟨fun entry' hfind' => ?_, hdone⟩⟩
    · rw [List.foldl_cons, hfold, List.append_assoc]
    · obtain ⟨entry, hfind, -, hkeep⟩ := hkills.find_some hfind'
      have hterminal := hfirst.done entry hfind
      rw [hkeep hterminal]
      exact hterminal

/-- Stopping every live child leaves none live, and changes nothing else. -/
theorem kills_cancelAll (registry : Registry) (reason : String) (now : Int) :
    Kills reason now registry (registry.cancelAll reason now).1
        (registry.cancelAll reason now).2 ∧
      ∀ c entry, (registry.cancelAll reason now).1.find c = some entry →
        entry.isTerminal = true := by
  obtain ⟨more, registry', hfold, hkills, hdone⟩ :=
    kills_foldl (registry.children.map ChildEntry.id) registry []
  rw [List.nil_append] at hfold
  rw [cancelAll, hfold]
  refine ⟨hkills, fun c entry hfind => hdone c ?_ entry hfind⟩
  obtain ⟨hmem, rfl⟩ := mem_of_find hfind
  rw [← hkills.ids]
  exact List.mem_map_of_mem hmem

end Walk

end Registry

end Goble.Subagents
