import Goble.Lib.Novel
import Goble.Lib.Lists
import Goble.Lib.Text
import Mathlib.Algebra.Ring.Nat
import Mathlib.Data.List.Infix

/-!
# The memory of an agent

A transcript is compacted to a `CompactionResult`, which is merged into the memory of the agent.
The merge writes nothing over: what is there stays, and goals and milestones only become done
(`kept_mergeCompaction`). But the texts of the result are compared with those of the memory by
containment, either way round, so a short text marks a goal done that it does not name, and a new
goal is turned away for an old one that it merely resembles (`faithful_iff`).
-/

namespace Goble.Memory

open Goble.Text (toAsciiLowercase trim)

/-! ### The memory -/

/-- A goal or a milestone: the two have the same fields. -/
structure Item where
  id : Nat
  text : List Char
  done : Bool
  createdAt : Int
deriving DecidableEq

abbrev Goal := Item

abbrev Milestone := Item

structure Decision where
  id : Nat
  summary : List Char
  rationale : List Char
  createdAt : Int

structure SessionSummary where
  sessionId : List Char
  summary : List Char
  messageCount : Nat
  createdAt : Int

structure AgentMemory where
  agentId : List Char
  version : Nat
  brief : List Char
  facts : List (List Char)
  goals : List Goal
  constraints : List (List Char)
  decisions : List Decision
  progress : List Milestone
  openQuestions : List (List Char)
  rollingSummaries : List SessionSummary
  updatedAt : Int

structure CompactedDecision where
  summary : List Char
  rationale : List Char

structure CompactionResult where
  sessionId : List Char
  summary : List Char
  facts : List (List Char)
  decisions : List CompactedDecision
  goalsCompleted : List (List Char)
  newGoals : List (List Char)
  milestonesCompleted : List (List Char)
  nextSteps : List (List Char)
  messageCount : Nat

structure AgentState where
  memory : AgentMemory
  nextId : Nat
  fresh : ∀ m ∈ memory.progress, m.id < nextId

def AgentMemory.bumpVersion (now : Int) (memory : AgentMemory) : AgentMemory :=
  { memory with version := (memory.version + 1) % 2 ^ 32, updatedAt := now }

namespace AgentState

variable (now : Int) (s : AgentState)

def appendSummary (sessionId summary : List Char) (messageCount : Nat) : AgentState :=
  { s with memory := AgentMemory.bumpVersion now { s.memory with
      rollingSummaries := s.memory.rollingSummaries ++ [⟨sessionId, summary, messageCount, now⟩] } }

def addFact (fact : List Char) : AgentState :=
  if fact ∈ s.memory.facts then s
  else
    { s with memory := AgentMemory.bumpVersion now { s.memory with
        facts := s.memory.facts ++ [fact] } }

def recordDecision (summary rationale : List Char) : AgentState where
  memory := AgentMemory.bumpVersion now { s.memory with
    decisions := s.memory.decisions ++ [⟨s.nextId, summary, rationale, now⟩] }
  nextId := s.nextId + 1
  fresh m hm := Nat.lt_succ_of_lt (s.fresh m hm)

def addGoal (text : List Char) : AgentState where
  memory := AgentMemory.bumpVersion now { s.memory with
    goals := s.memory.goals ++ [⟨s.nextId, text, false, now⟩] }
  nextId := s.nextId + 1
  fresh m hm := Nat.lt_succ_of_lt (s.fresh m hm)

def addMilestone (text : List Char) : AgentState where
  memory := AgentMemory.bumpVersion now { s.memory with
    progress := s.memory.progress ++ [⟨s.nextId, text, false, now⟩] }
  nextId := s.nextId + 1
  fresh := by
    intro m hm
    obtain hm | hm := List.mem_append.mp hm
    · exact Nat.lt_succ_of_lt (s.fresh m hm)
    · obtain rfl := List.mem_singleton.mp hm
      exact Nat.lt_succ_self _

end AgentState

/-- `iter_mut().find(..)`, and what is found is done. -/
def markFirst (p : Item → Bool) : List Item → List Item
  | [] => []
  | item :: items =>
    if p item then { item with done := true } :: items else item :: markFirst p items

theorem map_id_markFirst (p : Item → Bool) (items : List Item) :
    (markFirst p items).map Item.id = items.map Item.id := by
  induction items with
  | nil => rfl
  | cons item items ih =>
    rw [markFirst]
    split
    · rfl
    · rw [List.map_cons, List.map_cons, ih]

namespace AgentState

def markGoal (p : Goal → Bool) (s : AgentState) : AgentState :=
  { s with memory := { s.memory with goals := markFirst p s.memory.goals } }

def markMilestone (p : Milestone → Bool) (s : AgentState) : AgentState where
  memory := { s.memory with progress := markFirst p s.memory.progress }
  nextId := s.nextId
  fresh := by
    intro m hm
    -- the ids are those of before
    have hid := List.mem_map_of_mem (f := Item.id) hm
    rw [map_id_markFirst] at hid
    obtain ⟨m', hm', heq⟩ := List.mem_map.mp hid
    exact heq ▸ s.fresh m' hm'

end AgentState

/-! ### The merge -/

def normal (lower : List Char → List Char) (text : List Char) : List Char := lower (trim text)

/-- `contains`, on texts that are trimmed and lowercased. -/
def keysMatch (a b : List Char) : Bool := a = b || decide (b <:+: a) || decide (a <:+: b)

def textMatches (lower : List Char → List Char) (a b : List Char) : Bool :=
  keysMatch (normal lower a) (normal lower b)

section Merge

variable (lower : List Char → List Char) (now : Int) (s : AgentState)

def mergeDecision (decision : CompactedDecision) : AgentState :=
  if s.memory.decisions.any fun d => d.summary = decision.summary then s
  else s.recordDecision now decision.summary decision.rationale

def completeGoal (text : List Char) : AgentState :=
  s.markGoal fun goal => textMatches lower goal.text text

def mergeGoal (text : List Char) : AgentState :=
  if s.memory.goals.any fun goal => textMatches lower goal.text text then s else s.addGoal now text

def completeMilestone (text : List Char) : AgentState :=
  if s.memory.progress.any fun m => textMatches lower m.text text then
    s.markMilestone fun m => textMatches lower m.text text
  else (s.addMilestone now text).markMilestone fun m => m.id = s.nextId

def mergeStep (text : List Char) : AgentState :=
  if s.memory.progress.any fun m => textMatches lower m.text text then s
  else s.addMilestone now text

def mergeCompaction (result : CompactionResult) : AgentState :=
  let s := s.appendSummary now result.sessionId result.summary result.messageCount
  let s := result.facts.foldl (AgentState.addFact now) s
  let s := result.decisions.foldl (mergeDecision now) s
  let s := result.goalsCompleted.foldl (completeGoal lower) s
  let s := result.newGoals.foldl (mergeGoal lower now) s
  let s := result.milestonesCompleted.foldl (completeMilestone lower now) s
  result.nextSteps.foldl (mergeStep lower now) s

end Merge

/-! ### What must not be lost -/

def Continues (old new : Item) : Prop := new = { old with done := new.done } ∧ (old.done → new.done)

theorem Continues.refl (item : Item) : Continues item item := ⟨rfl, id⟩

theorem Continues.trans {a b c : Item} (hab : Continues a b) (hbc : Continues b c) :
    Continues a c := by
  refine ⟨?_, fun hdone => hbc.2 (hab.2 hdone)⟩
  rw [hbc.1, hab.1]

theorem continues_done (item : Item) (b : Bool) :
    Continues item { item with done := item.done || b } := by
  refine ⟨rfl, fun hdone => ?_⟩
  rw [hdone, Bool.true_or]

/-- Nothing is removed, and only what is done may change. -/
structure Kept (before after : AgentMemory) : Prop where
  facts : before.facts <+: after.facts
  goals : Grows Continues before.goals after.goals
  constraints : before.constraints <+: after.constraints
  decisions : before.decisions <+: after.decisions
  progress : Grows Continues before.progress after.progress
  rollingSummaries : before.rollingSummaries <+: after.rollingSummaries

theorem Kept.refl (memory : AgentMemory) : Kept memory memory where
  facts := List.prefix_rfl
  goals := .refl Continues.refl _
  constraints := List.prefix_rfl
  decisions := List.prefix_rfl
  progress := .refl Continues.refl _
  rollingSummaries := List.prefix_rfl

theorem Kept.trans {a b c : AgentMemory} (hab : Kept a b) (hbc : Kept b c) : Kept a c where
  facts := hab.facts.trans hbc.facts
  goals := hab.goals.trans Continues.trans hbc.goals
  constraints := hab.constraints.trans hbc.constraints
  decisions := hab.decisions.trans hbc.decisions
  progress := hab.progress.trans Continues.trans hbc.progress
  rollingSummaries := hab.rollingSummaries.trans hbc.rollingSummaries

section Faithful

variable (lower : List Char → List Char)

def keys (items : List Item) : List (List Char) := items.map fun item => normal lower item.text

def CompletedBy (texts : List (List Char)) (before after : List Item) : Prop :=
  ∀ (i : Nat) (item : Item), after[i]? = some item → item.done = true →
    (∃ old, before[i]? = some old ∧ old.done = true) ∨
      ∃ text ∈ texts, normal lower item.text = normal lower text

/-- A merge takes the texts of its result at their word. -/
structure Faithful (before : AgentMemory) (result : CompactionResult) (after : AgentMemory) :
    Prop where
  goals : CompletedBy lower result.goalsCompleted before.goals after.goals
  progress : CompletedBy lower result.milestonesCompleted before.progress after.progress
  newGoals : ∀ text ∈ result.newGoals,
    (∃ goal ∈ before.goals, normal lower goal.text = normal lower text) ∨
      ∃ goal ∈ after.goals, normal lower goal.text = normal lower text ∧ goal.done = false

def NamesFirst (texts : List (List Char)) (items : List Item) : Prop :=
  ∀ text ∈ texts, ∀ item, items.find? (fun item => textMatches lower item.text text) = some item →
    item.done = true ∨ ∃ other ∈ texts, normal lower item.text = normal lower other

structure Unambiguous (memory : AgentMemory) (result : CompactionResult) : Prop where
  goals : NamesFirst lower result.goalsCompleted memory.goals
  progress : NamesFirst lower result.milestonesCompleted memory.progress
  newGoals : ∀ before key after, result.newGoals.map (normal lower) = before ++ key :: after →
    (∃ known ∈ keys lower memory.goals ++ before, keysMatch known key = true) →
      key ∈ keys lower memory.goals ++ before

end Faithful

/-! ### Marking -/

section Marking

variable {p : Item → Bool} {items added : List Item}

theorem getElem?_markFirst (i : Nat) : (markFirst p items)[i]? =
    items[i]?.map fun item => { item with done := item.done || decide (items.findIdx p = i) } := by
  induction items generalizing i with
  | nil => rfl
  | cons item items ih =>
    rw [markFirst, List.findIdx_cons]
    cases hp : p item with
    | true =>
      -- the first item is marked, and no other
      cases i with
      | zero => simp
      | succ i => simp
    | false =>
      cases i with
      | zero => simp
      | succ i => simpa using ih i

theorem markFirst_of_forall (h : ∀ item ∈ items, p item = true → item.done = true) :
    markFirst p items = items := by
  induction items with
  | nil => rfl
  | cons item items ih =>
    rw [markFirst]
    split
    · next hp =>
      have hdone : { item with done := true } = item := by
        rw [← h item List.mem_cons_self hp]
      rw [hdone]
    · rw [ih fun item' hmem => h item' (List.mem_cons_of_mem _ hmem)]

theorem markFirst_append_of_none (h : ∀ item ∈ items, p item = false) :
    markFirst p (items ++ added) = items ++ markFirst p added := by
  induction items with
  | nil => rfl
  | cons item items ih =>
    rw [List.cons_append, markFirst, h item List.mem_cons_self,
      ih fun item' hmem => h item' (List.mem_cons_of_mem _ hmem)]
    rfl

theorem markFirst_append (h : ∀ item ∈ added, p item = true → item.done = true) :
    markFirst p (items ++ added) = markFirst p items ++ added := by
  induction items with
  | nil => exact markFirst_of_forall h
  | cons item items ih =>
    rw [List.cons_append, markFirst, markFirst]
    split
    · rfl
    · rw [ih, List.cons_append]

theorem map_text_markFirst (p : Item → Bool) (items : List Item) :
    (markFirst p items).map Item.text = items.map Item.text := by
  ext1 i
  rw [List.getElem?_map, getElem?_markFirst, List.getElem?_map, Option.map_map]
  rfl

end Marking

section MarkAll

variable (lower : List Char → List Char) {texts : List (List Char)} {items added : List Item}

/-- The items after these texts were completed. -/
def markAll (texts : List (List Char)) (items : List Item) : List Item :=
  texts.foldl (fun items text => markFirst (fun item => textMatches lower item.text text) items)
    items

theorem getElem?_markAll (i : Nat) : (markAll lower texts items)[i]? =
    items[i]?.map fun item => { item with
      done := item.done || texts.any fun text =>
        decide (items.findIdx (fun item => textMatches lower item.text text) = i) } := by
  induction texts generalizing items with
  | nil => simp [markAll]
  | cons text texts ih =>
    -- Marking changes no text, so the later texts find what they would have found.
    have hfind (q : List Char → Bool) :
        (markFirst (fun item => textMatches lower item.text text) items).findIdx (q ∘ Item.text) =
          items.findIdx (q ∘ Item.text) := by
      rw [← List.findIdx_map, map_text_markFirst, List.findIdx_map]
    have hfind' (other : List Char) := hfind (textMatches lower · other)
    simp only [Function.comp_def] at hfind'
    have hih := @ih (markFirst (fun item => textMatches lower item.text text) items)
    rw [getElem?_markFirst, Option.map_map] at hih
    simp only [hfind'] at hih
    rw [markAll, List.foldl_cons, ← markAll, hih]
    simp only [Function.comp_def, List.any_cons, Bool.or_assoc]

theorem completedBy_markAll_iff (hadded : ∀ item ∈ added, item.done = true →
      ∃ text ∈ texts, normal lower item.text = normal lower text) :
    CompletedBy lower texts items (markAll lower texts items ++ added) ↔
      NamesFirst lower texts items := by
  constructor
  · intro h text htext item hfind
    rw [List.find?_eq_getElem?_findIdx] at hfind
    have hmark := @getElem?_markAll lower texts items
      (items.findIdx fun item => textMatches lower item.text text)
    rw [hfind, Option.map_some] at hmark
    have hi := (List.getElem?_eq_some_iff.mp hmark).1
    have hany : (texts.any fun other => decide
        ((items.findIdx fun item => textMatches lower item.text other) =
          items.findIdx fun item => textMatches lower item.text text)) = true :=
      List.any_eq_true.mpr ⟨text, htext, decide_eq_true rfl⟩
    rw [hany, Bool.or_true] at hmark
    obtain ⟨old, hold, hdone⟩ | hnamed :=
      h _ _ ((List.getElem?_append_left hi).trans hmark) rfl
    · rw [hfind] at hold
      obtain rfl := Option.some.inj hold
      exact .inl hdone
    · exact .inr hnamed
  · intro h i item hitem hdone
    obtain hi | hi := Nat.lt_or_ge i (markAll lower texts items).length
    · rw [List.getElem?_append_left hi, getElem?_markAll] at hitem
      obtain ⟨old, hold, rfl⟩ := Option.map_eq_some_iff.mp hitem
      obtain hbefore | hmarked := Bool.or_eq_true_iff.mp hdone
      · exact .inl ⟨old, hold, hbefore⟩
      · -- a text has found this item first
        obtain ⟨text, htext, hidx⟩ := List.any_eq_true.mp hmarked
        obtain rfl := of_decide_eq_true hidx
        rw [← List.find?_eq_getElem?_findIdx] at hold
        obtain hbefore | hnamed := h text htext old hold
        · rw [List.find?_eq_getElem?_findIdx] at hold
          exact .inl ⟨old, hold, hbefore⟩
        · exact .inr hnamed
    · rw [List.getElem?_append_right hi] at hitem
      exact .inr (hadded item (List.mem_of_getElem? hitem) hdone)

end MarkAll

/-! ### The loops of a merge -/

section Loops

variable {lower : List Char → List Char} {now : Int} {s : AgentState} {texts : List (List Char)}

theorem goals_completeGoal : (texts.foldl (completeGoal lower) s).memory.goals =
    markAll lower texts s.memory.goals :=
  (List.foldl_hom (fun s : AgentState => s.memory.goals) fun _ _ => rfl).symm

/-- The new goals that are added are open, and are those that resemble none before them. -/
theorem goals_mergeGoal : ∃ added, (texts.foldl (mergeGoal lower now) s).memory.goals =
      s.memory.goals ++ added ∧
    keys lower added = novel keysMatch (keys lower s.memory.goals) (texts.map (normal lower)) ∧
      ∀ goal ∈ added, goal.done = false := by
  induction texts generalizing s with
  | nil => exact ⟨[], (List.append_nil _).symm, rfl, fun _ h => absurd h List.not_mem_nil⟩
  | cons text texts ih =>
    rw [List.foldl_cons, List.map_cons, novel]
    have hany : ((keys lower s.memory.goals).any fun known => keysMatch known (normal lower text)) =
        s.memory.goals.any fun goal => textMatches lower goal.text text := List.any_map
    rw [hany, mergeGoal]
    split
    · exact ih
    · obtain ⟨added, hgoals, hkeys, hopen⟩ := ih (s := s.addGoal now text)
      refine ⟨⟨s.nextId, text, false, now⟩ :: added, ?_, ?_, ?_⟩
      · rw [hgoals]
        exact List.append_assoc ..
      · have hadd : keys lower (s.addGoal now text).memory.goals =
            keys lower s.memory.goals ++ [normal lower text] := List.map_append
        rw [hadd] at hkeys
        exact congrArg (List.cons (normal lower text)) hkeys
      · exact List.forall_mem_cons.mpr ⟨rfl, hopen⟩

theorem progress_completeMilestone : ∃ added,
    (texts.foldl (completeMilestone lower now) s).memory.progress =
        markAll lower texts s.memory.progress ++ added ∧
      ∀ m ∈ added, m.done = true ∧ m.text ∈ texts := by
  -- the induction is from the end: the texts before have marked and added
  induction texts using List.reverseRecOn with
  | nil => exact ⟨[], (List.append_nil _).symm, fun _ h => absurd h List.not_mem_nil⟩
  | append_singleton texts text ih =>
    obtain ⟨added, hprogress, hadded⟩ := ih
    rw [List.foldl_append, List.foldl_cons, List.foldl_nil, markAll, List.foldl_append,
      List.foldl_cons, List.foldl_nil, ← markAll]
    set before := texts.foldl (completeMilestone lower now) s
    have hdone (p : Item → Bool) : ∀ m ∈ added, p m = true → m.done = true :=
      fun m hm _ => (hadded m hm).1
    have htexts : ∀ m ∈ added, m.done = true ∧ m.text ∈ texts ++ [text] :=
      fun m hm => ⟨(hadded m hm).1, List.mem_append_left _ (hadded m hm).2⟩
    rw [completeMilestone]
    split
    · refine ⟨added, ?_, htexts⟩
      rw [← markFirst_append (hdone _), ← hprogress]
      rfl
    · next hnone =>
      rw [List.any_eq_true, not_exists] at hnone
      refine ⟨added ++ [⟨before.nextId, text, true, now⟩], ?_, ?_⟩
      · -- of the milestones that were there none is found, by its text or by the new id
        have hnew : ((before.addMilestone now text).markMilestone
            fun m => m.id = before.nextId).memory.progress =
              before.memory.progress ++ [⟨before.nextId, text, true, now⟩] := by
          change markFirst _ (before.memory.progress ++ [_]) = _
          rw [markFirst_append_of_none]
          · simp [markFirst]
          · intro m hm
            exact decide_eq_false (Nat.ne_of_lt (before.fresh m hm))
        have hmarked : markFirst (fun m => textMatches lower m.text text)
            (markAll lower texts s.memory.progress) = markAll lower texts s.memory.progress := by
          refine markFirst_of_forall fun m hm hmatch => ?_
          refine absurd ⟨?_, hmatch⟩ (hnone m)
          rw [hprogress]
          exact List.mem_append_left _ hm
        rw [hnew, hmarked, hprogress, List.append_assoc]
      · intro m hm
        obtain hm | hm := List.mem_append.mp hm
        · exact htexts m hm
        · obtain rfl := List.mem_singleton.mp hm
          exact ⟨rfl, List.mem_append_right _ (List.mem_singleton_self _)⟩

theorem progress_mergeStep : ∃ added,
    (texts.foldl (mergeStep lower now) s).memory.progress = s.memory.progress ++ added ∧
      ∀ m ∈ added, m.done = false := by
  induction texts generalizing s with
  | nil => exact ⟨[], (List.append_nil _).symm, fun _ h => absurd h List.not_mem_nil⟩
  | cons text texts ih =>
    rw [List.foldl_cons, mergeStep]
    split
    · exact ih
    · obtain ⟨added, hprogress, hopen⟩ := ih (s := s.addMilestone now text)
      refine ⟨⟨s.nextId, text, false, now⟩ :: added, ?_, List.forall_mem_cons.mpr ⟨rfl, hopen⟩⟩
      rw [hprogress]
      exact List.append_assoc ..

end Loops

/-! ### What each step keeps -/

section Keeping

variable {lower : List Char → List Char} {now : Int} {s : AgentState}

theorem grows_markFirst (p : Item → Bool) (items : List Item) :
    Grows Continues items (markFirst p items) := by
  intro i item hitem
  rw [getElem?_markFirst, hitem, Option.map_some]
  exact ⟨_, rfl, continues_done _ _⟩

theorem kept_appendSummary (sessionId summary : List Char) (messageCount : Nat) :
    Kept s.memory (s.appendSummary now sessionId summary messageCount).memory :=
  { Kept.refl s.memory with rollingSummaries := List.prefix_append .. }

theorem kept_addFact (fact : List Char) : Kept s.memory (s.addFact now fact).memory := by
  rw [AgentState.addFact]
  split
  · exact Kept.refl _
  · exact { Kept.refl s.memory with facts := List.prefix_append .. }

theorem kept_mergeDecision (decision : CompactedDecision) :
    Kept s.memory (mergeDecision now s decision).memory := by
  rw [mergeDecision]
  split
  · exact Kept.refl _
  · exact { Kept.refl s.memory with decisions := List.prefix_append .. }

theorem kept_completeGoal (text : List Char) :
    Kept s.memory (completeGoal lower s text).memory :=
  { Kept.refl s.memory with goals := grows_markFirst _ _ }

theorem kept_mergeGoal (text : List Char) : Kept s.memory (mergeGoal lower now s text).memory := by
  rw [mergeGoal]
  split
  · exact Kept.refl _
  · exact { Kept.refl s.memory with goals := .append Continues.refl _ _ }

theorem kept_markMilestone (p : Milestone → Bool) :
    Kept s.memory (s.markMilestone p).memory :=
  { Kept.refl s.memory with progress := grows_markFirst _ _ }

theorem kept_addMilestone (text : List Char) : Kept s.memory (s.addMilestone now text).memory :=
  { Kept.refl s.memory with progress := .append Continues.refl _ _ }

theorem kept_completeMilestone (text : List Char) :
    Kept s.memory (completeMilestone lower now s text).memory := by
  rw [completeMilestone]
  split
  · exact kept_markMilestone _
  · exact (kept_addMilestone text).trans (kept_markMilestone _)

theorem kept_mergeStep (text : List Char) : Kept s.memory (mergeStep lower now s text).memory := by
  rw [mergeStep]
  split
  · exact Kept.refl _
  · exact kept_addMilestone text

theorem kept_foldl {α : Type} {step : AgentState → α → AgentState}
    (h : ∀ s x, Kept s.memory (step s x).memory) (xs : List α) :
    Kept s.memory (xs.foldl step s).memory :=
  List.foldlRecOn (motive := fun t => Kept s.memory t.memory) xs step (Kept.refl _)
    fun t ht x _ => ht.trans (h t x)

theorem kept_mergeCompaction (result : CompactionResult) :
    Kept s.memory (mergeCompaction lower now s result).memory :=
  (kept_appendSummary ..).trans <| (kept_foldl (fun _ => kept_addFact) _).trans <|
    (kept_foldl (fun _ => kept_mergeDecision) _).trans <|
    (kept_foldl (fun _ => kept_completeGoal) _).trans <|
    (kept_foldl (fun _ => kept_mergeGoal) _).trans <|
    (kept_foldl (fun _ => kept_completeMilestone) _).trans (kept_foldl (fun _ => kept_mergeStep) _)

end Keeping

/-! ### A merge, and a sequence of them -/

section Merging

variable {lower : List Char → List Char} {now : Int} {s : AgentState}

theorem foldl_frame {α β : Type} {φ : AgentState → β} {step : AgentState → α → AgentState}
    (h : ∀ s x, φ (step s x) = φ s) (xs : List α) : φ (xs.foldl step s) = φ s :=
  List.foldlRecOn (motive := fun t => φ t = φ s) xs step rfl fun t ht x _ => (h t x).trans ht

theorem items_addFact (s : AgentState) (fact : List Char) :
    ((s.addFact now fact).memory.goals, (s.addFact now fact).memory.progress) =
      (s.memory.goals, s.memory.progress) := by
  rw [AgentState.addFact]
  split
  · rfl
  · rfl

theorem items_mergeDecision (s : AgentState) (decision : CompactedDecision) :
    ((mergeDecision now s decision).memory.goals,
      (mergeDecision now s decision).memory.progress) = (s.memory.goals, s.memory.progress) := by
  rw [mergeDecision]
  split
  · rfl
  · rfl

theorem progress_mergeGoal (s : AgentState) (text : List Char) :
    (mergeGoal lower now s text).memory.progress = s.memory.progress := by
  rw [mergeGoal]
  split
  · rfl
  · rfl

theorem goals_completeMilestone (s : AgentState) (text : List Char) :
    (completeMilestone lower now s text).memory.goals = s.memory.goals := by
  rw [completeMilestone]
  split
  · rfl
  · rfl

theorem goals_mergeStep (s : AgentState) (text : List Char) :
    (mergeStep lower now s text).memory.goals = s.memory.goals := by
  rw [mergeStep]
  split
  · rfl
  · rfl

theorem keys_markAll (texts : List (List Char)) (items : List Item) :
    keys lower (markAll lower texts items) = keys lower items := by
  ext1 i
  rw [keys, keys, List.getElem?_map, List.getElem?_map, getElem?_markAll, Option.map_map]
  rfl

variable (lower now s)

/-- What the loops before the goals leave. -/
theorem items_decisions (result : CompactionResult) :
    let s' := result.decisions.foldl (mergeDecision now) (result.facts.foldl
      (AgentState.addFact now)
      (s.appendSummary now result.sessionId result.summary result.messageCount))
    (s'.memory.goals, s'.memory.progress) = (s.memory.goals, s.memory.progress) :=
  (foldl_frame (φ := fun s => (s.memory.goals, s.memory.progress)) items_mergeDecision _).trans
    (foldl_frame (φ := fun s => (s.memory.goals, s.memory.progress)) items_addFact _)

theorem goals_mergeCompaction (result : CompactionResult) : ∃ added,
    (mergeCompaction lower now s result).memory.goals =
        markAll lower result.goalsCompleted s.memory.goals ++ added ∧
      keys lower added =
        novel keysMatch (keys lower s.memory.goals) (result.newGoals.map (normal lower)) ∧
      ∀ goal ∈ added, goal.done = false := by
  obtain ⟨hbefore, -⟩ := Prod.mk.inj (items_decisions now s result)
  rw [mergeCompaction]
  rw [foldl_frame (φ := fun s => s.memory.goals) goals_mergeStep,
    foldl_frame (φ := fun s => s.memory.goals) goals_completeMilestone]
  obtain ⟨added, hgoals, hkeys, hopen⟩ := goals_mergeGoal
  refine ⟨added, hgoals.trans ?_, hkeys.trans ?_, hopen⟩
  · rw [goals_completeGoal, hbefore]
  · rw [goals_completeGoal, hbefore, keys_markAll]

theorem progress_mergeCompaction (result : CompactionResult) : ∃ added,
    (mergeCompaction lower now s result).memory.progress =
        markAll lower result.milestonesCompleted s.memory.progress ++ added ∧
      ∀ m ∈ added, m.done = true → m.text ∈ result.milestonesCompleted := by
  obtain ⟨-, hbefore⟩ := Prod.mk.inj (items_decisions now s result)
  rw [mergeCompaction]
  obtain ⟨later, hlater, hopen⟩ := progress_mergeStep
  rw [hlater]
  obtain ⟨added, hadded, hdone⟩ := progress_completeMilestone
  rw [hadded, foldl_frame (φ := fun s => s.memory.progress) progress_mergeGoal,
    @foldl_frame _ _ _ (fun s => s.memory.progress) (completeGoal lower) fun _ _ => rfl,
    hbefore, List.append_assoc]
  refine ⟨_, rfl, fun m hm hmark => ?_⟩
  obtain hm | hm := List.mem_append.mp hm
  · exact (hdone m hm).2
  · exact absurd hmark (Bool.eq_false_iff.mp (hopen m hm))

/-- A new goal is there before or added, or it was turned away for one that it resembles. -/
theorem newGoals_iff (result : CompactionResult) :
    (∀ text ∈ result.newGoals,
      (∃ goal ∈ s.memory.goals, normal lower goal.text = normal lower text) ∨
        ∃ goal ∈ (mergeCompaction lower now s result).memory.goals,
          normal lower goal.text = normal lower text ∧ goal.done = false) ↔
      ∀ key ∈ result.newGoals.map (normal lower), key ∈ keys lower s.memory.goals ++
        novel keysMatch (keys lower s.memory.goals) (result.newGoals.map (normal lower)) := by
  obtain ⟨added, hgoals, hkeys, hopen⟩ := goals_mergeCompaction lower now s result
  rw [List.forall_mem_map, hgoals, ← hkeys]
  refine forall₂_congr fun text _ => ?_
  rw [List.mem_append, keys, List.mem_map, keys, List.mem_map]
  constructor
  · rintro (hknown | ⟨goal, hgoal, hkey, hdone⟩)
    · exact .inl hknown
    · obtain hold | hnew := List.mem_append.mp hgoal
      · have hmem : normal lower goal.text ∈ keys lower (markAll lower result.goalsCompleted
            s.memory.goals) := List.mem_map_of_mem hold
        rw [keys_markAll, keys, List.mem_map, hkey] at hmem
        exact .inl hmem
      · exact .inr ⟨goal, hnew, hkey⟩
  · rintro (hknown | ⟨goal, hnew, hkey⟩)
    · exact .inl hknown
    · exact .inr ⟨goal, List.mem_append_right _ hnew, hkey, hopen goal hnew⟩

theorem faithful_iff (result : CompactionResult) :
    Faithful lower s.memory result (mergeCompaction lower now s result).memory ↔
      Unambiguous lower s.memory result := by
  have hgoals : CompletedBy lower result.goalsCompleted s.memory.goals
      (mergeCompaction lower now s result).memory.goals ↔
      NamesFirst lower result.goalsCompleted s.memory.goals := by
    obtain ⟨added, hgoals, -, hopen⟩ := goals_mergeCompaction lower now s result
    rw [hgoals]
    exact completedBy_markAll_iff lower fun goal hgoal hdone =>
      absurd hdone (Bool.eq_false_iff.mp (hopen goal hgoal))
  have hprogress : CompletedBy lower result.milestonesCompleted s.memory.progress
      (mergeCompaction lower now s result).memory.progress ↔
      NamesFirst lower result.milestonesCompleted s.memory.progress := by
    obtain ⟨added, hprogress, hdone⟩ := progress_mergeCompaction lower now s result
    rw [hprogress]
    exact completedBy_markAll_iff lower fun m hm hmark => ⟨m.text, hdone m hm hmark, rfl⟩
  have hnew := (newGoals_iff lower now s result).trans mem_append_novel_iff
  constructor
  · intro h
    exact ⟨hgoals.mp h.goals, hprogress.mp h.progress, hnew.mp h.newGoals⟩
  · intro h
    exact ⟨hgoals.mpr h.goals, hprogress.mpr h.progress, hnew.mpr h.newGoals⟩

end Merging

section Runs

variable (lower : List Char → List Char)

/-- One merge after the other, each with the time it is made. -/
def mergeAll (s : AgentState) (merges : List (Int × CompactionResult)) : AgentState :=
  merges.foldl (fun s merge => mergeCompaction lower merge.1 s merge.2) s

/-- No sequence of merges loses anything, and each of them takes its result at its word, just if
each result is unambiguous in the memory it finds. -/
theorem mergeAll_iff (s : AgentState) (merges : List (Int × CompactionResult)) :
    (Kept s.memory (mergeAll lower s merges).memory ∧
      ∀ before merge after, merges = before ++ merge :: after →
        Faithful lower (mergeAll lower s before).memory merge.2
          (mergeAll lower s (before ++ [merge])).memory) ↔
      ∀ before merge after, merges = before ++ merge :: after →
        Unambiguous lower (mergeAll lower s before).memory merge.2 := by
  have hkept : Kept s.memory (mergeAll lower s merges).memory :=
    kept_foldl (fun _ merge => kept_mergeCompaction merge.2) merges
  rw [and_iff_right hkept]
  refine forall₃_congr fun before merge after => imp_congr_right fun _ => ?_
  rw [mergeAll, mergeAll, List.foldl_append, ← mergeAll]
  exact faithful_iff _ _ _ merge.2

end Runs

def runTests : AgentState where
  memory := ⟨[], 1, [], [], [⟨0, "run tests".toList, false, 0⟩], [], [], [], [], [], 0⟩
  nextId := 1
  fresh _ hm := absurd hm List.not_mem_nil

def newTest : CompactionResult where
  sessionId := []
  summary := []
  facts := []
  decisions := []
  goalsCompleted := []
  newGoals := ["test".toList]
  milestonesCompleted := []
  nextSteps := []
  messageCount := 1

/-- The new goal is contained in the old one, and is not added. -/
theorem not_mergeAll : ¬ (Kept runTests.memory
      (mergeAll toAsciiLowercase runTests [(0, newTest)]).memory ∧
    ∀ before merge after, [(0, newTest)] = before ++ merge :: after →
      Faithful toAsciiLowercase (mergeAll toAsciiLowercase runTests before).memory merge.2
        (mergeAll toAsciiLowercase runTests (before ++ [merge])).memory) := by
  rintro ⟨-, hfaithful⟩
  have hgoals : (mergeAll toAsciiLowercase runTests [(0, newTest)]).memory.goals =
      runTests.memory.goals := by
    decide +kernel
  have hdiffer : normal toAsciiLowercase "run tests".toList ≠
      normal toAsciiLowercase "test".toList := by
    decide +kernel
  have hnew := (hfaithful [] _ [] rfl).newGoals "test".toList List.mem_cons_self
  rw [List.nil_append, hgoals] at hnew
  obtain ⟨goal, hgoal, hkey⟩ | ⟨goal, hgoal, hkey, -⟩ := hnew
  · obtain rfl := List.mem_singleton.mp hgoal
    exact hdiffer hkey
  · obtain rfl := List.mem_singleton.mp hgoal
    exact hdiffer hkey

end Goble.Memory
