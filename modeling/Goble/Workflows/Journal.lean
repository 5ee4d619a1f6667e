import Mathlib.Data.List.Perm.Basic
import Mathlib.Data.List.Range
import Goble.Lib.Machine
import Goble.Workflows.Engine

/-!
# The journal of a workflow host

`WorkflowHost::journal` takes the next number under one lock and appends the entry under another.
A task that has taken its number holds the entry until it has the second lock, and meanwhile other
tasks take and append. So a run is an interleaving of the two critical sections of the tasks.

Whatever the interleaving, each number is given once (`Numbered`). The journal is in order if the
tasks append in the order in which they have taken their numbers, and only then: an entry that is
out of place stays so (`journal_in_order_iff`).
-/

namespace Goble.Workflows

variable {Task Trigger Payload : Type*}

structure WorkflowHostRequest (Trigger Payload : Type*) where
  seq : Nat
  requestId : List Char
  workflowId : List Char
  trigger : Trigger
  payload : Payload
  submittedAt : DateTime
deriving DecidableEq

/-- What the calls of `journal` share, and the entries of those that are between the locks. -/
structure Journaling (Task Trigger Payload : Type*) where
  nextSeq : Nat
  journal : List (WorkflowHostRequest Trigger Payload)
  held : List (Task × WorkflowHostRequest Trigger Payload)

inductive JournalStep (Task Trigger Payload : Type*) where
  | take (task : Task) (request : WorkflowHostRequest Trigger Payload)
  | append (task : Task)

namespace Journaling

variable [DecidableEq Task]

def heldBy (s : Journaling Task Trigger Payload) (task : Task) :
    Option (Task × WorkflowHostRequest Trigger Payload) :=
  s.held.find? (·.1 = task)

/-- A task calls `journal` again only when it has returned. -/
def step (s : Journaling Task Trigger Payload) :
    JournalStep Task Trigger Payload → Option (Journaling Task Trigger Payload)
  | .take task request =>
    if (s.heldBy task).isSome then none
    else some { s with
      nextSeq := s.nextSeq + 1
      held := s.held ++ [(task, { request with seq := s.nextSeq })] }
  | .append task =>
    (s.heldBy task).map fun entry =>
      { s with
        journal := s.journal ++ [entry.2]
        held := s.held.eraseP (·.1 = task) }

end Journaling

def journaling (Task Trigger Payload : Type*) [DecidableEq Task] :
    Machine (Journaling Task Trigger Payload) (JournalStep Task Trigger Payload) where
  init := ⟨0, [], []⟩
  step := Journaling.step

/-- The entries have the numbers 0, 1, 2 and so on. -/
def InOrder (journal : List (WorkflowHostRequest Trigger Payload)) : Prop :=
  journal.map (·.seq) = List.range journal.length

instance (journal : List (WorkflowHostRequest Trigger Payload)) : Decidable (InOrder journal) :=
  inferInstanceAs (Decidable (journal.map (·.seq) = List.range journal.length))

/-- Every number that was given is in the journal or held, once. -/
def Numbered (s : Journaling Task Trigger Payload) : Prop :=
  (s.journal.map (·.seq) ++ s.held.map (·.2.seq)).Perm (List.range s.nextSeq)

def FirstTaken [DecidableEq Task] (s : Journaling Task Trigger Payload) :
    JournalStep Task Trigger Payload → Prop
  | .take _ _ => True
  | .append task => ∀ entry, s.heldBy task = some entry →
      ∀ other ∈ s.held, entry.2.seq ≤ other.2.seq

instance [DecidableEq Task] (s : Journaling Task Trigger Payload) :
    ∀ l : JournalStep Task Trigger Payload, Decidable (FirstTaken s l)
  | .take _ _ => isTrue trivial
  | .append task =>
    inferInstanceAs (Decidable (∀ entry ∈ s.heldBy task, ∀ other ∈ s.held,
      entry.2.seq ≤ other.2.seq))

/-! ### One step -/

theorem inOrder_concat {journal : List (WorkflowHostRequest Trigger Payload)}
    {entry : WorkflowHostRequest Trigger Payload} :
    InOrder (journal ++ [entry]) ↔ InOrder journal ∧ entry.seq = journal.length := by
  rw [InOrder, InOrder, List.map_append, List.length_append, List.length_singleton,
    List.range_succ]
  constructor
  · intro h
    obtain ⟨hjournal, hentry⟩ := List.append_inj h (by simp)
    exact ⟨hjournal, (List.cons.inj hentry).1⟩
  · rintro ⟨hjournal, hentry⟩
    rw [hjournal, List.map_singleton, hentry]

theorem Numbered.mem_held {s : Journaling Task Trigger Payload} (h : Numbered s)
    (horder : InOrder s.journal) {n : Nat} :
    n ∈ s.held.map (·.2.seq) ↔ s.journal.length ≤ n ∧ n < s.nextSeq := by
  have hlength : s.journal.length ≤ s.nextSeq := by
    have hall := h.length_eq
    simp only [List.length_append, List.length_map, List.length_range] at hall
    omega
  obtain ⟨k, hk⟩ := Nat.exists_eq_add_of_le hlength
  -- what the journal has are the first numbers, so the rest are held
  have hrest : (s.held.map (·.2.seq)).Perm ((List.range k).map (s.journal.length + ·)) := by
    have hnumbers := h
    rw [Numbered, horder, hk, List.range_add] at hnumbers
    exact (List.perm_append_left_iff _).mp hnumbers
  rw [hrest.mem_iff, List.mem_map]
  constructor
  · rintro ⟨i, hi, rfl⟩
    have hi := List.mem_range.mp hi
    omega
  · rintro ⟨hle, hlt⟩
    exact ⟨n - s.journal.length, List.mem_range.mpr (by omega), by omega⟩

section Steps

variable [DecidableEq Task] {s t : Journaling Task Trigger Payload}

variable {l : JournalStep Task Trigger Payload}

theorem step_cases (h : s.step l = some t) :
    (∃ task request, l = .take task request ∧ t = { s with
      nextSeq := s.nextSeq + 1
      held := s.held ++ [(task, { request with seq := s.nextSeq })] }) ∨
    (∃ task entry before after, l = .append task ∧ s.heldBy task = some entry ∧
      s.held = before ++ entry :: after ∧
      t = { s with journal := s.journal ++ [entry.2], held := before ++ after }) := by
  cases l with
  | take task request =>
    rw [Journaling.step] at h
    split at h
    · cases h
    · exact .inl ⟨task, request, rfl, (Option.some.inj h).symm⟩
  | append task =>
    obtain ⟨entry, hheld, rfl⟩ := Option.map_eq_some_iff.mp h
    obtain ⟨hentry, before, after, hsplit, hbefore⟩ := List.find?_eq_some_iff_append.mp hheld
    refine .inr ⟨task, entry, before, after, rfl, hheld, hsplit, ?_⟩
    -- the entry is the first of its task, and those before it stay
    have hnone : ∀ other ∈ before, ¬ decide (other.1 = task) = true := by
      intro other hmem
      simpa using hbefore other hmem
    have hhere : (entry :: after).eraseP (·.1 = task) = after := List.eraseP_cons_of_pos hentry
    rw [hsplit, List.eraseP_append_right _ hnone, hhere]

theorem numbered_init : Numbered (journaling Task Trigger Payload).init := List.Perm.refl _

theorem Numbered.step (h : Numbered s) (hstep : s.step l = some t) : Numbered t := by
  rw [Numbered] at h ⊢
  obtain ⟨task, request, -, rfl⟩ | ⟨task, entry, before, after, -, -, hsplit, rfl⟩ :=
    step_cases hstep
  -- the new number is the next one
  · rw [List.map_append, List.range_succ, ← List.append_assoc]
    exact h.append_right _
  · rw [hsplit] at h
    refine List.Perm.trans ?_ h
    rw [List.map_append, List.map_append, List.map_append, List.append_assoc]
    refine List.Perm.append_left _ ?_
    simp only [List.map_cons, List.map_nil, List.cons_append, List.nil_append]
    exact List.perm_middle.symm

theorem inOrder_step_iff (h : Numbered s) (horder : InOrder s.journal) (hstep : s.step l = some t) :
    InOrder t.journal ↔ FirstTaken s l := by
  obtain ⟨task, request, rfl, rfl⟩ | ⟨task, entry, before, after, rfl, hheld, hsplit, rfl⟩ :=
    step_cases hstep
  · exact iff_of_true horder trivial
  · have hmem : entry ∈ s.held := by
      rw [hsplit]
      exact List.mem_append_right _ List.mem_cons_self
    have hentry := (h.mem_held horder).mp (List.mem_map_of_mem hmem)
    rw [inOrder_concat, and_iff_right horder]
    -- the number that is next in the journal is held by someone
    constructor
    · intro hseq entry' hheld' other hother
      obtain rfl := Option.some.inj (hheld.symm.trans hheld')
      rw [hseq]
      exact ((h.mem_held horder).mp (List.mem_map_of_mem hother)).1
    · intro hfirst
      have hnext : s.journal.length ∈ s.held.map (·.2.seq) :=
        (h.mem_held horder).mpr ⟨le_rfl, hentry.1.trans_lt hentry.2⟩
      obtain ⟨other, hother, hseq⟩ := List.mem_map.mp hnext
      exact Nat.le_antisymm (hseq ▸ hfirst entry hheld other hother) hentry.1

theorem InOrder.of_step (hstep : s.step l = some t) (h : InOrder t.journal) :
    InOrder s.journal := by
  obtain ⟨task, request, -, rfl⟩ | ⟨task, entry, before, after, -, -, -, rfl⟩ := step_cases hstep
  · exact h
  · exact (inOrder_concat.mp h).1

end Steps

/-! ### Whole runs -/

section Runs

variable [DecidableEq Task] {run : List (JournalStep Task Trigger Payload)}
  {s : Journaling Task Trigger Payload}

/-- **When the journal is in order.** In any interleaving every number is given once; the journal
is in order where the run ends if and only if at every step the task that appends is the first, of
those between the locks, that has taken its number. -/
theorem journal_in_order_iff
    (hrun : (journaling Task Trigger Payload).exec (journaling Task Trigger Payload).init run =
      some s) :
    Numbered s ∧ (InOrder s.journal ↔ (journaling Task Trigger Payload).Along FirstTaken
      (journaling Task Trigger Payload).init run) := by
  have hnumbered : Numbered s :=
    Machine.invariant_of_step (I := Numbered) numbered_init
      (fun _ _ _ h hstep => h.step hstep) hrun
  refine ⟨hnumbered, ?_⟩
  obtain ⟨halong, -, horder⟩ | ⟨hnot, hlost⟩ := Machine.exec_along_or_trap
    (I := fun s => Numbered s ∧ InOrder s.journal) (T := fun s => ¬ InOrder s.journal)
    (fun _ _ _ h hfirst hstep =>
      ⟨h.1.step hstep, (inOrder_step_iff h.1 h.2 hstep).mpr hfirst⟩)
    (fun _ _ _ h hnot hstep horder => hnot ((inOrder_step_iff h.1 h.2 hstep).mp horder))
    (fun _ _ _ hlost hstep horder => hlost (horder.of_step hstep))
    ⟨numbered_init, rfl⟩ hrun
  · exact iff_of_true horder halong
  · exact iff_of_false hlost hnot

end Runs

def plainRequest : WorkflowHostRequest Unit Unit := ⟨0, [], [], (), (), 0⟩

/-- Two tasks that take their numbers at the same time, and append in that order. -/
theorem journal_in_order_of_turns :
    ∃ s, (journaling Nat Unit Unit).exec (journaling Nat Unit Unit).init
      [.take 0 plainRequest, .take 1 plainRequest, .append 0, .append 1] = some s ∧
      InOrder s.journal :=
  ⟨_, rfl, (@journal_in_order_iff _ _ _ _ [.take 0 plainRequest, .take 1 plainRequest,
    .append 0, .append 1] _ rfl).2.mpr (by decide)⟩

/-- Two tasks that append in the other order. -/
theorem journal_out_of_order : ¬ ∀ (run : List (JournalStep Nat Unit Unit)) s,
    (journaling Nat Unit Unit).exec (journaling Nat Unit Unit).init run = some s →
      InOrder s.journal := by
  intro h
  have horder := h [.take 0 plainRequest, .take 1 plainRequest, .append 1, .append 0] _ rfl
  revert horder
  decide

end Goble.Workflows
