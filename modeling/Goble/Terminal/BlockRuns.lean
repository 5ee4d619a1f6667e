import Goble.Lib.Machine
import Goble.Terminal.BlockList

/-!
# Runs of a block list

What holds of a block list after any sequence of operations, hooks in any order included.

* `wellFormed_of_run` — no operation panics, and the list stays well-formed: positions, ids, the
  active block and the conversation cards below it. The ids of the blocks ever created are a
  history variable.
* `reported_of_run` — the command that runs is the active block's, and a command of the agent is
  reported once, when its block is left. This needs the first `Bootstrapped` to come while no
  command runs: it leaves the active block without looking at it (`not_reported_of_run`), where a
  prompt in the same place reports the command and puts it in the background.

Both are invariants of the outline, so what a step can do is split once for each
(`Numbered.step`, `Reported.step`).
-/

namespace Goble.Terminal

/-! ### Well-formedness -/

variable {f : Frame}

namespace Outline

variable {o o' : Outline} {op : BlockOp} {events : List BlockEvent} {created : List Nat}

/-- The active block is the last shell block, and takes output. -/
structure Pointed (o : Outline) : Prop where
  act : ∃ f, o.frames[o.active]? = some f ∧ f.kind.isShell = true ∧
    f.state.acceptsOutput = true
  below : ∀ i f, o.frames[i]? = some f → f.kind.isShell = true → i ≤ o.active

/-- Positions and ids, `created` being the ids of all blocks so far. -/
structure Numbered (o : Outline) (created : List Nat) : Prop where
  indices : o.frames.map Frame.index = List.range o.frames.length
  sublist : (o.frames.map fun f => f.id.val).Sublist created
  increasing : created.Pairwise (· < ·)
  fresh : ∀ id ∈ created, id < o.nextId
  dropped : ∀ n ∈ o.frames.map Frame.droppedBytes, n = 0

theorem Pointed.active_lt (h : o.Pointed) : o.active < o.frames.length := by
  obtain ⟨f, hf, -⟩ := h.act
  exact (List.getElem?_eq_some_iff.mp hf).1

/-- A new shell block at the end becomes the active one. -/
theorem Pointed.push : o.push.Pointed where
  act := ⟨_, List.getElem?_concat_length, rfl, rfl⟩
  below i f hf _ := by
    have hlt := (List.getElem?_eq_some_iff.mp hf).1
    simp only [Outline.push, List.length_append, List.length_singleton] at hlt
    exact Nat.le_of_lt_succ hlt

theorem Pointed.set {g : Frame} {claim : Option PendingClaim} (h : o.Pointed)
    (hact : o.frames[o.active]? = some f) (hkind : g.kind = f.kind)
    (haccept : g.state.acceptsOutput = true) :
    Pointed { o with frames := o.frames.set o.active g, claim } := by
  obtain ⟨f', hf', hshell, -⟩ := h.act
  obtain rfl : f = f' := Option.some.inj (hact.symm.trans hf')
  constructor
  · exact ⟨g, List.getElem?_set_self h.active_lt, hkind ▸ hshell, haccept⟩
  · intro i g' hg' hshell'
    change (o.frames.set o.active g)[i]? = some g' at hg'
    by_cases hi : o.active = i
    · exact hi.ge
    · rw [List.getElem?_set_ne hi] at hg'
      exact h.below i g' hg' hshell'

theorem Pointed.step (hstep : o.Step op o' events) (h : o.Pointed) : o'.Pointed := by
  cases hstep with
  | keep => exact h
  | claim => exact ⟨h.act, h.below⟩
  | start hact => exact h.set hact rfl rfl
  | retire | bootstrap => exact Pointed.push
  | card =>
    constructor
    · obtain ⟨f, hf, hshell, haccept⟩ := h.act
      exact ⟨f, (List.getElem?_append_left h.active_lt).trans hf, hshell, haccept⟩
    · intro i f hf hshell
      obtain hf | ⟨hi, hcard⟩ := getElem?_concat_eq_some.mp hf
      · exact h.below i f hf hshell
      · subst hcard
        cases hshell
  | clear =>
    constructor
    · obtain ⟨f, hf, hshell, haccept⟩ := h.act
      refine ⟨{ f with index := 0 }, ?_, hshell, haccept⟩
      simp [Outline.drain, List.getElem?_mapIdx, hf]
    · intro i f hf hshell
      simp only [Outline.drain, List.getElem?_mapIdx, List.getElem?_drop,
        Option.map_eq_some_iff] at hf
      obtain ⟨g, hg, rfl⟩ := hf
      have hle := h.below _ g hg hshell
      change i ≤ 0
      omega

/-- What is asked of the blocks themselves only reads their positions, ids and dropped bytes. -/
theorem Numbered.set {g : Frame} {active : Nat} {claim : Option PendingClaim}
    (h : o.Numbered created) (hact : o.frames[o.active]? = some f) (hindex : g.index = f.index)
    (hid : g.id = f.id) (hdropped : g.droppedBytes = f.droppedBytes) :
    Numbered { o with frames := o.frames.set o.active g, active, claim } created where
  indices := by
    rw [map_set_eq_map Frame.index hact hindex, List.length_set]
    exact h.indices
  sublist := by
    rw [map_set_eq_map (fun f => f.id.val) hact (congrArg BlockId.val hid)]
    exact h.sublist
  increasing := h.increasing
  fresh := h.fresh
  dropped := by
    rw [map_set_eq_map Frame.droppedBytes hact hdropped]
    exact h.dropped

theorem Numbered.concat {active : Nat} {bootstrapped : Bool} (h : o.Numbered created)
    (hindex : f.index = o.frames.length) (hid : f.id.val = o.nextId)
    (hdropped : f.droppedBytes = 0) :
    Numbered { o with frames := o.frames ++ [f], active, bootstrapped, nextId := o.nextId + 1 }
      (created ++ [o.nextId]) where
  indices := by
    rw [List.map_append, h.indices, List.map_singleton, hindex, List.length_append,
      List.length_singleton, List.range_succ]
  sublist := by
    rw [List.map_append, List.map_singleton, hid]
    exact h.sublist.append_right _
  increasing := by
    refine List.pairwise_append.mpr ⟨h.increasing, List.pairwise_singleton _ _, ?_⟩
    intro id hid next hnext
    rw [List.mem_singleton.mp hnext]
    exact h.fresh id hid
  fresh id hid := by
    obtain hid | hid := List.mem_append.mp hid
    · exact Nat.lt_succ_of_lt (h.fresh id hid)
    · rw [List.mem_singleton.mp hid]
      exact Nat.lt_succ_self _
  dropped n hn := by
    rw [List.map_append, List.map_singleton, hdropped] at hn
    obtain hn | hn := List.mem_append.mp hn
    · exact h.dropped n hn
    · exact List.mem_singleton.mp hn

theorem Numbered.step (hstep : o.Step op o' events) (h : o.Numbered created) :
    o'.Numbered (created ++ (o'.frames.drop o.frames.length).map fun f => f.id.val) := by
  cases hstep with
  | keep =>
    rw [List.drop_length, List.map_nil, List.append_nil]
    exact h
  | claim =>
    rw [List.drop_length, List.map_nil, List.append_nil]
    exact ⟨h.indices, h.sublist, h.increasing, h.fresh, h.dropped⟩
  | start hact =>
    rw [List.drop_eq_nil_of_le (List.length_set).le, List.map_nil, List.append_nil]
    exact h.set hact rfl rfl rfl
  | @retire _ f state _ hact =>
    simp only [Outline.push]
    rw [List.drop_left' List.length_set]
    have hset := @Numbered.set f o created { f with state } o.active o.claim h hact rfl rfl rfl
    exact hset.concat rfl rfl rfl
  | bootstrap =>
    simp only [Outline.push]
    rw [List.drop_left]
    exact h.concat rfl rfl rfl
  | card =>
    rw [List.drop_left]
    exact h.concat rfl rfl rfl
  | clear =>
    have hlen : o.drain.frames.length = (o.frames.drop o.active).length := List.length_mapIdx
    have hids : o.drain.frames.map (fun f => f.id.val) =
        (o.frames.drop o.active).map fun f => f.id.val := map_mapIdx_eq_map _ fun _ _ => rfl
    have hdropped : o.drain.frames.map Frame.droppedBytes =
        (o.frames.drop o.active).map Frame.droppedBytes := map_mapIdx_eq_map _ fun _ _ => rfl
    have hnew : o.drain.frames.drop o.frames.length = [] := by
      refine List.drop_eq_nil_of_le ?_
      rw [hlen, List.length_drop]
      exact Nat.sub_le _ _
    rw [hnew, List.map_nil, List.append_nil]
    refine ⟨?_, ?_, h.increasing, h.fresh, ?_⟩
    · rw [hlen]
      exact map_mapIdx_eq_range fun _ _ => rfl
    · rw [hids]
      exact ((List.drop_sublist _ _).map _).trans h.sublist
    · intro n hn
      rw [hdropped] at hn
      exact h.dropped n (((List.drop_sublist _ _).map _).subset hn)

end Outline

/-- The block list of one session, without the events it returns. -/
def blockMachine {S : Type} (api : ScreenApi S) (size : ScreenSize) :
    Machine (BlockList S) BlockOp where
  init := .new api size
  step l op := (l.perform api op).map Prod.fst

/-- With the ids of all blocks created so far, in the order of their creation. An operation drops
blocks at the front or appends them at the end, never both. -/
def creationMachine {S : Type} (api : ScreenApi S) (size : ScreenSize) :
    Machine (BlockList S × List Nat) BlockOp :=
  (blockMachine api size).withHistory [1] fun l _ l' created =>
    created ++ (l'.blocks.drop l.blocks.length).map fun block => block.id.val

structure BlockList.WellFormed {S : Type} (l : BlockList S) : Prop where
  active_lt : l.active < l.blocks.length
  index_eq : ∀ i (block : Block S), l.blocks[i]? = some block → block.index = i
  ids_lt : l.blocks.Pairwise fun block next => block.id.val < next.id.val
  active_shell : ∃ block, l.activeBlock = some block ∧ block.kind.isShell = true ∧
    block.state.acceptsOutput = true
  active_last : ∀ i (block : Block S), l.blocks[i]? = some block → block.kind.isShell = true →
    i ≤ l.active
  dropped_eq : l.droppedBytes = 0

namespace BlockList

variable {S : Type} {api : ScreenApi S} {size : ScreenSize} {l l' : BlockList S}
  {created : List Nat}

theorem outline_getElem? {i : Nat} {block : Block S} (h : l.blocks[i]? = some block) :
    l.outline.frames[i]? = some block.frame := by
  rw [outline_frames, List.getElem?_map, h]
  rfl

theorem exists_activeBlock (h : l.outline.Pointed) :
    ∃ block, l.activeBlock = some block ∧ block.kind.isShell = true ∧
      block.state.acceptsOutput = true := by
  obtain ⟨f, hf, hshell, haccept⟩ := h.act
  rw [outline_frames, List.getElem?_map, Option.map_eq_some_iff] at hf
  obtain ⟨block, hblock, rfl⟩ := hf
  exact ⟨block, hblock, hshell, haccept⟩

theorem wellFormed_of_outline (hpoint : l.outline.Pointed) (hnum : l.outline.Numbered created) :
    l.WellFormed where
  active_lt := by
    have hlt := hpoint.active_lt
    rwa [outline_frames, List.length_map] at hlt
  index_eq i block h := by
    have hindex := congrArg (·[i]?) hnum.indices
    have hlt := (List.getElem?_eq_some_iff.mp (outline_getElem? h)).1
    simp only [List.getElem?_map, outline_getElem? h, List.getElem?_range hlt] at hindex
    exact Option.some.inj hindex
  ids_lt := by
    have hids := hnum.increasing.sublist hnum.sublist
    rw [outline_frames, List.map_map, List.pairwise_map] at hids
    exact hids
  active_shell := exists_activeBlock hpoint
  active_last i block h hshell := hpoint.below i _ (outline_getElem? h) hshell
  dropped_eq := by
    have hdropped : l.outline.frames.map Frame.droppedBytes = l.blocks.map Block.droppedBytes := by
      rw [outline_frames, List.map_map]
      rfl
    rw [droppedBytes, ← hdropped]
    exact List.sum_eq_zero_iff_forall_eq_nat.mpr hnum.dropped

/-- What every reachable pair of a list and the created ids meets. -/
def InOrder (p : BlockList S × List Nat) : Prop :=
  p.1.outline.Pointed ∧ p.1.outline.Numbered p.2

theorem inOrder_new : InOrder ((creationMachine api size).init) := by
  refine ⟨⟨⟨_, rfl, rfl, rfl⟩, ?_⟩, ⟨rfl, List.Sublist.refl _, ?_, ?_, ?_⟩⟩
  · intro i f hf _
    exact Nat.le_of_lt_succ (List.getElem?_eq_some_iff.mp hf).1
  · exact List.pairwise_singleton _ _
  · intro id hid
    rw [List.mem_singleton.mp hid]
    exact Nat.one_lt_two
  · intro n hn
    exact List.mem_singleton.mp hn

theorem inOrder_step (p : BlockList S × List Nat) (op : BlockOp) (h : InOrder p) :
    ∃ p', (creationMachine api size).step p op = some p' ∧ InOrder p' := by
  obtain ⟨hpoint, hnum⟩ := h
  obtain ⟨block, hact, hshell, haccept⟩ := exists_activeBlock hpoint
  obtain ⟨l', events, hperform, hstep⟩ := step_of_perform api hact hshell haccept op
  have hmachine : (blockMachine api size).step p.1 op = some l' := by
    exact congrArg (Option.map Prod.fst) hperform
  refine ⟨(l', p.2 ++ (l'.blocks.drop p.1.blocks.length).map fun block => block.id.val),
    Machine.step_withHistory_eq_some.mpr ⟨hmachine, rfl⟩, hpoint.step hstep, ?_⟩
  have hcreated := hnum.step hstep
  rw [outline_frames, outline_frames, List.length_map, ← List.map_drop, List.map_map] at hcreated
  exact hcreated

end BlockList

/-- No sequence of operations panics. Whatever the hooks and their order, the list stays in order,
and the ids of its blocks are in the order of creation and never given twice. -/
theorem wellFormed_of_run {S : Type} (api : ScreenApi S) (size : ScreenSize)
    (ops : List BlockOp) :
    ∃ l created, (creationMachine api size).exec (creationMachine api size).init ops =
        some (l, created) ∧
      l.WellFormed ∧ created.Pairwise (· < ·) ∧
      (l.blocks.map fun block => block.id.val).Sublist created := by
  obtain ⟨⟨l, created⟩, hrun, hpoint, hnum⟩ :=
    Machine.exists_exec BlockList.inOrder_step (@BlockList.inOrder_new S api size) ops
  refine ⟨l, created, hrun, BlockList.wellFormed_of_outline hpoint hnum, hnum.increasing, ?_⟩
  have hids := hnum.sublist
  rw [BlockList.outline_frames, List.map_map] at hids
  exact hids

/-! ### Reports -/

namespace Outline

variable {o o' : Outline} {op : BlockOp} {events : List BlockEvent} {created : List Nat}
  {started reported : List BlockId}

/-- The blocks whose command runs for the agent. -/
def running (o : Outline) : List BlockId :=
  (o.frames.filter fun f => f.state = .executing ∧ f.owner ≠ .user).map Frame.id

/-- What is known of the ids that ran for the agent and of those that were reported. -/
structure Watching (o : Outline) (started reported : List BlockId) : Prop where
  running_active : ∀ (i : Nat) (f : Frame), o.frames[i]? = some f → f.state = .executing →
    i = o.active
  /-- The block a command of the agent is still running in. -/
  started_active : ∀ f : Frame, o.frames[o.active]? = some f → f.id ∈ started →
    f.state = .executing ∧ f.report = [f.id]
  reported_active : ∀ f : Frame, o.frames[o.active]? = some f → f.id ∉ reported
  /-- The blocks that were left. -/
  reported_left : ∀ id ∈ started, (∀ f : Frame, o.frames[o.active]? = some f → f.id ≠ id) →
    reported.count id = 1
  /-- A claim is waiting only for a block that has not started. -/
  claim_active : ∀ (f : Frame) (claim : PendingClaim), o.frames[o.active]? = some f →
    o.claim = some claim → claim.block = f.id → f.state = .beforeExecution
  claim_lt : ∀ claim, o.claim = some claim → claim.block.val < o.nextId
  started_lt : ∀ id ∈ started, id.val < o.nextId
  reported_lt : ∀ id ∈ reported, id.val < o.nextId

theorem mem_report {id : BlockId} (h : id ∈ f.report) : id = f.id := by
  rw [Frame.report] at h
  split at h
  · exact List.mem_singleton.mp h
  · exact absurd h List.not_mem_nil

theorem report_eq (h : f.owner ≠ .user) : f.report = [f.id] := by
  rw [Frame.report]
  split
  · rfl
  · next howner => exact absurd howner h

theorem mem_running {id : BlockId} :
    id ∈ o.running ↔ ∃ f ∈ o.frames, f.state = .executing ∧ f.owner ≠ .user ∧ f.id = id := by
  simp [running, and_assoc]

theorem Numbered.id_lt (h : o.Numbered created) (hf : f ∈ o.frames) :
    f.id.val < o.nextId :=
  h.fresh _ (h.sublist.subset (List.mem_map_of_mem hf))

/-- The commands that run now are the active block's. -/
theorem Watching.extend (h : o.Watching started reported) (hnum : o.Numbered created) :
    o.Watching (started ++ o.running) reported := by
  have hrunning : ∀ id ∈ o.running, ∃ f, o.frames[o.active]? = some f ∧ f.id = id ∧
      f.state = .executing ∧ f.report = [f.id] := by
    intro id hid
    obtain ⟨f, hf, hstate, howner, hid⟩ := mem_running.mp hid
    obtain ⟨i, hi⟩ := List.mem_iff_getElem?.mp hf
    obtain rfl := h.running_active i f hi hstate
    exact ⟨f, hi, hid, hstate, report_eq howner⟩
  refine { h with started_active := ?_, reported_left := ?_, started_lt := ?_ }
  · intro f hact hid
    obtain hid | hid := List.mem_append.mp hid
    · exact h.started_active f hact hid
    · obtain ⟨f', hact', -, hstate, hreport⟩ := hrunning _ hid
      obtain rfl : f = f' := Option.some.inj (hact.symm.trans hact')
      exact ⟨hstate, hreport⟩
  · intro id hid hleft
    obtain hid | hid := List.mem_append.mp hid
    · exact h.reported_left id hid hleft
    · obtain ⟨f, hact, hf, -⟩ := hrunning id hid
      exact absurd hf (hleft f hact)
  · intro id hid
    obtain hid | hid := List.mem_append.mp hid
    · exact h.started_lt id hid
    · obtain ⟨f, hact, rfl, -⟩ := hrunning id hid
      exact hnum.id_lt (List.mem_of_getElem? hact)

/-- A block is left: what it ran for the agent has been reported, and nothing runs. -/
theorem Watching.push (hquiet : ∀ f ∈ o.frames, f.state ≠ .executing)
    (hleft : ∀ id ∈ started, reported.count id = 1)
    (hclaim : ∀ claim, o.claim = some claim → claim.block.val < o.nextId)
    (hstarted : ∀ id ∈ started, id.val < o.nextId)
    (hreported : ∀ id ∈ reported, id.val < o.nextId) :
    o.push.Watching started reported := by
  -- the active block is the new one, and its id is new everywhere
  have hact : ∀ f, o.push.frames[o.push.active]? = some f →
      f = .fresh o.nextId o.frames.length := by
    intro f hf
    exact (Option.some.inj (List.getElem?_concat_length.symm.trans hf)).symm
  refine ⟨?_, ?_, ?_, ?_, ?_, ?_, ?_, ?_⟩
  · intro i f hf hstate
    obtain hf | ⟨-, rfl⟩ := getElem?_concat_eq_some.mp hf
    · exact absurd hstate (hquiet f (List.mem_of_getElem? hf))
    · cases hstate
  · intro f hf hid
    obtain rfl := hact f hf
    exact absurd (hstarted _ hid) (Nat.lt_irrefl _)
  · intro f hf hid
    obtain rfl := hact f hf
    exact absurd (hreported _ hid) (Nat.lt_irrefl _)
  · intro id hid _
    exact hleft id hid
  · intro f claim hf _ _
    rw [hact f hf]
    rfl
  · exact fun claim hc => Nat.lt_succ_of_lt (hclaim claim hc)
  · exact fun id hid => Nat.lt_succ_of_lt (hstarted id hid)
  · exact fun id hid => Nat.lt_succ_of_lt (hreported id hid)

/-- The first `Bootstrapped` comes while the active block runs no command. -/
def BootstrapsIdle (o : Outline) (op : BlockOp) : Prop :=
  ∀ value, op = .apply (.bootstrapped value) → o.bootstrapped = false →
    ∀ f, o.frames[o.active]? = some f → f.state ≠ .executing

theorem Watching.start (h : o.Watching started reported) (hact : o.frames[o.active]? = some f) :
    Watching { o with frames := o.frames.set o.active (f.start o.claim), claim := none }
      started reported := by
  have hlt := (List.getElem?_eq_some_iff.mp hact).1
  have hact' : ∀ g, (o.frames.set o.active (f.start o.claim))[o.active]? = some g →
      g = f.start o.claim := by
    intro g hg
    exact (Option.some.inj ((List.getElem?_set_self hlt).symm.trans hg)).symm
  refine ⟨?_, ?_, ?_, ?_, ?_, ?_, h.started_lt, h.reported_lt⟩
  · intro i g hg hstate
    by_cases hi : o.active = i
    · exact hi.symm
    · change (o.frames.set o.active _)[i]? = some g at hg
      rw [List.getElem?_set_ne hi] at hg
      exact h.running_active i g hg hstate
  · intro g hg hid
    obtain rfl := hact' g hg
    obtain ⟨hstate, hreport⟩ := h.started_active f hact hid
    refine ⟨rfl, ?_⟩
    -- a command that has started cannot be claimed any more, so its owner stays
    have howner : (f.start o.claim).owner = f.owner := by
      simp only [Frame.start]
      split
      · next claim hclaim =>
        refine if_neg fun haimed => ?_
        have hbefore := h.claim_active f claim hact hclaim haimed
        rw [hstate] at hbefore
        cases hbefore
      · rfl
    change Frame.report _ = [f.id]
    rw [← hreport, Frame.report, Frame.report, howner]
    rfl
  · intro g hg
    obtain rfl := hact' g hg
    exact h.reported_active f hact
  · intro id hid hleft
    refine h.reported_left id hid fun g hg => ?_
    obtain rfl : f = g := Option.some.inj (hact.symm.trans hg)
    exact hleft (f.start o.claim) (List.getElem?_set_self hlt)
  · intro g claim _ hclaim
    cases hclaim
  · intro claim hclaim
    cases hclaim

theorem Watching.card {conversationId label : String} (h : o.Watching started reported)
    (hpoint : o.Pointed) :
    Watching { o with
      frames := o.frames ++ [.card o.nextId o.frames.length conversationId label]
      nextId := o.nextId + 1 } started reported := by
  have hact : ∀ g, (o.frames ++ [.card o.nextId o.frames.length conversationId label])[o.active]? =
      some g ↔ o.frames[o.active]? = some g := by
    intro g
    rw [List.getElem?_append_left hpoint.active_lt]
  refine ⟨?_, ?_, ?_, ?_, ?_, ?_, ?_, ?_⟩
  · intro i g hg hstate
    obtain hg | ⟨-, rfl⟩ := getElem?_concat_eq_some.mp hg
    · exact h.running_active i g hg hstate
    · cases hstate
  · exact fun g hg => h.started_active g ((hact g).mp hg)
  · exact fun g hg => h.reported_active g ((hact g).mp hg)
  · exact fun id hid hleft => h.reported_left id hid fun g hg => hleft g ((hact g).mpr hg)
  · exact fun g claim hg => h.claim_active g claim ((hact g).mp hg)
  · exact fun claim hclaim => Nat.lt_succ_of_lt (h.claim_lt claim hclaim)
  · exact fun id hid => Nat.lt_succ_of_lt (h.started_lt id hid)
  · exact fun id hid => Nat.lt_succ_of_lt (h.reported_lt id hid)

/-- The blocks before the active one were left already. -/
theorem Watching.drain (h : o.Watching started reported) : o.drain.Watching started reported := by
  have hget : ∀ i g, o.drain.frames[i]? = some g →
      ∃ f, o.frames[o.active + i]? = some f ∧ g = { f with index := i } := by
    intro i g hg
    simp only [Outline.drain, List.getElem?_mapIdx, List.getElem?_drop,
      Option.map_eq_some_iff] at hg
    obtain ⟨f, hf, rfl⟩ := hg
    exact ⟨f, hf, rfl⟩
  refine ⟨?_, ?_, ?_, ?_, ?_, h.claim_lt, h.started_lt, h.reported_lt⟩
  · intro i g hg hstate
    obtain ⟨f, hf, rfl⟩ := hget i g hg
    have hi := h.running_active _ f hf hstate
    change i = 0
    omega
  · intro g hg hid
    obtain ⟨f, hf, rfl⟩ := hget 0 g hg
    exact h.started_active f hf hid
  · intro g hg
    obtain ⟨f, hf, rfl⟩ := hget 0 g hg
    exact h.reported_active f hf
  · intro id hid hleft
    refine h.reported_left id hid fun f hf => ?_
    refine hleft { f with index := 0 } ?_
    simp [Outline.drain, List.getElem?_mapIdx, hf]
  · intro g claim hg
    obtain ⟨f, hf, rfl⟩ := hget 0 g hg
    exact h.claim_active f claim hf

theorem Watching.retire {state : BlockState} (h : o.Watching started reported)
    (hnum : o.Numbered created) (hact : o.frames[o.active]? = some f)
    (hstate : state ≠ .executing) :
    ({ o with frames := o.frames.set o.active { f with state } }.push).Watching started
      (reported ++ f.report) := by
  refine Watching.push ?_ ?_ h.claim_lt h.started_lt ?_
  · intro g hg hrun
    obtain ⟨i, hi⟩ := List.mem_iff_getElem?.mp hg
    by_cases hia : o.active = i
    · subst hia
      rw [List.getElem?_set_self (List.getElem?_eq_some_iff.mp hact).1] at hi
      obtain rfl := Option.some.inj hi
      exact hstate hrun
    · rw [List.getElem?_set_ne hia] at hi
      exact hia (h.running_active i g hi hrun).symm
  · intro id hid
    rw [List.count_append]
    by_cases heq : f.id = id
    · -- the command that was running: not reported before, and now once
      subst heq
      rw [List.count_eq_zero.mpr (h.reported_active f hact), (h.started_active f hact hid).2,
        List.count_singleton_self]
    · have hleft := h.reported_left id hid fun g hg => by
        obtain rfl : f = g := Option.some.inj (hact.symm.trans hg)
        exact heq
      rw [hleft, List.count_eq_zero.mpr fun hmem => heq (mem_report hmem).symm]
  · intro id hid
    obtain hid | hid := List.mem_append.mp hid
    · exact h.reported_lt id hid
    · rw [mem_report hid]
      exact hnum.id_lt (List.mem_of_getElem? hact)

theorem Watching.step (hstep : o.Step op o' events) (hidle : o.BootstrapsIdle op)
    (h : o.Watching started reported) (hpoint : o.Pointed) (hnum : o.Numbered created) :
    o'.Watching started (reported ++ reports events) := by
  cases hstep with
  | keep hquiet =>
    rw [hquiet, List.append_nil]
    exact h
  | claim hact hid hstate =>
    change Watching _ started (reported ++ [])
    rw [List.append_nil]
    refine { h with claim_active := ?_, claim_lt := ?_ }
    · intro g claim hg _ _
      obtain rfl := Option.some.inj (hact.symm.trans hg)
      exact hstate
    · intro claim hclaim
      obtain rfl := Option.some.inj hclaim
      rw [← hid]
      exact hnum.id_lt (List.mem_of_getElem? hact)
  | start hact =>
    change Watching _ started (reported ++ [])
    rw [List.append_nil]
    exact h.start hact
  | retire hact hstate hreport =>
    rw [hreport]
    exact h.retire hnum hact hstate
  | bootstrap hfirst =>
    change Watching _ started (reported ++ [])
    rw [List.append_nil]
    have hquiet := hidle _ rfl hfirst
    refine Watching.push ?_ ?_ h.claim_lt h.started_lt h.reported_lt
    · intro f hf hrun
      obtain ⟨i, hi⟩ := List.mem_iff_getElem?.mp hf
      obtain rfl := h.running_active i f hi hrun
      exact hquiet f hi hrun
    · intro id hid
      refine h.reported_left id hid fun f hf hfid => ?_
      subst hfid
      exact hquiet f hf (h.started_active f hf hid).1
  | card =>
    change Watching _ started (reported ++ [])
    rw [List.append_nil]
    exact h.card hpoint
  | clear =>
    change Watching _ started (reported ++ [])
    rw [List.append_nil]
    exact h.drain

end Outline

/-- A list, with the blocks that were seen running a command of the agent, and those that tool
results were returned for. -/
structure Watched (S : Type) where
  list : BlockList S
  started : List BlockId
  reported : List BlockId

/-- The blocks whose command runs for the agent. -/
def BlockList.running {S : Type} (l : BlockList S) : List BlockId :=
  (l.blocks.filter fun block => block.state = .executing ∧ block.owner ≠ .user).map Block.id

def reportMachine {S : Type} (api : ScreenApi S) (size : ScreenSize) :
    Machine (Watched S) BlockOp where
  init := ⟨.new api size, [], []⟩
  step w op := (w.list.perform api op).map fun r =>
    ⟨r.1, w.started ++ r.1.running, w.reported ++ reports r.2⟩

/-- One command runs at a time, and those of the agent are reported once: at the latest when
their block is no longer the active one. -/
structure Watched.ReportsOnce {S : Type} (w : Watched S) : Prop where
  running_active : ∀ i (block : Block S), w.list.blocks[i]? = some block →
    block.state = .executing → i = w.list.active
  count_le : ∀ id ∈ w.started, w.reported.count id ≤ 1
  count_left : ∀ id ∈ w.started, (∀ block, w.list.activeBlock = some block → block.id ≠ id) →
    w.reported.count id = 1

/-- The first `Bootstrapped` is applied only while the active block runs no command. -/
def BlockList.BootstrapsIdle {S : Type} (l : BlockList S) (op : BlockOp) : Prop :=
  ∀ value, op = .apply (.bootstrapped value) → l.bootstrapped = false →
    ∀ block, l.activeBlock = some block → block.state ≠ .executing

namespace Watched

variable {S : Type} {api : ScreenApi S} {size : ScreenSize} {w w' : Watched S} {op : BlockOp}

/-- The invariant of the runs. -/
def Sound (w : Watched S) : Prop :=
  w.list.outline.Pointed ∧ (∃ created, w.list.outline.Numbered created) ∧
    w.list.outline.Watching w.started w.reported

theorem outline_running (l : BlockList S) : l.outline.running = l.running := by
  simp only [Outline.running, BlockList.running, BlockList.outline_frames, List.filter_map,
    List.map_map]
  rfl

theorem reportsOnce_of_sound (h : w.Sound) : w.ReportsOnce := by
  obtain ⟨hpoint, -, hwatch⟩ := h
  have hleft : ∀ id ∈ w.started, (∀ block, w.list.activeBlock = some block → block.id ≠ id) →
      w.reported.count id = 1 := by
    intro id hid hne
    refine hwatch.reported_left id hid fun f hf => ?_
    rw [BlockList.outline_frames, List.getElem?_map, Option.map_eq_some_iff] at hf
    obtain ⟨block, hblock, rfl⟩ := hf
    exact hne block hblock
  refine ⟨?_, ?_, hleft⟩
  · intro i block hblock hstate
    exact hwatch.running_active i _ (BlockList.outline_getElem? hblock) hstate
  · intro id hid
    obtain ⟨block, hact, -⟩ := BlockList.exists_activeBlock hpoint
    by_cases heq : block.id = id
    · -- the active block has not been reported
      subst heq
      have hnone : block.id ∉ w.reported :=
        hwatch.reported_active _ (BlockList.outline_act hact)
      rw [List.count_eq_zero.mpr hnone]
      exact Nat.zero_le 1
    · refine (hleft id hid fun block' hact' => ?_).le
      obtain rfl : block = block' := Option.some.inj (hact.symm.trans hact')
      exact heq

theorem sound_init : (reportMachine api size).init.Sound := by
  obtain ⟨hpoint, hnum⟩ := @BlockList.inOrder_new S api size
  refine ⟨hpoint, ⟨_, hnum⟩, ⟨?_, ?_, ?_, ?_, ?_, ?_, ?_, ?_⟩⟩
  · intro i f hf _
    exact Nat.lt_one_iff.mp (List.getElem?_eq_some_iff.mp hf).1
  · exact fun _ _ hid => absurd hid List.not_mem_nil
  · exact fun _ _ hid => absurd hid List.not_mem_nil
  · exact fun _ hid => absurd hid List.not_mem_nil
  · intro _ _ _ hclaim
    cases hclaim
  · intro _ hclaim
    cases hclaim
  · exact fun _ hid => absurd hid List.not_mem_nil
  · exact fun _ hid => absurd hid List.not_mem_nil

theorem sound_step (w : Watched S) (op : BlockOp) (h : w.Sound)
    (hidle : w.list.BootstrapsIdle op) :
    ∃ w', (reportMachine api size).step w op = some w' ∧ w'.Sound := by
  obtain ⟨hpoint, ⟨created, hnum⟩, hwatch⟩ := h
  obtain ⟨block, hact, hshell, haccept⟩ := BlockList.exists_activeBlock hpoint
  obtain ⟨l', events, hperform, hstep⟩ := BlockList.step_of_perform api hact hshell haccept op
  have hidle' : w.list.outline.BootstrapsIdle op := by
    intro value hop hfirst f hf
    obtain rfl : block.frame = f :=
      Option.some.inj ((BlockList.outline_act hact).symm.trans hf)
    exact hidle value hop hfirst block hact
  refine ⟨⟨l', w.started ++ l'.running, w.reported ++ reports events⟩, ?_, hpoint.step hstep,
    ⟨_, hnum.step hstep⟩, ?_⟩
  · exact congrArg (Option.map _) hperform
  · rw [← outline_running]
    exact (hwatch.step hstep hidle' hpoint hnum).extend (hnum.step hstep)

/-- A first `Bootstrapped` while a command runs leaves it running in a block that is not the
active one. -/
theorem not_reportsOnce_of_bootstrapped (w : Watched S) (op : BlockOp)
    (hbusy : ¬ w.list.BootstrapsIdle op) :
    ∃ w', (reportMachine api size).step w op = some w' ∧ ¬ w'.ReportsOnce := by
  simp only [BlockList.BootstrapsIdle, not_forall, not_not] at hbusy
  obtain ⟨value, rfl, hfirst, block, hact, hstate⟩ := hbusy
  have hlt : w.list.active < w.list.blocks.length := (List.getElem?_eq_some_iff.mp hact).1
  have hperform : w.list.perform api (.apply (.bootstrapped value)) =
      some ({ w.list with bootstrapped := true }.pushBlock api, [.bootstrapped]) := by
    simp [BlockList.perform, BlockList.apply, BlockList.onBootstrapped, hfirst]
  simp only [reportMachine, hperform, Option.map_some]
  refine ⟨_, rfl, fun h => ?_⟩
  have hget : (w.list.blocks ++ [Block.new api ⟨w.list.nextId⟩ w.list.blocks.length w.list.size
      .beforeExecution])[w.list.active]? = some block := by
    rw [List.getElem?_append_left hlt]
    exact hact
  have hactive := h.running_active w.list.active block hget hstate
  simp only [BlockList.pushBlock, List.length_append, List.length_singleton,
    Nat.add_sub_cancel] at hactive
  exact hlt.ne hactive

end Watched

/-- Exactly when the first `Bootstrapped` never comes while a command runs, one command runs at a
time all along, and each command of the agent is reported once. -/
theorem reported_of_run {S : Type} (api : ScreenApi S) (size : ScreenSize)
    (ops : List BlockOp) :
    (∀ ks, ks <+: ops → ∃ w, (reportMachine api size).exec (reportMachine api size).init ks =
        some w ∧ w.ReportsOnce) ↔
      (reportMachine api size).Along (fun w op => w.list.BootstrapsIdle op)
        (reportMachine api size).init ops :=
  Machine.along_iff_of_step (fun _ => Watched.reportsOnce_of_sound) Watched.sound_step
    (fun w op _ => Watched.not_reportsOnce_of_bootstrapped w op) Watched.sound_init ops

def byteScreen : ScreenApi (List UInt8) where
  new _ := []
  feed screen bytes := screen ++ bytes
  freeze screen := screen
  reset _ := []
  resize screen _ := screen
  text screen := String.ofList (screen.map fun b => Char.ofNat b.toNat)
  outputText screen := String.ofList (screen.map fun b => Char.ofNat b.toNat)

/-- The second block is claimed by the agent and its command starts; the first `Bootstrapped`
moves on without a report, and the block keeps running behind the active one. -/
theorem not_reported_of_run :
    ∃ w, (reportMachine byteScreen ⟨80, 24⟩).exec (reportMachine byteScreen ⟨80, 24⟩).init
        [.apply (.commandFinished { exitCode := 0 }),
          .claimNextPreExec ⟨2⟩ (.agent "conversation" "call"),
          .apply (.preexec { command := some "make" }), .apply (.bootstrapped {})] = some w ∧
      ⟨2⟩ ∈ w.started ∧ w.reported.count ⟨2⟩ = 0 ∧
      (∀ block, w.list.activeBlock = some block → block.id ≠ ⟨2⟩) ∧ ¬ w.ReportsOnce := by
  obtain ⟨w, hrun, hfacts⟩ := Option.map_eq_some_iff.mp
    (show ((reportMachine byteScreen ⟨80, 24⟩).exec (reportMachine byteScreen ⟨80, 24⟩).init
        [.apply (.commandFinished { exitCode := 0 }),
          .claimNextPreExec ⟨2⟩ (.agent "conversation" "call"),
          .apply (.preexec { command := some "make" }), .apply (.bootstrapped {})]).map
        (fun w => (w.started, w.reported, w.list.activeBlock.map Block.id)) =
      some ([⟨2⟩, ⟨2⟩], [], some ⟨3⟩) by decide +kernel)
  obtain ⟨hstarted, hreported, hactive⟩ :
      w.started = [⟨2⟩, ⟨2⟩] ∧ w.reported = [] ∧ w.list.activeBlock.map Block.id = some ⟨3⟩ := by
    simpa only [Prod.mk.injEq] using hfacts
  have hmem : (⟨2⟩ : BlockId) ∈ w.started := hstarted ▸ List.mem_cons_self
  have hcount : w.reported.count ⟨2⟩ = 0 := by rw [hreported, List.count_nil]
  have hleft : ∀ block, w.list.activeBlock = some block → block.id ≠ ⟨2⟩ := by
    intro block hact heq
    rw [hact, Option.map_some, heq] at hactive
    cases hactive
  refine ⟨w, hrun, hmem, hcount, hleft, fun h => ?_⟩
  have hone := h.count_left ⟨2⟩ hmem hleft
  omega

end Goble.Terminal
