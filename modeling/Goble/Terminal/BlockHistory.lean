import Goble.Terminal.BlockRuns

/-!
# What becomes of a block

Operations address blocks by position, and a `Clear` shifts the positions. `Keeps` says of one
operation that the blocks that are not active stay as they are where they are, `Shifts` that they
do so `k` positions further to the front.

* `frozen_of_run` — a block that is not active keeps all it holds but its position, until a
  `Clear` removes it, and the blocks stay in order.
* `gaps_of_run` — the gaps are blocks of the list just as long as no `Clear` removes one of
  them: it records a gap and forgets none (`not_gaps_of_run`).
-/

namespace Goble.Terminal

namespace BlockList

variable {S : Type} {api : ScreenApi S} {size : ScreenSize} {l l' l'' : BlockList S}

def Keeps (l l' : BlockList S) : Prop :=
  ∀ i (block : Block S), l.blocks[i]? = some block → i ≠ l.active →
    i ≠ l'.active ∧ l'.blocks[i]? = some block

/-- The blocks that are not active stay as they are, `k` positions further to the front. -/
def Shifts (k : Nat) (l l' : BlockList S) : Prop :=
  ∀ i (block : Block S), l.blocks[k + i]? = some block → k + i ≠ l.active →
    i ≠ l'.active ∧ l'.blocks[i]? = some { block with index := i }

theorem Keeps.of_eq (hblocks : l'.blocks = l.blocks) (hactive : l'.active = l.active) :
    l.Keeps l' := by
  intro i block hblock hne
  rw [hblocks, hactive]
  exact ⟨hne, hblock⟩

theorem Keeps.trans (h : l.Keeps l') (h' : l'.Keeps l'') : l.Keeps l'' := by
  intro i block hblock hne
  obtain ⟨hne', hblock'⟩ := h i block hblock hne
  exact h' i block hblock' hne'

theorem Shifts.trans {k k' : Nat} (h : Shifts k l l') (h' : Shifts k' l' l'') :
    Shifts (k + k') l l'' := by
  intro i block hblock hne
  rw [Nat.add_assoc] at hblock hne
  obtain ⟨hne', hblock'⟩ := h _ block hblock hne
  exact h' i { block with index := k' + i } hblock' hne'

theorem Keeps.shifts (h : l.Keeps l') (hindex : ∀ i (block : Block S),
    l.blocks[i]? = some block → block.index = i) : Shifts 0 l l' := by
  intro i block hblock hne
  rw [Nat.zero_add] at hblock hne
  obtain ⟨hne', hblock'⟩ := h i block hblock hne
  obtain rfl := hindex i block hblock
  exact ⟨hne', hblock'⟩

/-! ### One operation -/

theorem keeps_modifyActive {f : Block S → Block S} {block : Block S}
    (h : l.modifyActive f = some (l', block)) : l.Keeps l' := by
  unfold modifyActive at h
  split at h
  · obtain ⟨rfl, -⟩ := Prod.mk.inj (Option.some.inj h)
    intro i block hblock hne
    exact ⟨hne, (List.getElem?_set_ne (Ne.symm hne)).trans hblock⟩
  · cases h

theorem keeps_pushBlock : l.Keeps (l.pushBlock api) := by
  intro i block hblock _
  have hlt := (List.getElem?_eq_some_iff.mp hblock).1
  refine ⟨?_, (List.getElem?_append_left hlt).trans hblock⟩
  simp only [pushBlock, List.length_append, List.length_singleton, Nat.add_sub_cancel]
  exact Nat.ne_of_lt hlt

theorem keeps_promote {events : List BlockEvent} (h : l.promote api = some (l', events)) :
    l.Keeps l' := by
  obtain ⟨active, -, h⟩ := Option.bind_eq_some_iff.mp h
  split at h
  · obtain ⟨⟨l₁, promoted⟩, hmodify, h⟩ := Option.bind_eq_some_iff.mp h
    obtain ⟨rfl, -⟩ := Prod.mk.inj (Option.some.inj h)
    exact (keeps_modifyActive hmodify).trans keeps_pushBlock
  · obtain ⟨rfl, -⟩ := Prod.mk.inj (Option.some.inj h)
    exact .of_eq rfl rfl

theorem keeps_onPrecmd {value : PrecmdValue} {events : List BlockEvent}
    (h : l.onPrecmd api value = some (l', events)) : l.Keeps l' := by
  obtain ⟨⟨l₁, results⟩, hpromote, h⟩ := Option.bind_eq_some_iff.mp h
  obtain ⟨⟨l₂, active⟩, hmodify, h⟩ := Option.bind_eq_some_iff.mp h
  obtain ⟨rfl, -⟩ := Prod.mk.inj (Option.some.inj h)
  have hsession : l.Keeps { l with
      session := { l.session with cwd := value.pwd.or l.session.cwd } } := .of_eq rfl rfl
  exact hsession.trans ((keeps_promote hpromote).trans (keeps_modifyActive hmodify))

theorem keeps_onPreexec {value : PreexecValue} {events : List BlockEvent}
    (h : l.onPreexec value = some (l', events)) : l.Keeps l' := by
  obtain ⟨⟨l₁, active⟩, hmodify, h⟩ := Option.bind_eq_some_iff.mp h
  obtain ⟨rfl, -⟩ := Prod.mk.inj (Option.some.inj h)
  have hclaim : l.Keeps { l with pendingClaim := none } := .of_eq rfl rfl
  exact hclaim.trans (keeps_modifyActive hmodify)

theorem keeps_onCommandFinished {exitCode : Int32} {events : List BlockEvent}
    (h : l.onCommandFinished api exitCode = some (l', events)) : l.Keeps l' := by
  obtain ⟨⟨l₁, finished⟩, hmodify, h⟩ := Option.bind_eq_some_iff.mp h
  obtain ⟨rfl, -⟩ := Prod.mk.inj (Option.some.inj h)
  exact (keeps_modifyActive hmodify).trans keeps_pushBlock

theorem keeps_onBootstrapped : l.Keeps (l.onBootstrapped api).1 := by
  unfold onBootstrapped
  split
  · exact .of_eq rfl rfl
  · have hflag : l.Keeps { l with bootstrapped := true } := .of_eq rfl rfl
    exact hflag.trans keeps_pushBlock

theorem keeps_feed {bytes : List UInt8} (h : l.feed api bytes = some l') : l.Keeps l' := by
  unfold feed at h
  split at h
  · obtain rfl := Option.some.inj h
    exact .of_eq rfl rfl
  · obtain ⟨⟨l₁, active⟩, hmodify, rfl⟩ := Option.map_eq_some_iff.mp h
    exact keeps_modifyActive hmodify

theorem keeps_claimNextPreExec {id : BlockId} {owner : BlockOwner} {claimed : Bool}
    (h : l.claimNextPreExec id owner = some (l', claimed)) : l.Keeps l' := by
  unfold claimNextPreExec at h
  split at h
  · split at h
    · obtain ⟨rfl, -⟩ := Prod.mk.inj (Option.some.inj h)
      exact .of_eq rfl rfl
    · obtain ⟨rfl, -⟩ := Prod.mk.inj (Option.some.inj h)
      exact .of_eq rfl rfl
  · cases h

theorem keeps_pushAgentViewBlock {conversationId label : String} :
    l.Keeps (l.pushAgentViewBlock api conversationId label).1 := by
  intro i block hblock hne
  have hlt := (List.getElem?_eq_some_iff.mp hblock).1
  exact ⟨hne, (List.getElem?_append_left hlt).trans hblock⟩

/-- What a `Clear` does, the active block's own change apart. -/
theorem shifts_drain : Shifts l.active l l.drain := by
  intro i block hblock hne
  refine ⟨fun hi => hne (by rw [hi]; rfl), ?_⟩
  simp [drain, List.getElem?_mapIdx, hblock]

theorem shifts_onClear {events : List BlockEvent}
    (hindex : ∀ i (block : Block S), l.blocks[i]? = some block → block.index = i)
    (h : l.onClear api = some (l', events)) : Shifts l.active l l' := by
  obtain ⟨⟨l₁, active⟩, hmodify, h⟩ := Option.bind_eq_some_iff.mp h
  obtain ⟨rfl, -⟩ := Prod.mk.inj (Option.some.inj h)
  have hkeeps : l₁.Keeps { l₁ with
      gaps := if active.id ∈ l₁.gaps then l₁.gaps else l₁.gaps ++ [active.id] } := .of_eq rfl rfl
  have hmodified := (keeps_modifyActive hmodify).trans hkeeps
  by_cases hactive : 0 < l.active
  · rw [if_pos hactive] at hmodified
    have hnumbered : ∀ i (block : Block S), l.drain.blocks[i]? = some block →
        block.index = i := by
      intro i block hblock
      simp only [drain, List.getElem?_mapIdx, Option.map_eq_some_iff] at hblock
      obtain ⟨block, -, rfl⟩ := hblock
      rfl
    exact shifts_drain.trans (hmodified.shifts hnumbered)
  · rw [if_neg hactive] at hmodified
    rw [Nat.eq_zero_of_not_pos hactive]
    exact hmodified.shifts hindex

end BlockList

/-- The operations that run while output and hooks arrive. The others change blocks by design: a
resize all of them, and the visibility of a block is the user's. -/
def BlockOp.isStream : BlockOp → Bool
  | .apply _ | .feed _ | .pushAgentViewBlock _ _ | .claimNextPreExec _ _ => true
  | .associateWithConversation _ _ | .setVisibility _ _ | .resize _ => false

namespace BlockList

variable {S : Type} {api : ScreenApi S} {size : ScreenSize} {l l' l'' : BlockList S}

theorem shifts_of_perform {op : BlockOp} {events : List BlockEvent} (hop : op.isStream = true)
    (hindex : ∀ i (block : Block S), l.blocks[i]? = some block → block.index = i)
    (h : l.perform api op = some (l', events)) :
    ∃ k, (k = 0 ∨ op = .apply .clear ∧ k = l.active) ∧ Shifts k l l' := by
  cases op with
  | apply event =>
    cases event with
    | initShell value =>
      obtain ⟨rfl, -⟩ := Prod.mk.inj (Option.some.inj h)
      exact ⟨0, .inl rfl, Keeps.shifts (.of_eq rfl rfl) hindex⟩
    | bootstrapped value =>
      obtain ⟨rfl, -⟩ := Prod.mk.inj (Option.some.inj h)
      exact ⟨0, .inl rfl, keeps_onBootstrapped.shifts hindex⟩
    | precmd value => exact ⟨0, .inl rfl, (keeps_onPrecmd h).shifts hindex⟩
    | preexec value => exact ⟨0, .inl rfl, (keeps_onPreexec h).shifts hindex⟩
    | commandFinished value => exact ⟨0, .inl rfl, (keeps_onCommandFinished h).shifts hindex⟩
    | inputBuffer value =>
      obtain ⟨rfl, -⟩ := Prod.mk.inj (Option.some.inj h)
      exact ⟨0, .inl rfl, Keeps.shifts (.of_eq rfl rfl) hindex⟩
    | clear => exact ⟨l.active, .inr ⟨rfl, rfl⟩, shifts_onClear hindex h⟩
  | feed bytes =>
    obtain ⟨l₁, hfeed, h⟩ := Option.map_eq_some_iff.mp h
    obtain ⟨rfl, -⟩ := Prod.mk.inj h
    exact ⟨0, .inl rfl, (keeps_feed hfeed).shifts hindex⟩
  | pushAgentViewBlock conversationId label =>
    obtain ⟨rfl, -⟩ := Prod.mk.inj (Option.some.inj h)
    exact ⟨0, .inl rfl, keeps_pushAgentViewBlock.shifts hindex⟩
  | claimNextPreExec id owner =>
    obtain ⟨⟨l₁, claimed⟩, hclaim, h⟩ := Option.map_eq_some_iff.mp h
    obtain ⟨rfl, -⟩ := Prod.mk.inj h
    exact ⟨0, .inl rfl, (keeps_claimNextPreExec hclaim).shifts hindex⟩
  | associateWithConversation | setVisibility | resize => cases hop

theorem onClear_spec {events : List BlockEvent} (h : l.onClear api = some (l', events)) :
    l'.blocks.map Block.id = (l.blocks.drop l.active).map Block.id ∧
      ∃ active ∈ l'.blocks,
        l'.gaps = if active.id ∈ l.gaps then l.gaps else l.gaps ++ [active.id] := by
  obtain ⟨⟨l₁, active⟩, hmodify, h⟩ := Option.bind_eq_some_iff.mp h
  obtain ⟨rfl, -⟩ := Prod.mk.inj (Option.some.inj h)
  -- the ids of what is left, whether anything is removed or not
  have hids : (if 0 < l.active then l.drain else l).blocks.map Block.id =
      (l.blocks.drop l.active).map Block.id := by
    split
    · exact map_mapIdx_eq_map _ fun _ _ => rfl
    · next hactive => rw [Nat.eq_zero_of_not_pos hactive, List.drop_zero]
  have hgaps : (if 0 < l.active then l.drain else l).gaps = l.gaps := by
    split <;> rfl
  unfold modifyActive at hmodify
  split at hmodify
  · next block hblock =>
    obtain ⟨rfl, rfl⟩ := Prod.mk.inj (Option.some.inj hmodify)
    refine ⟨?_, block.clear api, ?_, ?_⟩
    · rw [← hids]
      exact map_set_eq_map Block.id hblock rfl
    · exact List.mem_set (List.getElem?_eq_some_iff.mp hblock).1 _
    · rw [hgaps]
  · cases hmodify

end BlockList

/-! ### Runs -/

namespace Outline

variable {o o' : Outline} {op : BlockOp} {events : List BlockEvent}

theorem Step.mem_frames (h : o.Step op o' events) {f' : Frame} (hmem : f' ∈ o'.frames) :
    (∃ f ∈ o.frames, f.id = f'.id) ∨ f'.id.val = o.nextId := by
  have hset : ∀ {f : Frame} (g : Frame), o.frames[o.active]? = some f → g.id = f.id →
      f' ∈ o.frames.set o.active g → ∃ f ∈ o.frames, f.id = f'.id := by
    intro f g hact hid hmem
    have hin : f'.id ∈ (o.frames.set o.active g).map Frame.id := List.mem_map_of_mem hmem
    rw [map_set_eq_map Frame.id hact hid] at hin
    exact List.mem_map.mp hin
  cases h with
  | keep | claim => exact .inl ⟨f', hmem, rfl⟩
  | @start _ f hact => exact .inl (hset (f.start o.claim) hact rfl hmem)
  | @retire _ f state _ hact =>
    obtain hmem | hmem := List.mem_append.mp hmem
    · exact .inl (hset { f with state } hact rfl hmem)
    · exact .inr (congrArg (fun f => f.id.val) (List.mem_singleton.mp hmem))
  | bootstrap | card =>
    obtain hmem | hmem := List.mem_append.mp hmem
    · exact .inl ⟨f', hmem, rfl⟩
    · exact .inr (congrArg (fun f => f.id.val) (List.mem_singleton.mp hmem))
  | clear =>
    obtain ⟨i, hi, rfl⟩ := List.mem_mapIdx.mp hmem
    exact .inl ⟨_, List.mem_of_mem_drop (List.getElem_mem hi), rfl⟩

theorem Step.nextId_le (h : o.Step op o' events) : o.nextId ≤ o'.nextId := by
  cases h with
  | keep | claim | start | clear => exact le_rfl
  | retire | bootstrap | card => exact Nat.le_succ _

theorem Step.ids_subset (h : o.Step op o' events) (hop : op ≠ .apply .clear) :
    o.frames.map Frame.id ⊆ o'.frames.map Frame.id := by
  have hset : ∀ {f : Frame} (g : Frame), o.frames[o.active]? = some f → g.id = f.id →
      (o.frames.set o.active g).map Frame.id = o.frames.map Frame.id :=
    fun _ hact hid => map_set_eq_map Frame.id hact hid
  cases h with
  | keep | claim => exact fun _ hid => hid
  | @start _ f hact =>
    rw [← hset (f.start o.claim) hact rfl]
    exact List.Subset.refl _
  | @retire _ f state _ hact =>
    rw [← hset { f with state } hact rfl]
    exact List.map_subset _ (List.subset_append_left _ _)
  | bootstrap | card => exact List.map_subset _ (List.subset_append_left _ _)
  | clear => exact absurd rfl hop

end Outline

namespace BlockList

variable {S : Type} {api : ScreenApi S} {size : ScreenSize} {l l' : BlockList S}

/-- Ids are in the order of the positions. -/
theorem WellFormed.id_lt (h : l.WellFormed) {i j : Nat} {block next : Block S}
    (hblock : l.blocks[i]? = some block) (hnext : l.blocks[j]? = some next) (hij : i < j) :
    block.id.val < next.id.val := by
  obtain ⟨hi, rfl⟩ := List.getElem?_eq_some_iff.mp hblock
  obtain ⟨hj, rfl⟩ := List.getElem?_eq_some_iff.mp hnext
  exact List.pairwise_iff_getElem.mp h.ids_lt i j hi hj hij

theorem WellFormed.lt_of_id_lt (h : l.WellFormed) {i j : Nat} {block next : Block S}
    (hblock : l.blocks[i]? = some block) (hnext : l.blocks[j]? = some next)
    (hlt : block.id.val < next.id.val) : i < j := by
  by_contra hle
  obtain rfl | hgt := Nat.eq_or_lt_of_le (Nat.le_of_not_lt hle)
  · obtain rfl : block = next := Option.some.inj (hblock.symm.trans hnext)
    exact absurd hlt (Nat.lt_irrefl _)
  · exact absurd hlt (Nat.lt_asymm (h.id_lt hnext hblock hgt))

/-- The list is one that operations lead to. -/
def Ordered (l : BlockList S) : Prop := ∃ created, InOrder (l, created)

theorem Ordered.wellFormed (h : l.Ordered) : l.WellFormed :=
  let ⟨_, hpoint, hnum⟩ := h
  wellFormed_of_outline hpoint hnum

theorem ordered_new : (blockMachine api size).init.Ordered := ⟨_, inOrder_new⟩

/-- One operation on it. -/
theorem Ordered.perform (h : l.Ordered) (op : BlockOp) :
    ∃ l' events, l.perform api op = some (l', events) ∧ l'.Ordered ∧
      l.outline.Step op l'.outline events := by
  obtain ⟨created, hpoint, hnum⟩ := h
  obtain ⟨block, hact, hshell, haccept⟩ := exists_activeBlock hpoint
  obtain ⟨l', events, hperform, hstep⟩ := step_of_perform api hact hshell haccept op
  exact ⟨l', events, hperform, ⟨_, hpoint.step hstep, hnum.step hstep⟩, hstep⟩

theorem Ordered.step (h : l.Ordered) {op : BlockOp}
    (hstep : (blockMachine api size).step l op = some l') :
    l'.Ordered ∧ ∃ events, l.perform api op = some (l', events) ∧
      l.outline.Step op l'.outline events := by
  obtain ⟨l₁, events, hperform, hordered, houtline⟩ := h.perform op
  obtain rfl : l₁ = l' := by
    have hmachine : (blockMachine api size).step l op = some l₁ :=
      congrArg (Option.map Prod.fst) hperform
    exact Option.some.inj (hmachine.symm.trans hstep)
  exact ⟨hordered, events, hperform, houtline⟩

theorem Ordered.exec (h : l.Ordered) {ops : List BlockOp}
    (hrun : (blockMachine api size).exec l ops = some l') : l'.Ordered :=
  Machine.exec_invariant (C := fun _ _ => True) (fun _ _ _ h _ hstep => (h.step hstep).1) h
    (Machine.along_true _ _) hrun

def Frozen (block : Block S) (l : BlockList S) : Prop :=
  ∃ j, j ≠ l.active ∧ l.blocks[j]? = some { block with index := j }

def Gone (id : BlockId) (l : BlockList S) : Prop :=
  id.val < l.nextId ∧ ∀ block ∈ l.blocks, block.id ≠ id

theorem Gone.step {id : BlockId} (h : Gone id l) {op : BlockOp} {events : List BlockEvent}
    (hstep : l.outline.Step op l'.outline events) : Gone id l' := by
  refine ⟨Nat.lt_of_lt_of_le h.1 hstep.nextId_le, fun block hblock heq => ?_⟩
  obtain ⟨f, hf, hid⟩ | hnext := hstep.mem_frames (List.mem_map_of_mem hblock)
  · obtain ⟨block', hblock', rfl⟩ := List.mem_map.mp hf
    exact h.2 block' hblock' (hid.trans heq)
  · have hlt := h.1
    rw [← heq] at hlt
    exact absurd hnext (Nat.ne_of_lt hlt)

theorem gone_of_drained (h : l.Ordered) {i : Nat} {block : Block S}
    (hblock : l.blocks[i]? = some block) (hi : i < l.active) (hnext : l.nextId ≤ l'.nextId)
    (hids : l'.blocks.map Block.id = (l.blocks.drop l.active).map Block.id) :
    Gone block.id l' := by
  have hlt : block.id.val < l.nextId := by
    obtain ⟨_, -, hnum⟩ := h
    exact hnum.id_lt (List.mem_of_getElem? (outline_getElem? hblock))
  refine ⟨Nat.lt_of_lt_of_le hlt hnext, fun next hmem heq => ?_⟩
  -- an id of the list left is that of a later block
  have hin : next.id ∈ (l.blocks.drop l.active).map Block.id := hids ▸ List.mem_map_of_mem hmem
  obtain ⟨later, hlater, hid⟩ := List.mem_map.mp hin
  obtain ⟨j, hj⟩ := List.mem_iff_getElem?.mp hlater
  rw [List.getElem?_drop] at hj
  have hord := h.wellFormed.id_lt hblock hj (by omega)
  rw [hid, heq] at hord
  exact absurd hord (Nat.lt_irrefl _)

/-- One operation: a block that is not active stays so, or a `Clear` removes it. -/
theorem Frozen.step (hordered : l.Ordered) {block : Block S} (h : Frozen block l) {op : BlockOp}
    (hop : op.isStream = true) {events : List BlockEvent}
    (hperform : l.perform api op = some (l', events))
    (hstep : l.outline.Step op l'.outline events) :
    Frozen block l' ∨ op = .apply .clear ∧ Gone block.id l' := by
  obtain ⟨j, hne, hblock⟩ := h
  obtain ⟨k, hk, hshift⟩ := shifts_of_perform hop hordered.wellFormed.index_eq hperform
  by_cases hle : k ≤ j
  · obtain ⟨i, rfl⟩ := Nat.exists_eq_add_of_le hle
    obtain ⟨hne', hblock'⟩ := hshift i _ hblock hne
    exact .inl ⟨i, hne', hblock'⟩
  · obtain rfl | ⟨rfl, rfl⟩ := hk
    · exact absurd (Nat.zero_le j) hle
    · have hgone := gone_of_drained hordered hblock (Nat.lt_of_not_le hle) hstep.nextId_le
        (onClear_spec hperform).1
      exact .inr ⟨rfl, hgone⟩

end BlockList

/-- **Blocks that are not active are frozen.** Whatever comes over the stream to a list that
operations led to, such a block keeps all it holds but its position, or a `Clear` removes it. No
two blocks change places. -/
theorem frozen_of_run {S : Type} (api : ScreenApi S) (size : ScreenSize) (ops calls : List BlockOp)
    (hcalls : ∀ op ∈ calls, op.isStream = true) {l l' : BlockList S}
    (hreached : (blockMachine api size).exec (blockMachine api size).init ops = some l)
    (hrun : (blockMachine api size).exec l calls = some l') :
    (∀ i (block : Block S), l.blocks[i]? = some block → i ≠ l.active →
      (∃ j, j ≠ l'.active ∧ l'.blocks[j]? = some { block with index := j }) ∨
        .apply .clear ∈ calls ∧ ∀ block' ∈ l'.blocks, block'.id ≠ block.id) ∧
      ∀ (i j i' j' : Nat) (block next block' next' : Block S),
        l.blocks[i]? = some block → l.blocks[j]? = some next →
        l'.blocks[i']? = some block' → l'.blocks[j']? = some next' →
        block'.id = block.id → next'.id = next.id → i < j → i' < j' := by
  have hordered : l.Ordered := BlockList.ordered_new.exec hreached
  constructor
  · intro i block hblock hne
    have hstart : BlockList.Frozen block l :=
      ⟨i, hne, by rw [hblock, ← hordered.wellFormed.index_eq i block hblock]⟩
    have hend : l'.Ordered ∧
        (BlockList.Frozen block l' ∨ .apply .clear ∈ calls ∧ BlockList.Gone block.id l') := by
      refine Machine.exec_invariant (M := blockMachine api size)
        (C := fun _ op => op ∈ calls)
        (I := fun m => m.Ordered ∧
          (BlockList.Frozen block m ∨ .apply .clear ∈ calls ∧ BlockList.Gone block.id m))
        ?_ ⟨hordered, .inl hstart⟩ ?_ hrun
      · rintro m op m' ⟨hm, hkept⟩ hmem hstep
        obtain ⟨hm', events, hperform, houtline⟩ := hm.step hstep
        refine ⟨hm', ?_⟩
        obtain hfrozen | ⟨hclear, hgone⟩ := hkept
        · obtain hfrozen | ⟨rfl, hgone⟩ := hfrozen.step hm (hcalls op hmem) hperform houtline
          · exact .inl hfrozen
          · exact .inr ⟨hmem, hgone⟩
        · exact .inr ⟨hclear, hgone.step houtline⟩
      · exact ((Machine.along_true l calls).and_labels fun op hop => hop).mono fun _ _ h => h.2
    exact hend.2.imp id fun hgone => ⟨hgone.1, hgone.2.2⟩
  · intro i j i' j' block next block' next' hblock hnext hblock' hnext' hid hid' hij
    have hordered' : l'.Ordered := hordered.exec hrun
    refine hordered'.wellFormed.lt_of_id_lt hblock' hnext' ?_
    rw [hid, hid']
    exact hordered.wellFormed.id_lt hblock hnext hij

/-- Bytes and a `Clear`, after the block before the prompt was left. -/
theorem frozen_of_run_bootstrapped :
    ∃ l l', (blockMachine byteScreen ⟨80, 24⟩).exec (blockMachine byteScreen ⟨80, 24⟩).init
        [.apply (.bootstrapped {})] = some l ∧
      (blockMachine byteScreen ⟨80, 24⟩).exec l [.feed [97], .apply .clear] = some l' ∧
      ∀ i (block : Block (List UInt8)), l.blocks[i]? = some block → i ≠ l.active →
        (∃ j, j ≠ l'.active ∧ l'.blocks[j]? = some { block with index := j }) ∨
          .apply .clear ∈ [BlockOp.feed [97], .apply .clear] ∧
            ∀ block' ∈ l'.blocks, block'.id ≠ block.id :=
  ⟨_, _, rfl, rfl, (frozen_of_run byteScreen ⟨80, 24⟩ [.apply (.bootstrapped {})]
    [.feed [97], .apply .clear] (by decide) rfl rfl).1⟩

/-! ### Gaps -/

namespace BlockList

variable {S : Type} {api : ScreenApi S} {size : ScreenSize} {l l' : BlockList S}

def GapsLive (l : BlockList S) : Prop := ∀ id ∈ l.gaps, ∃ block ∈ l.blocks, block.id = id

def ClearsNoGap (l : BlockList S) (op : BlockOp) : Prop :=
  op = .apply .clear → ∀ i (block : Block S), l.blocks[i]? = some block → i < l.active →
    block.id ∉ l.gaps

theorem gaps_modifyActive {f : Block S → Block S} {block : Block S}
    (h : l.modifyActive f = some (l', block)) : l'.gaps = l.gaps := by
  unfold modifyActive at h
  split at h
  · obtain ⟨rfl, -⟩ := Prod.mk.inj (Option.some.inj h)
    rfl
  · cases h

theorem gaps_onPrecmd {value : PrecmdValue} {events : List BlockEvent}
    (h : l.onPrecmd api value = some (l', events)) : l'.gaps = l.gaps := by
  obtain ⟨⟨l₁, results⟩, hpromote, h⟩ := Option.bind_eq_some_iff.mp h
  obtain ⟨⟨l₂, active⟩, hmodify, h⟩ := Option.bind_eq_some_iff.mp h
  obtain ⟨rfl, -⟩ := Prod.mk.inj (Option.some.inj h)
  have hsecond := gaps_modifyActive hmodify
  refine hsecond.trans ?_
  obtain ⟨active, -, h⟩ := Option.bind_eq_some_iff.mp hpromote
  split at h
  · obtain ⟨⟨l₃, promoted⟩, hrunning, h⟩ := Option.bind_eq_some_iff.mp h
    obtain ⟨rfl, -⟩ := Prod.mk.inj (Option.some.inj h)
    have hgaps := gaps_modifyActive hrunning
    exact hgaps
  · obtain ⟨rfl, -⟩ := Prod.mk.inj (Option.some.inj h)
    rfl

theorem gaps_onBootstrapped : (l.onBootstrapped api).1.gaps = l.gaps := by
  unfold onBootstrapped
  split <;> rfl

theorem gaps_of_perform {op : BlockOp} {events : List BlockEvent} (hop : op ≠ .apply .clear)
    (h : l.perform api op = some (l', events)) : l'.gaps = l.gaps := by
  cases op with
  | apply event =>
    cases event with
    | initShell | inputBuffer =>
      obtain ⟨rfl, -⟩ := Prod.mk.inj (Option.some.inj h)
      rfl
    | bootstrapped value =>
      obtain ⟨rfl, -⟩ := Prod.mk.inj (Option.some.inj h)
      exact gaps_onBootstrapped
    | precmd value => exact gaps_onPrecmd h
    | preexec value =>
      obtain ⟨⟨l₁, active⟩, hmodify, h⟩ := Option.bind_eq_some_iff.mp h
      obtain ⟨rfl, -⟩ := Prod.mk.inj (Option.some.inj h)
      have hgaps := gaps_modifyActive hmodify
      exact hgaps
    | commandFinished value =>
      obtain ⟨⟨l₁, finished⟩, hmodify, h⟩ := Option.bind_eq_some_iff.mp h
      obtain ⟨rfl, -⟩ := Prod.mk.inj (Option.some.inj h)
      have hgaps := gaps_modifyActive hmodify
      exact hgaps
    | clear => exact absurd rfl hop
  | feed bytes =>
    obtain ⟨l₁, hfeed, h⟩ := Option.map_eq_some_iff.mp h
    obtain ⟨rfl, -⟩ := Prod.mk.inj h
    unfold feed at hfeed
    split at hfeed
    · exact congrArg gaps (Option.some.inj hfeed).symm
    · obtain ⟨⟨l₂, active⟩, hmodify, rfl⟩ := Option.map_eq_some_iff.mp hfeed
      exact gaps_modifyActive hmodify
  | claimNextPreExec id owner =>
    obtain ⟨⟨l₁, claimed⟩, hclaim, h⟩ := Option.map_eq_some_iff.mp h
    obtain ⟨rfl, -⟩ := Prod.mk.inj h
    unfold claimNextPreExec at hclaim
    split at hclaim
    · split at hclaim
      · obtain ⟨rfl, -⟩ := Prod.mk.inj (Option.some.inj hclaim)
        rfl
      · obtain ⟨rfl, -⟩ := Prod.mk.inj (Option.some.inj hclaim)
        rfl
    · cases hclaim
  | pushAgentViewBlock | resize =>
    obtain ⟨rfl, -⟩ := Prod.mk.inj (Option.some.inj h)
    rfl
  | associateWithConversation id conversationId =>
    obtain ⟨rfl, -⟩ := Prod.mk.inj (Option.some.inj h)
    unfold associateWithConversation
    split <;> rfl
  | setVisibility id visibility =>
    obtain ⟨rfl, -⟩ := Prod.mk.inj (Option.some.inj h)
    unfold setVisibility
    split <;> rfl

theorem gapsLive_step (hordered : l.Ordered) (hlive : l.GapsLive) {op : BlockOp}
    (hclears : l.ClearsNoGap op) :
    ∃ l', (blockMachine api size).step l op = some l' ∧ l'.Ordered ∧ l'.GapsLive := by
  obtain ⟨l', events, hperform, hordered', houtline⟩ := @Ordered.perform S api l hordered op
  refine ⟨l', congrArg (Option.map Prod.fst) hperform, hordered', fun id hid => ?_⟩
  by_cases hop : op = .apply .clear
  · subst hop
    obtain ⟨hids, active, hactive, hgaps⟩ := onClear_spec hperform
    by_cases hnew : id = active.id
    · exact ⟨active, hactive, hnew.symm⟩
    · -- an older gap: its block is not before the active one
      have hold : id ∈ l.gaps := by
        rw [hgaps] at hid
        split at hid
        · exact hid
        · exact (List.mem_append.mp hid).resolve_right fun h => hnew (List.mem_singleton.mp h)
      obtain ⟨block, hblock, rfl⟩ := hlive id hold
      obtain ⟨i, hi⟩ := List.mem_iff_getElem?.mp hblock
      have hle : l.active ≤ i := Nat.le_of_not_lt fun hlt => hclears rfl i block hi hlt hold
      have hleft : block.id ∈ l'.blocks.map Block.id := by
        rw [hids]
        refine List.mem_map_of_mem (List.mem_iff_getElem?.mpr ⟨i - l.active, ?_⟩)
        rw [List.getElem?_drop, Nat.add_sub_cancel' hle]
        exact hi
      exact List.mem_map.mp hleft
  · rw [gaps_of_perform hop hperform] at hid
    obtain ⟨block, hblock, rfl⟩ := hlive id hid
    have hin : block.id ∈ l.outline.frames.map Frame.id :=
      List.mem_map_of_mem (List.mem_map_of_mem hblock)
    obtain ⟨f, hf, hfid⟩ := List.mem_map.mp (houtline.ids_subset hop hin)
    obtain ⟨block', hblock', rfl⟩ := List.mem_map.mp hf
    exact ⟨block', hblock', hfid⟩

theorem not_gapsLive_of_clear (hordered : l.Ordered) {op : BlockOp}
    (hclears : ¬ l.ClearsNoGap op) :
    ∃ l', (blockMachine api size).step l op = some l' ∧ ¬ l'.GapsLive := by
  simp only [ClearsNoGap, not_forall, not_not] at hclears
  obtain ⟨rfl, i, block, hblock, hi, hgap⟩ := hclears
  obtain ⟨l', events, hperform, -, houtline⟩ := @Ordered.perform S api l hordered (.apply .clear)
  refine ⟨l', congrArg (Option.map Prod.fst) hperform, fun hlive => ?_⟩
  obtain ⟨hids, active, -, hgaps⟩ := onClear_spec hperform
  have hkept : block.id ∈ l'.gaps := by
    rw [hgaps]
    split
    · exact hgap
    · exact List.mem_append_left _ hgap
  obtain ⟨block', hblock', hid⟩ := hlive block.id hkept
  exact (gone_of_drained hordered hblock hi houtline.nextId_le hids).2 block' hblock' hid

end BlockList

/-- **Gaps.** Exactly when no `Clear` removes a block that is a gap, the gaps are blocks of the list
all along. -/
theorem gaps_of_run {S : Type} (api : ScreenApi S) (size : ScreenSize) (ops : List BlockOp) :
    (∀ ks, ks <+: ops → ∃ l, (blockMachine api size).exec (blockMachine api size).init ks =
        some l ∧ l.GapsLive) ↔
      (blockMachine api size).Along BlockList.ClearsNoGap (blockMachine api size).init ops := by
  refine Machine.along_iff_of_step (I := fun l : BlockList S => l.Ordered ∧ l.GapsLive)
    (fun _ h => h.2)
    (fun _ _ h hclears => BlockList.gapsLive_step h.1 h.2 hclears)
    (fun _ _ h hclears => BlockList.not_gapsLive_of_clear h.1 hclears) ?_ ops
  exact ⟨BlockList.ordered_new, fun _ hid => absurd hid List.not_mem_nil⟩

/-- The first block is cleared, its command ends, and the second block is cleared. -/
theorem not_gaps_of_run :
    ∃ l, (blockMachine byteScreen ⟨80, 24⟩).exec (blockMachine byteScreen ⟨80, 24⟩).init
        [.apply .clear, .apply (.commandFinished { exitCode := 0 }), .apply .clear] = some l ∧
      l.gaps = [⟨1⟩, ⟨2⟩] ∧ l.blocks.map Block.id = [⟨2⟩] ∧ ¬ l.GapsLive := by
  obtain ⟨l, hrun, hfacts⟩ := Option.map_eq_some_iff.mp
    (show ((blockMachine byteScreen ⟨80, 24⟩).exec (blockMachine byteScreen ⟨80, 24⟩).init
        [.apply .clear, .apply (.commandFinished { exitCode := 0 }), .apply .clear]).map
        (fun l => (l.gaps, l.blocks.map Block.id)) = some ([⟨1⟩, ⟨2⟩], [⟨2⟩]) by decide +kernel)
  obtain ⟨hgaps, hids⟩ := Prod.mk.inj hfacts
  refine ⟨l, hrun, hgaps, hids, fun hlive => ?_⟩
  obtain ⟨block, hblock, hid⟩ := hlive ⟨1⟩ (hgaps ▸ List.mem_cons_self)
  have hin : (⟨1⟩ : BlockId) ∈ l.blocks.map Block.id := List.mem_map.mpr ⟨block, hblock, hid⟩
  rw [hids] at hin
  exact absurd hin (by decide)

end Goble.Terminal
