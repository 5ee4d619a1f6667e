import Goble.Vim.Replay

/-!
# Every key press ends

The host keeps one `VimState` and hands it whatever buffer it has at the next key, so a run here is
a list of events, each press with a buffer of its own.

A press ends unless it replays keys that replay themselves. The keys of a change are those recorded
since the last one was closed or dropped, and the dot command is recorded like any other key: it does
not close the command it stands in. So `x . x` leaves a change whose keys start with `.`, and the next
`.` never ends (`not_ends`). While no change is closed, and no insert session opened, by keys that
hold a dot command (`Meets`), every press of the run ends (`ends_of_meets`).
-/

namespace Goble.Vim

inductive Event
  | press (p : Press) (buffer : VimBuffer)
  | reset
  | setUnnamedClipboard (on : Bool)

section Engine

variable [CaseTable]

def engine : Machine VimState Event where
  init := .new
  step s
    | .press p buffer => ((⟨s, buffer, none⟩ : Editor).press p).map (·.1.vim)
    | .reset => some s.reset
    | .setUnnamedClipboard on => some (s.setUnnamedClipboard on)

end Engine

def Editor.tableKey (e : Editor) (key : Key) : Editor × Call :=
  match e.vim.mode with
  | .normal => if e.readsDot key then (e, .consumed) else normalKey key e
  | .visual _ => visualKey key e
  | _ => (e, .consumed)

/-- No change is closed and no insert session opened by keys that hold a dot command. -/
def Meets (s : VimState) : Event → Prop
  | .press p buffer =>
    p.isPlain → Editor.takes ((⟨s, buffer, p.clipboard⟩ : Editor).tableKey p.key) = true →
      Clean (s.command ++ [p.key.named])
  | _ => True

/-- The recorded changes hold no dot command. -/
structure Safe (s : VimState) : Prop where
  replaying : s.replaying = 0
  lastChange : ∀ change, s.lastChange = some change → Clean change.keys
  insertKeys : s.mode = .insert → Clean s.insertKeys

theorem clean_nil : Clean [] := clean_of_idle rfl rfl

/-! ### The operations -/

namespace Safe

variable {s t : VimState}

theorem of_same (h : Safe s) (replaying : t.replaying = s.replaying)
    (lastChange : t.lastChange = s.lastChange)
    (mode : t.mode = .insert → s.mode = .insert ∧ t.insertKeys = s.insertKeys) : Safe t where
  replaying := replaying.trans h.replaying
  lastChange change hchange := h.lastChange change (lastChange ▸ hchange)
  insertKeys hmode := (mode hmode).2 ▸ h.insertKeys (mode hmode).1

theorem finishInsert (h : Safe s) (hmode : s.mode = .insert) :
    s.finishInsert.replaying = 0 ∧
      ∀ change, s.finishInsert.lastChange = some change → Clean change.keys := by
  unfold VimState.finishInsert
  split_ifs with hkeys hreplaying
  · exact ⟨h.replaying, h.lastChange⟩
  · refine ⟨h.replaying, fun change hchange => ?_⟩
    obtain rfl := Option.some.inj hchange
    exact h.insertKeys hmode
  · exact absurd h.replaying hreplaying

theorem rememberChange {e : Editor} (h : Safe e.vim) (hclean : Clean e.vim.command)
    (hmode : e.vim.mode ≠ .insert) : Safe (e.rememberChange none).vim := by
  have hreplaying : ¬e.vim.replaying > 0 := by rw [h.replaying]; exact Nat.lt_irrefl 0
  unfold Editor.rememberChange VimState.rememberChange
  rw [if_neg hreplaying]
  refine ⟨h.replaying, fun change hchange => ?_, fun hinsert => absurd hinsert hmode⟩
  obtain rfl := Option.some.inj hchange
  exact hclean

theorem openInsert {e : Editor} (h : Safe e.vim) (hclean : Clean e.vim.command) :
    Safe e.openInsert.vim :=
  ⟨h.replaying, h.lastChange, fun _ => hclean⟩

end Safe

namespace Editor

variable {e g : Editor} {p : Press} {r : Editor × VimOutcome}

theorem safe_escape (h : Safe e.vim) : Safe e.escape.1.vim := by
  unfold escape
  dsimp only
  split
  · next hmode =>
    obtain ⟨hreplaying, hchange⟩ := h.finishInsert hmode
    exact ⟨hreplaying, hchange, nofun⟩
  · exact h.of_same rfl rfl nofun
  · exact h.of_same rfl rfl nofun
  · next hmode =>
    split_ifs
    · exact h.of_same rfl rfl fun hinsert => ⟨hinsert, rfl⟩
    · exact h

theorem safe_insert (key : Key) (h : Safe e.vim) : Safe (e.insert key).1.vim := by
  unfold insert
  split
  · split_ifs
    · exact h
    · exact h.of_same rfl rfl fun hinsert => ⟨hinsert, rfl⟩
  · split_ifs
    · exact h
    · exact h.of_same rfl rfl fun hinsert => ⟨hinsert, rfl⟩
  · exact h.of_same rfl rfl fun hinsert => ⟨hinsert, rfl⟩
  · exact h

theorem safe_replace (key : Key) (h : Safe e.vim) : Safe (e.replace key).1.vim := by
  unfold replace
  split
  · dsimp only
    split <;> exact h.of_same rfl rfl nofun
  · exact h

theorem safe_undo (h : Safe e.vim) : Safe e.undo.1.vim := by
  unfold undo
  split
  · exact h
  · exact h.of_same rfl rfl nofun

theorem safe_redo (h : Safe e.vim) : Safe e.redo.1.vim := by
  unfold redo
  split
  · exact h
  · exact h.of_same rfl rfl nofun

theorem safe_of_shape {call : Call} (h : Shape e call r) (hsafe : Safe e.vim)
    (hmode : e.vim.mode ≠ .insert) (hclean : takes (e, call) = true → Clean e.vim.command) :
    Safe r.1.vim := by
  cases h with
  | stay wrote =>
    exact hsafe.of_same wrote.replaying wrote.lastChange fun h => absurd (wrote.mode ▸ h) hmode
  | home wrote =>
    exact hsafe.of_same wrote.replaying wrote.lastChange fun h => absurd (wrote.mode ▸ h) hmode
  | place n wrote =>
    exact hsafe.of_same wrote.replaying wrote.lastChange fun h => absurd (wrote.mode ▸ h) hmode
  | leave => exact hsafe.of_same rfl rfl nofun
  | @enter place n o report =>
    have hcaret : Safe (e.setCaret n).vim := hsafe
    exact hcaret.openInsert (hclean rfl)
  | @edit _ w b wrote takes =>
    have hw : Safe { w.snapshot with buffer := b }.vim :=
      hsafe.of_same wrote.replaying wrote.lastChange fun h => absurd (wrote.mode ▸ h) hmode
    have hcommand : Clean w.vim.command := wrote.command ▸ hclean takes
    exact hw.rememberChange hcommand fun h => absurd (wrote.mode ▸ h) hmode
  | @change _ w b wrote takes =>
    have hw : Safe { w.snapshot with buffer := b }.vim :=
      hsafe.of_same wrote.replaying wrote.lastChange fun h => absurd (wrote.mode ▸ h) hmode
    have hcommand : Clean w.vim.command := wrote.command ▸ hclean takes
    exact hw.openInsert hcommand
  | scrap => exact hsafe.of_same rfl rfl fun h => absurd h hmode
  | undo => exact safe_undo hsafe

theorem takes_of_isAnswer {x : Editor × Call} (h : takes x = true) : x.2.isAnswer = false := by
  obtain ⟨e, call⟩ := x
  cases call <;> first | rfl | cases h

theorem safe_table [CaseTable] {x : Editor × Call} (hsafe : Safe e.vim) (hkept : Kept e x.1)
    (hmode : x.1.vim.mode ≠ .insert) (hclean : takes x = true → Clean x.1.vim.command) :
    Safe (perform x).1.vim := by
  have hx : Safe x.1.vim :=
    hsafe.of_same hkept.replaying hkept.lastChange fun h => absurd h hmode
  exact safe_of_shape (shape_perform x.1 x.2) hx hmode hclean

/-! ### Replays -/

theorem mode_closed (r : Editor × VimOutcome) : (closed r).1.vim.mode ≠ .insert := by
  unfold closed
  split_ifs with hmode
  · unfold escape
    rw [hmode]
    exact nofun
  · exact hmode

theorem replaying_rememberChange (e : Editor) (insert : Option (List Char)) :
    (e.rememberChange insert).vim.replaying = e.vim.replaying := by
  unfold rememberChange VimState.rememberChange
  split <;> rfl

theorem replaying_of_shape {call : Call} (h : Shape e call r) :
    r.1.vim.replaying = e.vim.replaying := by
  cases h with
  | stay wrote => exact wrote.replaying
  | home wrote => exact wrote.replaying
  | place n wrote => exact wrote.replaying
  | edit b wrote => exact (replaying_rememberChange _ _).trans wrote.replaying
  | change b wrote => exact wrote.replaying
  | undo =>
    unfold undo
    split <;> rfl
  | leave | enter | scrap => rfl

theorem replaying_insert (e : Editor) (key : Key) :
    (e.insert key).1.vim.replaying = e.vim.replaying := by
  unfold insert
  split
  · split_ifs <;> rfl
  · split_ifs <;> rfl
  · rfl
  · rfl

theorem replaying_closed (r : Editor × VimOutcome) :
    (closed r).1.vim.replaying = r.1.vim.replaying := by
  unfold closed
  split_ifs with hmode
  · unfold escape VimState.finishInsert
    rw [hmode]
    dsimp only
    split_ifs <;> rfl
  · rfl

theorem replaying_inserted (text : List Char) (r : Editor × VimOutcome) :
    (inserted text r).1.vim.replaying = r.1.vim.replaying := by
  induction text generalizing r with
  | nil => rfl
  | cons c text ih => exact (ih _).trans (replaying_insert _ _)

/-! ### One press -/

theorem safe_record {key : Key} (h : Safe e.vim) (hmode : e.vim.mode ≠ .insert) :
    Safe (e.record key).vim := by
  have hkept := kept_record e key
  refine h.of_same hkept.replaying hkept.lastChange fun hinsert => ?_
  exact absurd ((record_mode e key).symm.trans hinsert) hmode

section Runs

variable [CaseTable] {change : LastChange}

theorem replaying_typed (keys : List Key) (r : Editor × VimOutcome) :
    (typed keys r).1.vim.replaying = r.1.vim.replaying := by
  induction keys generalizing r with
  | nil => rfl
  | cons key keys ih =>
    refine (ih _).trans ?_
    exact (replaying_of_shape (shape_perform _ _)).trans (kept_normalKey key r.1).replaying

theorem replaying_replayed (change : LastChange) (n : Nat) (r : Editor × VimOutcome) :
    ((replayed change)^[n] r).1.vim.replaying = r.1.vim.replaying := by
  induction n with
  | zero => rfl
  | succ n ih =>
    rw [Function.iterate_succ_apply', replayed, replaying_closed, replaying_inserted,
      replaying_typed, ih]

theorem safe_redone (h : Safe e.vim) (hclean : Clean change.keys) :
    Safe (e.redone change).1.vim where
  replaying := by
    have hkept := replaying_replayed change (max e.vim.counts 1) (e.startReplay, .consumed)
    simp only [redone, endReplay, hkept]
    exact h.replaying
  lastChange c hc := by
    obtain rfl := Option.some.inj hc
    exact hclean
  insertKeys hmode := by
    obtain ⟨n, hn⟩ := exists_repeats e.vim
    simp only [redone, endReplay, hn, Function.iterate_succ_apply'] at hmode
    exact absurd hmode (mode_closed _)

theorem safe_dot {depth : Nat} {key : Key} (h : Safe e.vim) (hmode : e.vim.mode = .normal)
    (hdot : e.readsDot key = true) (hr : e.normal depth key = some r) : Safe r.1.vim := by
  have hrecord : Safe (e.record key).vim := safe_record h (by rw [hmode]; exact nofun)
  obtain ⟨depth, rfl⟩ := exists_depth hdot hr
  cases hchange : e.vim.lastChange with
  | none =>
    rw [dot_of_no_change hdot hchange] at hr
    obtain rfl := Option.some.inj hr
    exact hrecord
  | some change =>
    have hclean := h.lastChange change hchange
    rw [dot_of_clean hdot hchange hclean] at hr
    obtain rfl := Option.some.inj hr
    exact safe_redone hrecord hclean

theorem safe_press (h : Safe e.vim)
    (hmeets : p.isPlain → takes ((e.facing p).tableKey p.key) = true →
      Clean (e.vim.command ++ [p.key.named])) (hr : e.press p = some r) : Safe r.1.vim := by
  have hfacing : Safe (e.facing p).vim := h
  have hhandled := handled hr
  generalize hf : e.facing p = f at *
  have hcommand : f.vim.command = e.vim.command := by rw [← hf]; rfl
  rw [← hcommand] at hmeets
  clear hr hf hcommand h
  have hrecorded : (f.record p.key.named).vim.command = f.vim.command ++ [p.key.named] :=
    record_command hfacing.replaying
  cases hhandled with
  | escape esc => exact safe_escape hfacing
  | ignored esc plain quiet => exact hfacing
  | redo redo mode => exact safe_redo hfacing
  | insert plain mode => exact safe_insert _ hfacing
  | replace plain mode => exact safe_replace _ hfacing
  | normal plain mode dot =>
    have htable : f.tableKey p.key = normalKey p.key f := by
      simp only [tableKey, mode, dot, Bool.false_eq_true, if_false]
    rw [htable] at hmeets
    have hmode := (turns_normalKey p.key f).ne_insert (by rw [mode]; exact nofun)
    refine safe_table hfacing (kept_normalKey p.key f) hmode fun htakes => ?_
    rw [command_normalKey (takes_of_isAnswer htakes), hrecorded]
    exact hmeets plain htakes
  | visual plain mode =>
    have htable : f.tableKey p.key = visualKey p.key f := by simp only [tableKey, mode]
    rw [htable] at hmeets
    have hmode : (visualKey p.key f).1.vim.mode ≠ .insert := by
      rcases turns_visualKey p.key f with hturns | hnormal
      · exact hturns.ne_insert (by rw [mode]; exact nofun)
      · rw [hnormal]
        exact nofun
    refine safe_table hfacing (kept_visualKey p.key f) hmode fun htakes => ?_
    rw [command_visualKey (takes_of_isAnswer htakes), hrecorded]
    exact hmeets plain htakes
  | dot dot replay => exact safe_dot hfacing dot.2.1 dot.2.2 replay

theorem normal_ends (h : Safe e.vim) (key : Key) : ∃ r, e.normal 1 key = some r := by
  by_cases hdot : e.readsDot key = true
  · cases hchange : e.vim.lastChange with
    | none => exact ⟨_, dot_of_no_change hdot hchange⟩
    | some change => exact ⟨_, dot_of_clean hdot hchange (h.lastChange change hchange)⟩
  · exact ⟨_, normal_of_not_dot (by simpa using hdot)⟩

/-- With clean changes a press ends, its replay one level deep. -/
theorem handle_ends (h : Safe e.vim) (key : Key) (modifiers : ModifiersState) :
    ∃ r, handle 1 key modifiers e = some r := by
  unfold handle
  split_ifs
  all_goals first | exact ⟨_, rfl⟩ | skip
  -- the table of the mode is left
  split
  · exact ⟨_, rfl⟩
  · exact ⟨_, rfl⟩
  · exact normal_ends h key
  · exact ⟨_, rfl⟩

end Runs

end Editor

/-! ### Runs -/

theorem safe_new : Safe .new := ⟨rfl, nofun, fun _ => clean_nil⟩

section Runs

variable [CaseTable] {s t : VimState} {event : Event} {events : List Event}

theorem safe_step (h : Safe s) (hmeets : Meets s event) (hstep : engine.step s event = some t) :
    Safe t := by
  cases event with
  | press p buffer =>
    obtain ⟨r, hpress, rfl⟩ := Option.map_eq_some_iff.mp hstep
    exact Editor.safe_press (e := ⟨s, buffer, none⟩) (p := p) h hmeets hpress
  | reset =>
    obtain rfl := Option.some.inj hstep
    exact ⟨h.replaying, h.lastChange, fun _ => clean_nil⟩
  | setUnnamedClipboard on =>
    obtain rfl := Option.some.inj hstep
    exact ⟨h.replaying, h.lastChange, h.insertKeys⟩

/-- **Every key press ends**, in every state a run reaches in which no change is closed by keys that
hold a dot command; and no recorded change holds one. -/
theorem ends_of_meets (hmeets : engine.Along Meets .new events)
    (hrun : engine.exec .new events = some s) :
    (∀ change, s.lastChange = some change → Clean change.keys) ∧
      ∀ (p : Press) (buffer : VimBuffer),
        ∃ depth r, (⟨s, buffer, none⟩ : Editor).press { p with depth := depth } = some r := by
  have hsafe : Safe s :=
    Machine.exec_invariant (fun _ _ _ hI hC hstep => safe_step hI hC hstep) safe_new hmeets hrun
  exact ⟨hsafe.lastChange, fun p buffer => ⟨1, Editor.handle_ends hsafe p.key p.modifiers⟩⟩

end Runs

/-- A condition that can be evaluated: the keys that are taken read no dot command and leave nothing
half typed. -/
def MeetsOnce (s : VimState) : Event → Prop
  | .press p buffer =>
    p.isPlain → Editor.takes ((⟨s, buffer, p.clipboard⟩ : Editor).tableKey p.key) = true →
      Reading.idle.readsDot (s.command ++ [p.key.named]) = false ∧
        Reading.idle.after (s.command ++ [p.key.named]) = .idle
  | _ => True

instance (s : VimState) (event : Event) : Decidable (MeetsOnce s event) :=
  match event with
  | .press _ _ => inferInstanceAs (Decidable (_ → _ → _))
  | .reset => isTrue trivial
  | .setUnnamedClipboard _ => isTrue trivial

theorem MeetsOnce.meets {s : VimState} {event : Event} (h : MeetsOnce s event) : Meets s event := by
  cases event with
  | press p buffer => exact fun hplain htakes => clean_of_idle (h hplain htakes).1 (h hplain htakes).2
  | _ => trivial

def events (text : List Char) (keys : List Key) : List Event :=
  keys.map fun key => .press (.of key) ⟨text, 0⟩

/-- `x`, a dot, the recorded keys dropped by leaving visual mode, and `x` again: the next dot ends. -/
theorem ends_after_escape :
    letI := asciiCase
    ∃ s, engine.exec .new (events ['a', 'b'] [.escape, .char 'x', .char '.', .char 'v', .escape,
        .char 'x']) = some s ∧
      s.lastChange = some ⟨[.char 'x'], []⟩ ∧
      ∃ depth r, (⟨s, ⟨['a', 'b'], 0⟩, none⟩ : Editor).press
        ⟨.char '.', .none, none, depth⟩ = some r := by
  let _ := asciiCase
  have halong : engine.Along MeetsOnce .new (events ['a', 'b'] [.escape, .char 'x', .char '.',
      .char 'v', .escape, .char 'x']) := by decide
  have hlast : (engine.exec .new (events ['a', 'b'] [.escape, .char 'x', .char '.', .char 'v',
      .escape, .char 'x'])).map (·.lastChange) = some (some ⟨[.char 'x'], []⟩) := by decide
  obtain ⟨s, hrun, hs⟩ := Option.map_eq_some_iff.mp hlast
  have hends := ends_of_meets (halong.mono fun _ _ => MeetsOnce.meets) hrun
  exact ⟨s, hrun, hs, hends.2 (.of (.char '.')) ⟨['a', 'b'], 0⟩⟩

/-- `x . x` leaves a change that starts with the dot command, and the next dot never ends. -/
theorem not_ends :
    letI := asciiCase
    ∃ e : Editor,
      (Editor.session (.fresh ['a', 'b', 'c'] 0)).exec (.fresh ['a', 'b', 'c'] 0)
        [.of .escape, .of (.char 'x'), .of (.char '.'), .of (.char 'x')] = some e ∧
      e.vim.lastChange = some ⟨[.char '.', .char 'x'], []⟩ ∧
      ∀ depth, e.press ⟨.char '.', .none, none, depth⟩ = none := by
  let _ := asciiCase
  refine ⟨_, rfl, rfl, fun depth => ?_⟩
  exact Editor.normal_of_dot_first depth rfl rfl

end Goble.Vim
