import Goble.Vim.Erase
import Goble.Vim.Termination

/-!
# What a dot repeats

A change is typed as one command of normal mode, and, when that opens an insert session, the text of
the session and Escape (`Change`). The engine keeps the keys recorded since the last change was
closed, so the dot repeats the change only when nothing was recorded before it: a motion, a yank, an
undo or a dot typed in between is replayed as well. A selection of visual mode is replayed through
the normal-mode table, and is no change here.

While the recording was empty (`Recorded`), the dot does what typing the keys again does: both are
one run of the tables on editors that differ in the recording only.
-/

namespace Goble.Vim

/-! ### Keys by their names -/

@[simp] theorem Key.named_named (key : Key) : key.named.named = key.named := by
  cases key <;> rfl

namespace Reading

variable {r : Reading}

theorem half_named (key : Key) : r.half key.named = r.half key := by
  unfold half
  rw [Key.named_named]

theorem next_named (key : Key) : r.next key.named = r.next key := by
  unfold next
  rw [Key.named_named]

theorem command_named (key : Key) : r.command key.named = r.command key := by
  unfold command
  rw [Key.named_named]

theorem single_map_named (r : Reading) (keys : List Key) :
    r.single (keys.map Key.named) = r.single keys := by
  induction keys generalizing r with
  | nil => rfl
  | cons key keys ih =>
    cases keys with
    | nil => simp only [List.map_cons, List.map_nil, single, half_named, command_named]
    | cons key' keys =>
      rw [List.map_cons, List.map_cons, single_cons_cons, single_cons_cons, half_named, next_named]
      rw [List.map_cons] at ih
      rw [ih]

end Reading

theorem normalKey_named (key : Key) (e : Editor) : normalKey key.named e = normalKey key e := by
  unfold normalKey
  rw [Key.named_named]

/-! ### Changes -/

/-- A change as it is typed: the keys of a command, and the text of the insert session it opens, if
it opens one. -/
structure Change where
  keys : List Key
  text : Option (List Char)

namespace Change

variable (c : Change)

/-- The keys of the whole change. -/
def typed : List Key :=
  c.keys ++
    match c.text with
    | none => []
    | some text => text.map .char ++ [.escape]

/-- What a dot after it replays. -/
def recorded : LastChange := ⟨c.keys.map Key.named, c.text.getD []⟩

end Change

namespace Editor

def reads : List Key → Editor → Editor × Call
  | [], e => (e, .consumed)
  | [key], e => normalKey key e
  | key :: keys, e => reads keys (normalKey key e).1

theorem reads_cons_cons (key key' : Key) (keys : List Key) (e : Editor) :
    reads (key :: key' :: keys) e = reads (key' :: keys) (normalKey key e).1 := rfl

theorem reads_map_named (keys : List Key) (e : Editor) :
    reads (keys.map Key.named) e = reads keys e := by
  induction keys generalizing e with
  | nil => rfl
  | cons key keys ih =>
    cases keys with
    | nil => exact normalKey_named key e
    | cons key' keys =>
      rw [List.map_cons, List.map_cons, reads_cons_cons, reads_cons_cons, normalKey_named]
      exact ih _

/-- The change is one command, it finds something to change, and it has a text exactly when it opens
an insert session. -/
structure Complete (e : Editor) (c : Change) : Prop where
  single : Reading.idle.single c.keys = true
  escape : .escape ∉ c.keys
  takes : takes (reads c.keys e) = true
  opens : opens (reads c.keys e) = c.text.isSome

theorem command_of_half {e : Editor} {key : Key} (h : e.vim.reading.half key = true) :
    (normalKey key e).1.vim.command = (e.record key.named).vim.command := by
  unfold Reading.half at h
  unfold normalKey
  cases hpending : e.vim.pending with
  | some pending => exact command_normalPending _ _ _
  | none =>
    have hreading : e.vim.reading.pending = none := hpending
    rw [hreading] at h
    cases hkey : key.named with
    | char c =>
      rw [hkey] at h
      dsimp only
      split_ifs with hdigit
      · exact pushCount_command _ _
      · have hc := (of_decide_eq_true h).resolve_left hdigit
        simp only [List.mem_cons, List.not_mem_nil, or_false] at hc
        rcases hc with rfl | rfl | rfl | rfl | rfl | rfl | rfl | rfl | rfl | rfl <;> rfl
    | _ => simp [hkey] at h

theorem reads_single {r : Reading} {keys : List Key} (h : r.single keys = true) :
    ∃ init key r', keys = init ++ [key] ∧ r'.half key = false ∧ ∀ e : Editor, e.vim.reading = r →
      ∃ g, reads keys e = normalKey key g ∧ g.vim.reading = r' ∧ g.vim.mode = e.vim.mode ∧
        Kept e g ∧
        (e.vim.replaying = 0 → g.vim.command = e.vim.command ++ init.map Key.named) := by
  induction keys generalizing r with
  | nil => cases h
  | cons key keys ih =>
    cases keys with
    | nil =>
      rw [Reading.single, Bool.and_eq_true, Bool.not_eq_true'] at h
      exact ⟨[], key, r, rfl, h.1, fun e he => ⟨e, rfl, he, rfl, rfl, fun _ => by simp⟩⟩
    | cons key' keys =>
      rw [Reading.single_cons_cons, Bool.and_eq_true] at h
      obtain ⟨init, last, r', hkeys, hhalf, hreads⟩ := ih h.2
      refine ⟨key :: init, last, r', by rw [hkeys]; rfl, hhalf, fun e he => ?_⟩
      have hpress : e.vim.reading.half key = true := he ▸ h.1
      obtain ⟨hconsumed, hmode⟩ := normalKey_of_half hpress
      have hkept := kept_normalKey key e
      have hnext : (normalKey key e).1.vim.reading = r.next key := by
        have hsettle := settle_normalKey key e
        rw [hconsumed, he] at hsettle
        exact hsettle
      obtain ⟨g, hg, hreading, hgmode, hgkept, hcommand⟩ := hreads _ hnext
      refine ⟨g, hg, hreading, hgmode.trans hmode, hkept.trans hgkept, fun hreplaying => ?_⟩
      rw [hcommand (hkept.replaying.trans hreplaying), command_of_half hpress,
        record_command hreplaying, List.append_assoc]
      rfl

end Editor

/-! ### What a command does is in its keys -/

def Reading.opening (r : Reading) (key : Key) : Bool :=
  match r.pending, key.named with
  | none, .char c => ¬r.digit c ∧ c ∈ ['i', 'a', 'I', 'A', 'C', 's', 'S']
  | some (.operator operator), .char _ | some (.textObject operator _), .char _
  | some (.operatorFind operator _), .char _ => operator = .change
  | _, _ => false

variable {k : Option Clipboard} {call : Call}

namespace Editor

variable {e g : Editor} {key : Key}

theorem takes_of_opens {x : Editor × Call} (h : opens x = true) : takes x = true := by
  obtain ⟨e, call⟩ := x
  cases call with
  | applyOperator operator range linewise =>
    cases operator with
    | change => exact decide_eq_true ⟨nofun, of_decide_eq_true h⟩
    | _ => cases h
  | enterInsert place => rfl
  | _ => cases h

theorem opens_applyOperator {operator : Operator} {range : Range} {linewise : Bool}
    (h : takes (e, .applyOperator operator range linewise) = true) :
    opens (e, .applyOperator operator range linewise) = decide (operator = .change) := by
  cases operator with
  | change => exact decide_eq_true (of_decide_eq_true h).2
  | _ => rfl

theorem opens_operate {operator : Operator} {range : Option Range}
    (h : takes (e, operate operator range) = true) :
    opens (e, operate operator range) = decide (operator = .change) := by
  cases range with
  | none => cases h
  | some range => exact opens_applyOperator h

theorem opens_normalCommand {c : Char} (h : takes (normalCommand c e) = true) :
    opens (normalCommand c e) = decide (c ∈ ['i', 'a', 'I', 'A', 'C', 's', 'S']) := by
  unfold normalCommand at h ⊢
  split at h
  all_goals first | cases h; done | rfl | exact opens_applyOperator h | (split at h <;> cases h)

theorem opens_gCommand (h : takes (gCommand key e) = true) : opens (gCommand key e) = false := by
  unfold gCommand at h ⊢
  split at h
  · dsimp only at h ⊢
    split at h
    all_goals first | cases h | exact opens_applyOperator h
  · cases h

theorem opens_normalPending {pending : Pending} {r : Reading} (hr : r.pending = some pending)
    (h : takes (normalPending pending key.named e) = true) :
    opens (normalPending pending key.named e) = r.opening key := by
  unfold Reading.opening
  rw [hr]
  unfold normalPending at h ⊢
  cases pending with
  | g => exact opens_gCommand h
  | register | find | visualObject =>
    cases hkey : key.named <;> rw [hkey] at h
    all_goals first | cases h | (dsimp only at h; split at h <;> cases h)
  | replace =>
    cases key.named <;> rfl
  | operatorFind operator motion | textObject operator around =>
    cases hkey : key.named <;> rw [hkey] at h
    all_goals first | exact opens_operate h | cases h
  | operator operator =>
    cases hkey : key.named <;> rw [hkey] at h
    case char c =>
      dsimp only at h ⊢
      split_ifs at h ⊢
      all_goals first | cases h | exact opens_applyOperator h | exact opens_operate h
    all_goals cases h

theorem opens_normalKey (h : takes (normalKey key e) = true) :
    opens (normalKey key e) = e.vim.reading.opening key := by
  unfold normalKey at h ⊢
  cases hpending : e.vim.pending with
  | some pending =>
    rw [hpending] at h
    exact opens_normalPending hpending h
  | none =>
    have hreading : e.vim.reading.pending = none := hpending
    unfold Reading.opening
    rw [hpending] at h
    rw [hreading]
    cases hkey : key.named <;> rw [hkey] at h
    case char c =>
      have hdigit : e.vim.reading.digit c ↔
          c.isDigit = true ∧ (c ≠ '0' ∨ e.vim.count.isSome = true) := Iff.rfl
      simp only [hdigit] at h ⊢
      split_ifs at h ⊢ with hd
      · cases h
      · rw [opens_normalCommand h]
        simp [hd]
    all_goals cases h

/-- The keys that turn to another mode. -/
def turning : List (Option Char) := [some 'R', some 'v', some 'V']

theorem mode_normalPending (pending : Pending) (key : Key) (e : Editor) :
    (normalPending pending key e).1.vim.mode = e.vim.mode := by
  unfold normalPending
  cases pending with
  | g =>
    unfold gCommand
    dsimp only
    split
    · split <;> rfl
    · rfl
  | register =>
    dsimp only
    split
    · split <;> rfl
    · rfl
  | operator operator =>
    dsimp only
    split
    · split_ifs
      · exact pushCount_mode _ _
      all_goals rfl
    · rfl
  | textObject | find | operatorFind | replace | visualObject =>
    dsimp only
    split <;> rfl

theorem mode_normalKey (h : e.vim.reading.command key ∉ turning) :
    (normalKey key e).1.vim.mode = e.vim.mode := by
  unfold normalKey
  cases hpending : e.vim.pending with
  | some pending => exact (mode_normalPending _ _ _).trans (record_mode e _)
  | none =>
    have hreading : e.vim.reading.pending = none := hpending
    cases hkey : key.named with
    | char c =>
      have hdigit : e.vim.reading.digit c ↔
          c.isDigit = true ∧ (c ≠ '0' ∨ e.vim.count.isSome = true) := Iff.rfl
      dsimp only
      split_ifs with hd
      · exact (pushCount_mode _ _).trans (record_mode _ _)
      · have hcommand : e.vim.reading.command key = some c := by
          simp only [Reading.command, hreading, hkey, hdigit, if_neg hd]
        rw [hcommand] at h
        refine Eq.trans ?_ (record_mode e (.char c))
        unfold normalCommand
        split
        all_goals first | rfl | (split <;> rfl) | exact absurd h (by decide)
    | _ => rfl

theorem command_of_takes (h : takes (normalKey key e) = true) :
    e.vim.reading.command key ∉ turning := by
  intro hmem
  have hnot : ∀ c, c = 'R' ∨ c = 'v' ∨ c = 'V' → e.vim.reading.command key ≠ some c := by
    intro c hc hcommand
    have hc' : c.isDigit = false := by rcases hc with rfl | rfl | rfl <;> rfl
    obtain ⟨hpending, hkey⟩ := (Reading.command_eq_some hc').mp hcommand
    have hnone : e.vim.pending = none := hpending
    unfold normalKey at h
    rw [hnone, hkey] at h
    rcases hc with rfl | rfl | rfl <;> cases h
  simp only [turning, List.mem_cons, List.not_mem_nil, or_false] at hmem
  rcases hmem with hmem | hmem | hmem
  · exact hnot 'R' (.inl rfl) hmem
  · exact hnot 'v' (.inr (.inl rfl)) hmem
  · exact hnot 'V' (.inr (.inr rfl)) hmem

variable {r : Editor × VimOutcome}

theorem mode_of_shape (h : Shape e call r) (hmode : e.vim.mode = .normal)
    (hopens : opens (e, call) = false) :
    r.1.vim.mode = .normal := by
  cases h with
  | stay wrote => exact wrote.mode.trans hmode
  | home wrote => exact wrote.mode.trans hmode
  | place n wrote => exact wrote.mode.trans hmode
  | leave => rfl
  | enter report => cases hopens
  | @edit _ w b wrote takes =>
    unfold rememberChange VimState.rememberChange
    split <;> exact wrote.mode.trans hmode
  | change b wrote takes opens => cases opens.symm.trans hopens
  | scrap => exact hmode
  | undo =>
    unfold undo
    split
    · exact hmode
    · rfl

/-! ### Recording -/

theorem lastChange_of_shape (h : Shape e call r) (hreplaying : e.vim.replaying = 0)
    (htakes : takes (e, call) = true) (hopens : opens (e, call) = false) :
    r.1.vim.lastChange = some ⟨e.vim.command, e.vim.insertText⟩ := by
  cases h with
  | stay wrote quiet takes => cases takes.symm.trans htakes
  | home wrote empty takes => cases takes.symm.trans htakes
  | place n wrote takes => cases takes.symm.trans htakes
  | leave => cases htakes
  | enter report => cases hopens
  | @edit _ w b wrote =>
    have hnot : ¬w.vim.replaying > 0 := by
      rw [wrote.replaying, hreplaying]
      exact Nat.lt_irrefl 0
    simp only [rememberChange, VimState.rememberChange, snapshot, VimState.snapshot, if_neg hnot,
      Option.getD_none, wrote.command, wrote.insertText]
  | change b wrote takes opens => cases opens.symm.trans hopens
  | scrap past => exact absurd (of_decide_eq_true htakes) (Nat.not_lt.mpr past)
  | undo => cases htakes

/-- What an insert session starts with. -/
structure Opened (e f : Editor) : Prop where
  mode : f.vim.mode = .insert
  insertKeys : f.vim.insertKeys = e.vim.command
  insertText : f.vim.insertText = []
  replaying : f.vim.replaying = e.vim.replaying

theorem opened_of_shape (h : Shape e call r) (hopens : opens (e, call) = true) : Opened e r.1 := by
  have htakes := takes_of_opens hopens
  cases h with
  | stay wrote quiet takes => cases takes.symm.trans htakes
  | home wrote empty takes => cases takes.symm.trans htakes
  | place n wrote takes => cases takes.symm.trans htakes
  | leave => cases htakes
  | enter report => exact ⟨rfl, rfl, rfl, rfl⟩
  | edit b wrote takes opens => cases opens.symm.trans hopens
  | change b wrote => exact ⟨rfl, wrote.command, rfl, wrote.replaying⟩
  | scrap past => exact absurd (of_decide_eq_true htakes) (Nat.not_lt.mpr past)
  | undo => cases htakes

/-! ### Typing -/

/-- Presses of the keys, without modifiers but shift. -/
def Types (keys : List Key) (ps : List Press) : Prop :=
  ps.map (·.key) = keys ∧ ∀ p ∈ ps,
    p.modifiers.command = false ∧ p.modifiers.ctrl = false ∧ p.modifiers.alt = false

theorem Types.cons {key : Key} {keys : List Key} {ps : List Press} (h : Types (key :: keys) ps) :
    ∃ p rest, ps = p :: rest ∧ p.key = key ∧ (key ≠ .escape → p.isPlain) ∧
      (key = .escape → p.isEscape) ∧ Types keys rest := by
  obtain ⟨hkeys, hbare⟩ := h
  obtain ⟨p, rest, rfl, hkey, hrest⟩ := List.map_eq_cons_iff.mp hkeys
  obtain ⟨hcommand, hctrl, halt⟩ := hbare p List.mem_cons_self
  refine ⟨p, rest, rfl, hkey, fun hne => ⟨?_, hcommand, hctrl, halt⟩, fun heq => .inl ?_,
    hrest, fun q hq => hbare q (List.mem_cons_of_mem p hq)⟩
  · rintro (hesc | ⟨hesc, -⟩)
    · exact hne (hkey.symm.trans hesc)
    · cases hctrl.symm.trans hesc
  · exact hkey.trans heq

theorem Types.append {keys more : List Key} {ps : List Press} (h : Types (keys ++ more) ps) :
    ∃ qs rs, ps = qs ++ rs ∧ Types keys qs ∧ Types more rs := by
  obtain ⟨hkeys, hbare⟩ := h
  obtain ⟨qs, rs, rfl, hqs, hrs⟩ := List.map_eq_append_iff.mp hkeys
  exact ⟨qs, rs, rfl, ⟨hqs, fun p hp => hbare p (List.mem_append_left rs hp)⟩, hrs,
    fun p hp => hbare p (List.mem_append_right qs hp)⟩

theorem Types.nil {ps : List Press} (h : Types [] ps) : ps = [] := List.map_eq_nil_iff.mp h.1

def withClipboard (e : Editor) (k : Option Clipboard) : Editor := { e with clipboard := k }

theorem withClipboard_of_eq (h : e.clipboard = k) :
    e.withClipboard k = e := by
  rw [← h]
  rfl

theorem readsDot_of_command (h : e.vim.reading.command key ≠ some '.') :
    e.readsDot key = false := by
  rw [← Bool.not_eq_true, readsDot_iff]
  exact h

section Typing

variable [CaseTable] (start : Editor) {keys : List Key} {ps : List Press}

/-- **Typing a command** makes the call its keys end in. -/
theorem exec_reads (h : e.vim.reading.single keys = true) (hesc : .escape ∉ keys)
    (hps : Types keys ps) (hk : ∀ p ∈ ps, p.clipboard = k) (hmode : e.vim.mode = .normal) :
    (session start).exec e ps = some (perform (reads keys (e.withClipboard k))).1 := by
  induction keys generalizing e ps with
  | nil => cases h
  | cons key keys ih =>
    obtain ⟨p, rest, rfl, hkey, hplain, -, hrest⟩ := hps.cons
    have hp : p.isPlain := hplain fun heq => hesc (heq ▸ List.mem_cons_self)
    have hfacing : e.facing p = e.withClipboard k := by
      rw [← hk p List.mem_cons_self]
      rfl
    have hcommand : e.vim.reading.command key ≠ some '.' := by
      cases keys with
      | nil =>
        rw [Reading.single, Bool.and_eq_true, decide_eq_true_eq] at h
        exact h.2
      | cons key' keys =>
        rw [Reading.single_cons_cons, Bool.and_eq_true] at h
        exact Reading.command_of_half h.1
    have hpress : e.press p = some (perform (normalKey key (e.withClipboard k))) := by
      rw [press_normal hp hmode (hkey ▸ readsDot_of_command hcommand), hkey, hfacing]
    have hstep : (session start).step e p =
        some (perform (normalKey key (e.withClipboard k))).1 := by
      change (e.press p).map Prod.fst = _
      rw [hpress]
      rfl
    rw [Machine.exec_cons, hstep, Option.bind_some]
    cases keys with
    | nil => rw [hrest.nil]; rfl
    | cons key' keys =>
      rw [Reading.single_cons_cons, Bool.and_eq_true] at h
      have hhalf : (e.withClipboard k).vim.reading.half key = true := h.1
      obtain ⟨hconsumed, hmode'⟩ := normalKey_of_half hhalf
      have hkept := kept_normalKey key (e.withClipboard k)
      have hperform : (perform (normalKey key (e.withClipboard k))).1 =
          (normalKey key (e.withClipboard k)).1 := by
        rw [← Prod.eta (normalKey key (e.withClipboard k)), hconsumed]
        rfl
      have hreading := reading_press key (e.withClipboard k)
      rw [hperform] at hreading ⊢
      rw [ih (hreading ▸ h.2) (fun hmem => hesc (List.mem_cons_of_mem key hmem)) hrest
        (fun q hq => hk q (List.mem_cons_of_mem p hq)) (hmode'.trans hmode), reads_cons_cons]
      have hclipboard : (normalKey key (e.withClipboard k)).1.clipboard = k := hkept.clipboard
      rw [withClipboard_of_eq hclipboard]

/-- The replay of a command makes the call its keys end in. -/
theorem typed_reads (h : r.1.vim.reading.single keys = true) :
    typed keys r = perform (reads keys r.1) := by
  induction keys generalizing r with
  | nil => cases h
  | cons key keys ih =>
    cases keys with
    | nil => rfl
    | cons key' keys =>
      rw [Reading.single_cons_cons, Bool.and_eq_true] at h
      obtain ⟨hconsumed, -⟩ := normalKey_of_half h.1
      have hperform : perform (normalKey key r.1) = ((normalKey key r.1).1, .consumed) := by
        rw [← Prod.eta (normalKey key r.1), hconsumed]
        rfl
      have hreading := reading_press key r.1
      rw [← hreading] at h
      rw [reads_cons_cons]
      refine (ih h.2).trans ?_
      rw [hperform]

structure Written (e f : Editor) (text : List Char) : Prop where
  mode : f.vim.mode = .insert
  insertKeys : f.vim.insertKeys = e.vim.insertKeys
  insertText : f.vim.insertText = e.vim.insertText ++ text
  replaying : f.vim.replaying = e.vim.replaying
  shown : ∀ o, f.erase = (inserted text (e.erase, o)).1.erase

omit [CaseTable] in
theorem erase_inserted {text : List Char} {r' : Editor × VimOutcome} (h : r.1.erase = r'.1.erase) :
    (inserted text r).1.erase = (inserted text r').1.erase := by
  induction text generalizing r r' with
  | nil => exact h
  | cons c text ih =>
    have hchar : (r.1.insert (.char c)).1.erase = (r'.1.insert (.char c)).1.erase := by
      change (r.1.erase.insert (.char c)).1.erase = (r'.1.erase.insert (.char c)).1.erase
      rw [h]
    exact ih hchar

theorem exec_text {text : List Char} (hmode : e.vim.mode = .insert)
    (hps : Types (text.map .char) ps) :
    ∃ f, (session start).exec e ps = some f ∧ Written e f text := by
  induction text generalizing e ps with
  | nil =>
    rw [hps.nil]
    exact ⟨e, rfl, hmode, rfl, by simp, rfl, fun _ => rfl⟩
  | cons c text ih =>
    obtain ⟨p, rest, rfl, hkey, hplain, -, hrest⟩ := hps.cons
    have hpress : e.press p = some ((e.facing p).insert (.char c)) := by
      rw [press_of_plain (hplain nofun), hmode, hkey]
    have hstep : (session start).step e p = some ((e.facing p).insert (.char c)).1 := by
      change (e.press p).map Prod.fst = _
      rw [hpress]
      rfl
    obtain ⟨f, hrun, hf⟩ := ih (e := ((e.facing p).insert (.char c)).1) hmode hrest
    refine ⟨f, Machine.exec_cons_eq_some.mpr ⟨_, hstep, hrun⟩, hf.mode, hf.insertKeys, ?_,
      hf.replaying, fun o => ?_⟩
    · rw [hf.insertText]
      exact List.append_assoc e.vim.insertText [c] text
    · exact (hf.shown .edited).trans (erase_inserted rfl)

theorem exec_escape (hps : Types [.escape] ps) :
    ∃ p, (session start).exec e ps = some (e.facing p).escape.1 := by
  obtain ⟨p, rest, rfl, hkey, -, hesc, hrest⟩ := hps.cons
  refine ⟨p, ?_⟩
  have hpress : e.press p = some (e.facing p).escape := by
    unfold press handle
    have hescape : p.key = .escape ∨ (p.modifiers.ctrl ∧ p.key = .char '[') := hesc rfl
    rw [if_pos hescape]
  rw [hrest.nil, Machine.exec_cons]
  change ((e.press p).map Prod.fst).bind _ = _
  rw [hpress]
  rfl

omit [CaseTable] in
theorem erase_escape (e : Editor) : e.escape.1.erase = e.erase.escape.1.erase := by
  have hmode : e.erase.vim.mode = e.vim.mode := rfl
  unfold escape
  rw [hmode]
  cases e.vim.mode with
  | insert =>
    have hfinish := (erase_finishInsert e.vim).trans (erase_finishInsert e.vim.erase).symm
    exact congrArg (fun s : VimState =>
      (((⟨s, e.buffer, none⟩ : Editor).setMode .normal).clearPending).setCaret
        (normalCaret e.buffer.caret e.buffer.len)) hfinish
  | visual | replace => rfl
  | normal =>
    have hpending : e.erase.vim.isPending = e.vim.isPending := rfl
    dsimp only
    rw [hpending]
    split_ifs <;> rfl

end Typing

/-! ### Motions -/

end Editor

/-- Whether a key is part of a motion. -/
def Reading.moves (r : Reading) (key : Key) : Bool :=
  match r.pending, key.named with
  | none, .char c =>
    r.digit c ∨ c ∈ ['h', 'l', ' ', 'j', 'k', 'w', 'W', 'b', 'B', 'e', 'E', '0', '^', 'G', '$', '%',
      ';', ',', 'f', 'F', 't', 'T', 'g']
  | some (.find _), .char _ => true
  | some .g, .char c => c ∈ ['g', 'e', 'E']
  | _, _ => false

/-- Whether every key is part of a motion. -/
def Reading.moving : Reading → List Key → Bool
  | _, [] => true
  | r, key :: keys => r.moves key && moving (r.next key) keys

def Call.isMotion : Call → Bool
  | .consumed | .moveCaret _ _ | .findMove _ _ => true
  | _ => false

namespace Editor

variable {e f : Editor} {key : Key}

theorem isMotion_normalCommand {c : Char}
    (hc : c ∈ ['h', 'l', ' ', 'j', 'k', 'w', 'W', 'b', 'B', 'e', 'E', '0', '^', 'G', '$', '%', ';',
      ',', 'f', 'F', 't', 'T', 'g']) (e : Editor) :
    (normalCommand c e).2.isMotion = true ∧ c ≠ '.' ∧ some c ∉ turning := by
  simp only [List.mem_cons, List.not_mem_nil, or_false] at hc
  refine ⟨?_, ?_, ?_⟩
  · rcases hc with rfl | rfl | rfl | rfl | rfl | rfl | rfl | rfl | rfl | rfl | rfl | rfl | rfl |
      rfl | rfl | rfl | rfl | rfl | rfl | rfl | rfl | rfl | rfl
    all_goals first | rfl | (simp only [normalCommand]; split <;> rfl)
  · rintro rfl
    exact absurd hc (by decide)
  · intro hmem
    simp only [turning, List.mem_cons, List.not_mem_nil, or_false, Option.some.injEq] at hmem
    rcases hmem with rfl | rfl | rfl <;> exact absurd hc (by decide)

theorem moves_normalKey (h : e.vim.reading.moves key = true) :
    (normalKey key e).2.isMotion = true ∧ e.vim.reading.command key ≠ some '.' ∧
      e.vim.reading.command key ∉ turning := by
  unfold Reading.moves at h
  unfold Reading.command normalKey
  cases hpending : e.vim.pending with
  | none =>
    have hreading : e.vim.reading.pending = none := hpending
    rw [hreading] at h ⊢
    cases hkey : key.named with
    | char c =>
      rw [hkey] at h
      have hdigit : e.vim.reading.digit c ↔
          c.isDigit = true ∧ (c ≠ '0' ∨ e.vim.count.isSome = true) := Iff.rfl
      simp only [hdigit]
      split_ifs with hd
      · exact ⟨rfl, nofun, by decide⟩
      · have hc := (of_decide_eq_true h).resolve_left hd
        have hmotion := isMotion_normalCommand hc (e.record (.char c))
        exact ⟨hmotion.1, fun heq => hmotion.2.1 (Option.some.inj heq), hmotion.2.2⟩
    | _ => simp [hkey] at h
  | some pending =>
    have hreading : e.vim.reading.pending = some pending := hpending
    rw [hreading] at h ⊢
    refine ⟨?_, nofun, show none ∉ turning by decide⟩
    cases pending with
    | find motion =>
      cases hkey : key.named with
      | char c => rfl
      | _ => simp [hkey] at h
    | g =>
      cases hkey : key.named with
      | char c =>
        rw [hkey] at h
        have hc := of_decide_eq_true h
        simp only [List.mem_cons, List.not_mem_nil, or_false] at hc
        rcases hc with rfl | rfl | rfl <;> rfl
      | _ => simp [hkey] at h
    | _ => cases h

section Motions

variable [CaseTable] {start : Editor} {keys : List Key} {ms : List Press}

theorem of_isMotion (h : call.isMotion = true) (e : Editor) :
    ∃ w b, Wrote e w ∧ (perform (e, call)).1 = { w with buffer := b } := by
  cases call with
  | consumed => exact ⟨e, e.buffer, .refl e, rfl⟩
  | moveCaret count step =>
    simp only [perform, moveCaret]
    split_ifs
    · exact ⟨e.dropCounts, _, rfl, rfl⟩
    · exact ⟨e.dropCounts, _, rfl, rfl⟩
  | findMove motion count =>
    simp only [perform, findMove]
    split_ifs
    · exact ⟨e, e.buffer, .refl e, rfl⟩
    · split
      · exact ⟨e, _, .refl e, rfl⟩
      · exact ⟨e, e.buffer, .refl e, rfl⟩
  | _ => cases h

theorem exec_moving (h : e.vim.reading.moving keys = true) (hms : Types keys ms)
    (hmode : e.vim.mode = .normal) (hf : (session start).exec e ms = some f) :
    f.vim.mode = .normal ∧ f.vim.lastChange = e.vim.lastChange ∧
      f.vim.reading = e.vim.reading.after keys := by
  induction keys generalizing e ms with
  | nil =>
    rw [hms.nil] at hf
    obtain rfl := Option.some.inj hf
    exact ⟨hmode, rfl, rfl⟩
  | cons key keys ih =>
    rw [Reading.moving, Bool.and_eq_true] at h
    obtain ⟨p, rest, rfl, hkey, hplain, -, hrest⟩ := hms.cons
    have hmoves : (e.facing p).vim.reading.moves key = true := h.1
    obtain ⟨hmotion, hdot, hturn⟩ := moves_normalKey hmoves
    have hp : p.isPlain := by
      refine hplain fun heq => ?_
      rw [heq] at hmoves
      unfold Reading.moves at hmoves
      split at hmoves <;> simp_all [Key.named]
    have hpress : e.press p = some (perform (normalKey key (e.facing p))) := by
      rw [press_normal hp hmode (hkey ▸ readsDot_of_command hdot), hkey]
    obtain ⟨g, hstep, hrun⟩ := Machine.exec_cons_eq_some.mp hf
    have hg : g = (perform (normalKey key (e.facing p))).1 := by
      change (e.press p).map Prod.fst = some g at hstep
      rw [hpress] at hstep
      exact (Option.some.inj hstep).symm
    obtain ⟨w, b, hwrote, hw⟩ := of_isMotion hmotion (normalKey key (e.facing p)).1
    have hkept := kept_normalKey key (e.facing p)
    have hmode' : g.vim.mode = .normal := by
      rw [hg, hw]
      exact hwrote.mode.trans ((mode_normalKey hturn).trans hmode)
    have hreading : g.vim.reading = e.vim.reading.next key := by
      rw [hg]
      exact reading_press key (e.facing p)
    have hchange : g.vim.lastChange = e.vim.lastChange := by
      rw [hg, hw]
      exact hwrote.lastChange.trans hkept.lastChange
    obtain ⟨hfmode, hfchange, hfreading⟩ := ih (hreading ▸ h.2) hrest hmode' hrun
    exact ⟨hfmode, hfchange.trans hchange, by rw [hfreading, hreading]; rfl⟩

end Motions

/-! ### Clipboard registers -/

theorem readRegister_of_none (h : e.clipboard = none) (name : Char) :
    e.readRegister name = e.erase.readRegister name := by
  unfold readRegister
  rw [h]
  rfl

theorem readRegister_of_aside {name : Char} (hname : name ∉ ['+', '*'])
    (h : e.vim.unnamedClipboard = false) : e.readRegister name = e.erase.readRegister name := by
  have h' : e.erase.vim.unnamedClipboard = false := h
  have hname' : ¬(name = '+' ∨ name = '*') := by simpa using hname
  unfold readRegister
  simp only [if_neg hname', h, h', and_false, Bool.false_eq_true, if_false]
  rfl

def namesClipboard : Reading → List Key → Bool
  | _, [] => false
  | r, key :: keys =>
    (r.pending = some .register && (key.named = .char '+' || key.named = .char '*')) ||
      namesClipboard (r.next key) keys

def Aside (f : Editor) (keys : List Key) (k : Option Clipboard) : Prop :=
  k = none ∨ (f.vim.unnamedClipboard = false ∧ f.vim.register ∉ ['+', '*'] ∧
    namesClipboard .idle keys = false)

/-! ### Commands on editors that differ in the recording -/

theorem shown_reads (keys : List Key) (e : Editor) :
    shown (reads keys e) = shown (reads keys e.erase) := by
  induction keys generalizing e with
  | nil => rfl
  | cons key keys ih =>
    cases keys with
    | nil => exact shown_normalKey e key
    | cons key' keys =>
      have hkey : (normalKey key e).1.erase = (normalKey key e.erase).1.erase :=
        congrArg Prod.fst (shown_normalKey e key)
      rw [reads_cons_cons, reads_cons_cons, ih, hkey, ← ih]

theorem opens_of_shown {x y : Editor × Call} (h : shown x = shown y) : opens x = opens y := by
  obtain ⟨e, call⟩ := x
  obtain ⟨f, call'⟩ := y
  obtain ⟨herase, rfl⟩ : e.erase = f.erase ∧ call = call' := Prod.ext_iff.mp h
  have hbuffer : e.buffer = f.buffer := congrArg (·.buffer) herase
  cases call with
  | applyOperator operator range linewise =>
    cases operator with
    | change => simp only [opens, hbuffer]
    | _ => rfl
  | _ => rfl

theorem kept_reads (keys : List Key) (e : Editor) : Kept e (reads keys e).1 := by
  induction keys generalizing e with
  | nil => rfl
  | cons key keys ih =>
    cases keys with
    | nil => exact kept_normalKey key e
    | cons key' keys => exact (kept_normalKey key e).trans (ih _)

/-- The call the keys end in does not read the clipboard. -/
def Unread (keys : List Key) (e : Editor) : Prop :=
  (reads keys e).1.readRegister (reads keys e).1.vim.register =
    (reads keys e).1.erase.readRegister (reads keys e).1.vim.register

theorem shown_command [CaseTable] {keys : List Key} (hunread : Unread keys e) :
    shown (perform (reads keys e)) = shown (perform (reads keys e.erase)) := by
  have hreads := shown_reads keys e
  have hleft : shown (perform (reads keys e)) =
      shown (perform ((reads keys e).1.erase, (reads keys e).2)) :=
    shown_perform _ fun _ _ _ => hunread
  have hright : shown (perform (reads keys e.erase)) =
      shown (perform ((reads keys e.erase).1.erase, (reads keys e.erase).2)) := by
    refine shown_perform _ fun _ _ _ => readRegister_of_none ?_ _
    exact (kept_reads keys e.erase).clipboard
  obtain ⟨herase, hcall⟩ : (reads keys e).1.erase = (reads keys e.erase).1.erase ∧
    (reads keys e).2 = (reads keys e.erase).2 := Prod.ext_iff.mp hreads
  rw [hleft, hright, herase, hcall]

theorem register_reads {r : Reading} {keys : List Key} (h : r.single keys = true)
    (hreading : e.vim.reading = r) (hnames : namesClipboard r keys = false)
    (hregister : e.vim.register ∉ ['+', '*']) :
    (reads keys e).1.vim.register ∉ ['+', '*'] := by
  induction keys generalizing e r with
  | nil => exact hregister
  | cons key keys ih =>
    rw [namesClipboard, Bool.or_eq_false_iff] at hnames
    have hkey : (normalKey key e).1.vim.register ∉ ['+', '*'] := by
      rcases register_normalKey key e with hsame | ⟨hpending, hkey⟩
      · rw [hsame]
        exact hregister
      · intro hmem
        have hpending' : r.pending = some .register := hreading ▸ hpending
        simp only [List.mem_cons, List.not_mem_nil, or_false] at hmem
        rcases hmem with hmem | hmem <;> rw [hkey, hmem, hpending'] at hnames <;>
          exact absurd hnames.1 (by decide)
    cases keys with
    | nil => exact hkey
    | cons key' keys =>
      rw [Reading.single_cons_cons, Bool.and_eq_true] at h
      have hhalf : e.vim.reading.half key = true := hreading ▸ h.1
      have hnext : (normalKey key e).1.vim.reading = r.next key := by
        have hsettle := settle_normalKey key e
        rw [(normalKey_of_half hhalf).1, hreading] at hsettle
        exact hsettle
      exact ih h.2 hnext hnames.2 hkey

theorem unread_of_aside {keys : List Key} (h : Aside e keys k)
    (hsingle : Reading.idle.single keys = true) (hidle : e.vim.reading = .idle) :
    Unread keys (e.withClipboard k) := by
  have hkept := kept_reads keys (e.withClipboard k)
  rcases h with rfl | ⟨hunnamed, hregister, hnames⟩
  · exact readRegister_of_none hkept.clipboard _
  · refine readRegister_of_aside ?_ ?_
    · exact register_reads (e := e.withClipboard k) hsingle hidle hnames hregister
    · have hsame : (reads keys (e.withClipboard k)).1.vim.unnamedClipboard =
          e.vim.unnamedClipboard := congrArg (·.vim.unnamedClipboard) hkept
      exact hsame.trans hunnamed

/-! ### The two sides -/

theorem erase_startReplay (h : e.vim.reading = .idle) : e.startReplay.erase = e.erase := by
  have hcount : e.vim.count = none := congrArg Reading.count h
  have hcount2 : e.vim.count2 = none := congrArg Reading.count2 h
  simp only [startReplay, erase, VimState.erase, VimState.dropCounts, hcount, hcount2]

theorem opens_again {e f : Editor} {keys : List Key} (hsingle : Reading.idle.single keys = true)
    (he : e.vim.reading = .idle) (hf : f.vim.reading = .idle)
    (htakes : takes (reads keys e) = true) (hopens : opens (reads keys e) = false) :
    opens (reads keys f) = false := by
  obtain ⟨init, key, r, -, -, hreads⟩ := reads_single hsingle
  obtain ⟨g, hg, hgr, -⟩ := hreads e he
  obtain ⟨g', hg', hgr', -⟩ := hreads f hf
  rw [hg] at htakes hopens
  rw [hg', ← Bool.not_eq_true]
  intro hagain
  rw [opens_normalKey (takes_of_opens hagain), hgr', ← hgr, ← opens_normalKey htakes, hopens]
    at hagain
  cases hagain

section Sides

variable [CaseTable] (start : Editor) {c : Change} {p : Press}

theorem mode_again {e f : Editor} {keys : List Key} (hsingle : Reading.idle.single keys = true)
    (he : e.vim.reading = .idle) (hf : f.vim.reading = .idle) (hmode : f.vim.mode = .normal)
    (htakes : takes (reads keys e) = true) (hopens : opens (reads keys f) = false) :
    (perform (reads keys f)).1.vim.mode = .normal := by
  obtain ⟨init, key, r, -, -, hreads⟩ := reads_single hsingle
  obtain ⟨g, hg, hgr, -⟩ := hreads e he
  obtain ⟨g', hg', hgr', hgmode', -⟩ := hreads f hf
  have hturn : g'.vim.reading.command key ∉ turning := by
    rw [hgr', ← hgr]
    exact command_of_takes (hg ▸ htakes)
  rw [hg'] at hopens ⊢
  refine mode_of_shape (shape_perform _ _) ?_ hopens
  exact (mode_normalKey hturn).trans (hgmode'.trans hmode)

theorem reading_command {f : Editor} {keys : List Key}
    (hsingle : Reading.idle.single keys = true) (hf : f.vim.reading = .idle) :
    (perform (reads keys f)).1.vim.reading = Reading.idle.after keys := by
  have htyped : typed keys (f, .consumed) = perform (reads keys f) :=
    typed_reads (r := (f, .consumed)) (hf ▸ hsingle)
  rw [← htyped, typed_reading]
  exact congrArg (Reading.after · keys) hf

/-- What a change leaves, with nothing recorded: the command, and if it has opened a session the text
and the escape. -/
def outcomeOf (c : Change) (e : Editor) : Editor :=
  let r := perform (reads c.keys e.erase)
  if r.1.vim.mode = .insert then (inserted (c.text.getD []) r).1.escape.1.erase else r.1.erase

omit [CaseTable] in
theorem escape_of_insert (h : e.vim.mode = .insert) :
    e.escape.1.vim.mode = .normal ∧ e.escape.1.vim.reading = .idle := by
  unfold escape
  rw [h]
  exact ⟨rfl, rfl⟩

omit [CaseTable] in
theorem inserted_mode (text : List Char) (r : Editor × VimOutcome) :
    (inserted text r).1.vim.mode = r.1.vim.mode := by
  induction text generalizing r with
  | nil => rfl
  | cons c text ih => exact ih _

omit [CaseTable] in
theorem erase_escape_of_eq {e f : Editor} (h : e.erase = f.erase) :
    e.escape.1.erase = f.escape.1.erase := by
  rw [erase_escape, h, ← erase_escape]

theorem press_dot (hmode : f.vim.mode = .normal) (hidle : f.vim.reading = .idle)
    (hchange : f.vim.lastChange = some c.recorded) (hsingle : Reading.idle.single c.keys = true)
    (hthere : (perform (reads c.keys f.erase)).1.vim.mode = .insert ∨ c.text.getD [] = [])
    (hp : p.isPlain) (hdot : p.key = .char '.') (hdepth : 0 < p.depth) :
    ∃ g o, f.press p = some (g, o) ∧ g.erase = outcomeOf c f := by
  obtain ⟨depth, hd⟩ := Nat.exists_eq_succ_of_ne_zero (Nat.ne_of_gt hdepth)
  have hpending : f.vim.pending = none := congrArg Reading.pending hidle
  have hcount : f.vim.count = none := congrArg Reading.count hidle
  have hcount2 : f.vim.count2 = none := congrArg Reading.count2 hidle
  have hreads : (f.facing p).readsDot p.key = true := by
    rw [hdot]
    simp [readsDot, facing, hpending]
  have hcounts : (f.facing p).vim.counts = 1 := by
    simp [VimState.counts, facing, hcount, hcount2]
  have hread : Reading.idle.readsDot c.recorded.keys = false :=
    Reading.readsDot_of_single ((Reading.single_map_named _ _).trans hsingle)
  have hpress : f.press p = Editor.normal (depth + 1) p.key (f.facing p) := by
    rw [press_of_plain hp, hmode, hd]
  have honce := dot_once depth hreads hchange hcounts hread
  rw [← hpress] at honce
  refine ⟨_, _, honce, ?_⟩
  -- the editor the replay starts in shows what `f` does
  generalize hg₀ : ((f.facing p).record p.key).startReplay = g₀
  have herase : g₀.erase = f.erase := by
    rw [← hg₀, erase_startReplay (by rw [record_reading]; exact hidle), erase_record]
    rfl
  have hidle₀ : g₀.vim.reading = .idle := (congrArg (·.vim.reading) herase).trans hidle
  have hunread : Unread c.keys g₀ := by
    refine readRegister_of_none ?_ _
    rw [(kept_reads c.keys g₀).clipboard, ← hg₀]
    rfl
  have hshown := congrArg Prod.fst (shown_command hunread)
  rw [herase] at hshown
  have htyped : typed c.recorded.keys (g₀, .consumed) = perform (reads c.keys g₀) := by
    rw [← reads_map_named]
    refine typed_reads (r := (g₀, .consumed)) ?_
    rw [hidle₀]
    exact (Reading.single_map_named _ _).trans hsingle
  change (replayed c.recorded (g₀, .consumed)).1.erase = _
  rw [replayed, htyped]
  generalize perform (reads c.keys g₀) = x at hshown ⊢
  unfold outcomeOf
  dsimp only
  generalize perform (reads c.keys f.erase) = y at hshown hthere ⊢
  have hxy : x.1.erase = y.1.erase := hshown
  have hxmode : x.1.vim.mode = y.1.vim.mode := congrArg (·.vim.mode) hxy
  change (closed (inserted (c.text.getD []) x)).1.erase = _
  unfold closed
  rw [inserted_mode, hxmode]
  split_ifs with hinsert
  · exact erase_escape_of_eq (erase_inserted hxy)
  · rw [hthere.resolve_left hinsert]
    exact hxy

theorem exec_again {qs : List Press} (hmode : f.vim.mode = .normal) (hidle : f.vim.reading = .idle)
    (hsingle : Reading.idle.single c.keys = true) (hesc : .escape ∉ c.keys)
    (haside : Aside f c.keys k)
    (hnone : c.text = none → (perform (reads c.keys f.erase)).1.vim.mode ≠ .insert)
    (hsome : ∀ text, c.text = some text →
      (perform (reads c.keys f.erase)).1.vim.mode = .insert ∨
        (text = [] ∧ (perform (reads c.keys f.erase)).1.vim.mode = .normal ∧
          (perform (reads c.keys f.erase)).1.vim.reading = .idle)) (hqs : Types c.typed qs)
    (hk : ∀ q ∈ qs, q.clipboard = k) :
    ∃ h, (session start).exec f qs = some h ∧ h.erase = outcomeOf c f := by
  obtain ⟨ks, rest, rfl, hks, hrest⟩ := hqs.append
  have hcommand : (session start).exec f ks =
      some (perform (reads c.keys (f.withClipboard k))).1 :=
    exec_reads start (hidle ▸ hsingle) hesc hks (fun q hq => hk q (List.mem_append_left rest hq)) hmode
  have hshown := congrArg Prod.fst (shown_command (unread_of_aside haside hsingle hidle))
  rw [Machine.exec_append, hcommand, Option.bind_some]
  have hwith : (f.withClipboard k).erase = f.erase := rfl
  rw [hwith] at hshown
  generalize perform (reads c.keys (f.withClipboard k)) = x at hshown ⊢
  unfold outcomeOf
  dsimp only
  generalize perform (reads c.keys f.erase) = y at hshown hnone hsome ⊢
  have hxy : x.1.erase = y.1.erase := hshown
  have hxmode : x.1.vim.mode = y.1.vim.mode := congrArg (·.vim.mode) hxy
  have hxreading : x.1.vim.reading = y.1.vim.reading := congrArg (·.vim.reading) hxy
  cases htext : c.text with
  | none =>
    rw [htext] at hrest
    rw [hrest.nil, if_neg (hnone htext)]
    exact ⟨x.1, rfl, hxy⟩
  | some text =>
    rw [htext] at hrest
    obtain ⟨ts, es, rfl, hts, hes⟩ := hrest.append
    rcases hsome text htext with hinsert | ⟨rfl, hnormal, hyidle⟩
    · obtain ⟨w, hw, hwritten⟩ := exec_text start (hxmode.trans hinsert) hts
      obtain ⟨q, hq⟩ := exec_escape start (e := w) hes
      refine ⟨_, by rw [Machine.exec_append, hw]; exact hq, ?_⟩
      rw [if_pos hinsert]
      refine erase_escape_of_eq ?_
      have hfacing : (w.facing q).erase = w.erase := rfl
      rw [hfacing, hwritten.shown y.2]
      exact erase_inserted hxy
    · obtain ⟨q, hq⟩ := exec_escape start (e := x.1) hes
      refine ⟨_, by rw [Machine.exec_append, hts.nil]; exact hq, ?_⟩
      rw [if_neg (by rw [hnormal]; exact nofun), ← hxy]
      -- Escape in normal mode with nothing half typed is the host's
      have hescape : (x.1.facing q).escape.1 = x.1.facing q := by
        have hmode' : (x.1.facing q).vim.mode = .normal := hxmode.trans hnormal
        have hpending : (x.1.facing q).vim.isPending = false := by
          have hidle' : (x.1.facing q).vim.reading = .idle := hxreading.trans hyidle
          have h1 : (x.1.facing q).vim.pending = none := congrArg Reading.pending hidle'
          have h2 : (x.1.facing q).vim.count = none := congrArg Reading.count hidle'
          have h3 : (x.1.facing q).vim.count2 = none := congrArg Reading.count2 hidle'
          simp [VimState.isPending, h1, h2, h3]
        unfold escape
        rw [hmode']
        simp only [hpending, Bool.false_eq_true, if_false]
      rw [hescape]
      rfl

/-! ### The recording of a change -/

omit [CaseTable] in
theorem command_reads {e : Editor} {keys : List Key} (hsingle : Reading.idle.single keys = true)
    (hidle : e.vim.reading = .idle) (hreplaying : e.vim.replaying = 0)
    (hcommand : e.vim.command = []) (htakes : takes (reads keys e) = true) :
    (reads keys e).1.vim.command = keys.map Key.named := by
  obtain ⟨init, key, r, rfl, -, hreads⟩ := reads_single hsingle
  obtain ⟨g, hg, -, -, hkept, hgcommand⟩ := hreads e hidle
  rw [hg] at htakes ⊢
  rw [command_normalKey (takes_of_isAnswer htakes),
    record_command (hkept.replaying.trans hreplaying), hgcommand hreplaying, hcommand,
    List.map_append]
  rfl

theorem recorded_of_complete {ps : List Press} (hmode : e.vim.mode = .normal)
    (hidle : e.vim.reading = .idle) (hreplaying : e.vim.replaying = 0) (hc : Complete e c)
    (hcommand : e.vim.command = [])
    (hdirect : c.text = none → e.vim.insertText = [] ∧ Reading.idle.after c.keys = .idle)
    (hps : Types c.typed ps) (hk : ∀ p ∈ ps, p.clipboard = e.clipboard) :
    ∃ f, (session start).exec e ps = some f ∧ f.vim.lastChange = some c.recorded ∧
      f.vim.mode = .normal ∧ f.vim.reading = .idle := by
  obtain ⟨ks, rest, rfl, hks, hrest⟩ := hps.append
  have hexec : (session start).exec e ks = some (perform (reads c.keys e)).1 := by
    have hrun := exec_reads start (hidle ▸ hc.single) hc.escape hks
      (fun q hq => hk q (List.mem_append_left rest hq)) hmode
    rwa [withClipboard_of_eq rfl] at hrun
  have hkept := kept_reads c.keys e
  have hcommand' := command_reads hc.single hidle hreplaying hcommand hc.takes
  have hreplaying' := hkept.replaying.trans hreplaying
  have hshape := shape_perform (reads c.keys e).1 (reads c.keys e).2
  rw [Machine.exec_append, hexec, Option.bind_some]
  unfold Change.recorded
  cases htext : c.text with
  | none =>
    have hopens : opens (reads c.keys e) = false := by rw [hc.opens, htext]; rfl
    obtain ⟨hinsertText, hafter⟩ := hdirect htext
    rw [htext] at hrest
    rw [hrest.nil]
    refine ⟨_, rfl, ?_, mode_again hc.single hidle hidle hmode hc.takes hopens, ?_⟩
    · rw [lastChange_of_shape hshape hreplaying' hc.takes hopens, hcommand',
        hkept.insertText.trans hinsertText]
      rfl
    · rw [reading_command hc.single hidle, hafter]
  | some text =>
    have hopens : opens (reads c.keys e) = true := by rw [hc.opens, htext]; rfl
    have hopened := opened_of_shape hshape hopens
    rw [htext] at hrest
    obtain ⟨ts, es, rfl, hts, hes⟩ := hrest.append
    obtain ⟨w, hw, hwritten⟩ := exec_text start hopened.mode hts
    obtain ⟨q, hq⟩ := exec_escape start (e := w) hes
    have hescape := escape_of_insert (e := w.facing q) hwritten.mode
    refine ⟨_, by rw [Machine.exec_append, hw]; exact hq, ?_, hescape⟩
    have hkeys : w.vim.insertKeys = c.keys.map Key.named :=
      (hwritten.insertKeys.trans hopened.insertKeys).trans hcommand'
    have hne : w.vim.insertKeys ≠ [] := by
      rw [hkeys]
      intro hnil
      have hsingle := hc.single
      rw [List.map_eq_nil_iff.mp hnil] at hsingle
      cases hsingle
    have hzero : w.vim.replaying = 0 :=
      (hwritten.replaying.trans hopened.replaying).trans hreplaying'
    have htyped : w.vim.insertText = text := by
      rw [hwritten.insertText, hopened.insertText]
      rfl
    have hmode' : (w.facing q).vim.mode = .insert := hwritten.mode
    unfold escape
    rw [hmode']
    change w.vim.finishInsert.lastChange = _
    unfold VimState.finishInsert
    rw [if_neg hne]
    simp only [hzero, if_true, hkeys, htyped, Option.getD_some]

end Sides

/-! ### Replays end where they started -/

section Replaying

variable {press : Key → Editor → Option (Editor × VimOutcome)} {change : LastChange}
  {r r' : Editor × VimOutcome}

theorem replaying_foldlM
    (hpress : ∀ key e r, press key e = some r → r.1.vim.replaying = e.vim.replaying)
    {keys : List Key} (hr : keys.foldlM (fun r key => press key r.1) r = some r') :
    r'.1.vim.replaying = r.1.vim.replaying := by
  induction keys generalizing r with
  | nil =>
    obtain rfl := Option.some.inj hr
    rfl
  | cons key keys ih =>
    obtain ⟨next, hnext, hrest⟩ := Option.bind_eq_some_iff.mp hr
    exact (ih hrest).trans (hpress key r.1 next hnext)

theorem replaying_replayTimes
    (hpress : ∀ key e r, press key e = some r → r.1.vim.replaying = e.vim.replaying) {n : Nat}
    (hr : replayTimes press change n r = some r') : r'.1.vim.replaying = r.1.vim.replaying := by
  induction n generalizing r with
  | zero =>
    obtain rfl := Option.some.inj hr
    rfl
  | succ n ih =>
    obtain ⟨once, honce, hrest⟩ := Option.bind_eq_some_iff.mp hr
    obtain ⟨keyed, hkeyed, honce⟩ := Option.bind_eq_some_iff.mp honce
    obtain rfl := Option.some.inj honce
    refine (ih hrest).trans ?_
    change (closed (inserted change.insert keyed)).1.vim.replaying = _
    rw [replaying_closed, replaying_inserted]
    exact replaying_foldlM hpress hkeyed

variable [CaseTable] {e : Editor}

theorem replaying_normal {depth : Nat} {key : Key} (hr : e.normal depth key = some r) :
    r.1.vim.replaying = e.vim.replaying := by
  have hkey : (perform (normalKey key e)).1.vim.replaying = e.vim.replaying :=
    (replaying_of_shape (shape_perform _ _)).trans (kept_normalKey key e).replaying
  induction depth generalizing e key r with
  | zero =>
    rw [Editor.normal, normalWith] at hr
    split_ifs at hr
    obtain rfl := Option.some.inj hr
    exact hkey
  | succ depth ih =>
    rw [Editor.normal, normalWith] at hr
    split_ifs at hr
    · have hrecord := (kept_record e key).replaying
      rw [dotWith] at hr
      split at hr
      · obtain rfl := Option.some.inj hr
        exact hrecord
      · obtain ⟨last, hreplay, rfl⟩ := Option.map_eq_some_iff.mp hr
        have hpress : ∀ key e r, Editor.normal depth key e = some r →
            r.1.vim.replaying = e.vim.replaying := fun key e r hr =>
          ih hr ((replaying_of_shape (shape_perform _ _)).trans (kept_normalKey key e).replaying)
        have hlast : last.1.vim.replaying = (e.record key).vim.replaying + 1 :=
          replaying_replayTimes hpress hreplay
        change last.1.vim.replaying - 1 = _
        rw [hlast, hrecord]
        exact Nat.add_sub_cancel _ _
    · obtain rfl := Option.some.inj hr
      exact hkey

theorem replaying_press {p : Press} (hr : e.press p = some r) :
    r.1.vim.replaying = e.vim.replaying := by
  have hhandled := handled hr
  change r.1.vim.replaying = (e.facing p).vim.replaying
  cases hhandled with
  | escape esc =>
    unfold escape VimState.finishInsert
    dsimp only
    split
    · split_ifs <;> rfl
    · rfl
    · rfl
    · split_ifs <;> rfl
  | ignored => rfl
  | redo =>
    unfold redo
    split <;> rfl
  | insert => exact replaying_insert _ _
  | replace =>
    unfold replace
    split
    · dsimp only
      split <;> rfl
    · rfl
  | normal =>
    exact (replaying_of_shape (shape_perform _ _)).trans (kept_normalKey _ _).replaying
  | visual =>
    exact (replaying_of_shape (shape_perform _ _)).trans (kept_visualKey _ _).replaying
  | dot dot replay => exact replaying_normal replay

theorem replaying_of_run {events : List Event} {s : VimState}
    (hrun : engine.exec .new events = some s) : s.replaying = 0 := by
  refine Machine.exec_invariant (C := fun _ _ => True) (I := fun s => s.replaying = 0) ?_ rfl
    (Machine.along_true _ _) hrun
  intro s event s' hs _ hstep
  cases event with
  | press p buffer =>
    obtain ⟨r, hr, rfl⟩ := Option.map_eq_some_iff.mp hstep
    exact (replaying_press hr).trans hs
  | reset =>
    obtain rfl := Option.some.inj hstep
    exact hs
  | setUnnamedClipboard on =>
    obtain rfl := Option.some.inj hstep
    exact hs

end Replaying

/-! ### Dots repeat changes -/

/-- When the dot repeats the change: nothing was recorded when it was typed; it leaves no count
behind, as one before `D` is; and the session it opens, it opens where the dot is pressed as well. -/
structure Repeats (s : VimState) (f : Editor) (c : Change) : Prop where
  command : s.command = []
  direct : c.text = none → s.insertText = [] ∧ Reading.idle.after c.keys = .idle
  there : ∀ text, c.text = some text →
    opens (reads c.keys f) = true ∨ (text = [] ∧ Reading.idle.after c.keys = .idle)

section Dots

variable [CaseTable]

/-- **The dot repeats the last change.** In every state the engine reaches, in normal mode with
nothing half typed, let a change be typed and then motions. If nothing was recorded before the
change, the dot replays the keys of the change and no others, ends, leaves the text and the caret as
typing the change again would, and leaves normal mode with nothing half typed. -/
theorem dot_repeats {events : List Event} {s : VimState} {b : VimBuffer} {k k' : Option Clipboard}
    {c : Change} {motions : List Key} {ps ms qs : List Press} {f : Editor} {p : Press}
    (hrun : engine.exec .new events = some s) (hmode : s.mode = .normal)
    (hidle : s.reading = .idle) (hc : Complete ⟨s, b, k⟩ c) (hps : Types c.typed ps)
    (hk : ∀ q ∈ ps, q.clipboard = k) (hmoving : Reading.idle.moving motions = true)
    (hwhole : Reading.idle.after motions = .idle) (hms : Types motions ms)
    (hf : (session ⟨s, b, k⟩).exec ⟨s, b, k⟩ (ps ++ ms) = some f) (hqs : Types c.typed qs)
    (hk' : ∀ q ∈ qs, q.clipboard = k') (haside : Aside f c.keys k') (hp : p.isPlain)
    (hdot : p.key = .char '.') (hdepth : 0 < p.depth) (hrepeats : Repeats s f c) :
    f.vim.lastChange = some c.recorded ∧
      ∃ g h o, f.press p = some (g, o) ∧ (session ⟨s, b, k⟩).exec f qs = some h ∧
        g.buffer = h.buffer ∧ g.vim.mode = .normal ∧ g.vim.reading = .idle := by
  have hidle₀ : (⟨s, b, k⟩ : Editor).vim.reading = .idle := hidle
  obtain ⟨f₁, hf₁, hchange₁, hmode₁, hidle₁⟩ := recorded_of_complete ⟨s, b, k⟩
    (e := ⟨s, b, k⟩) hmode hidle (replaying_of_run hrun) hc hrepeats.command hrepeats.direct hps hk
  rw [Machine.exec_append, hf₁, Option.bind_some] at hf
  obtain ⟨hfmode, hfchange, hfidle⟩ := exec_moving (hidle₁ ▸ hmoving) hms hmode₁ hf
  rw [hidle₁, hwhole] at hfidle
  have hchange := hfchange.trans hchange₁
  -- the mode the command ends in where the dot is pressed
  have hopens : opens (reads c.keys f.erase) = opens (reads c.keys f) :=
    (opens_of_shown (shown_reads c.keys f)).symm
  have hinsert : opens (reads c.keys f.erase) = true →
      (perform (reads c.keys f.erase)).1.vim.mode = .insert :=
    fun h => (opened_of_shape (shape_perform _ _) h).mode
  have hnormal : opens (reads c.keys f.erase) = false →
      (perform (reads c.keys f.erase)).1.vim.mode = .normal :=
    mode_again (f := f.erase) hc.single hidle₀ hfidle hfmode hc.takes
  have hreading := reading_command (f := f.erase) hc.single hfidle
  have hnone : c.text = none → (perform (reads c.keys f.erase)).1.vim.mode = .normal := by
    intro htext
    have hclosed : opens (reads c.keys (⟨s, b, k⟩ : Editor)) = false := by
      rw [hc.opens, htext]
      rfl
    exact hnormal (opens_again hc.single hidle₀ hfidle hc.takes hclosed)
  have hsome : ∀ text, c.text = some text →
      (perform (reads c.keys f.erase)).1.vim.mode = .insert ∨
        (text = [] ∧ (perform (reads c.keys f.erase)).1.vim.mode = .normal ∧
          (perform (reads c.keys f.erase)).1.vim.reading = .idle) := by
    intro text htext
    by_cases hopen : opens (reads c.keys f.erase) = true
    · exact .inl (hinsert hopen)
    · have hclosed : opens (reads c.keys f.erase) = false := by simpa using hopen
      obtain ⟨hnil, hafter⟩ :=
        (hrepeats.there text htext).resolve_left (fun h => hopen (hopens.trans h))
      exact .inr ⟨hnil, hnormal hclosed, hreading.trans hafter⟩
  have hthere : (perform (reads c.keys f.erase)).1.vim.mode = .insert ∨ c.text.getD [] = [] := by
    cases htext : c.text with
    | none => exact .inr rfl
    | some text => exact (hsome text htext).imp_right fun h => h.1
  obtain ⟨g, o, hg, hgerase⟩ :=
    press_dot hfmode hfidle hchange hc.single hthere hp hdot hdepth
  obtain ⟨h, hh, hherase⟩ := exec_again ⟨s, b, k⟩ hfmode hfidle hc.single hc.escape
    haside (fun htext => by rw [hnone htext]; exact nofun) hsome hqs hk'
  have hshow : (outcomeOf c f).vim.mode = .normal ∧ (outcomeOf c f).vim.reading = .idle := by
    unfold outcomeOf
    dsimp only
    split_ifs with hin
    · exact escape_of_insert ((inserted_mode _ _).trans hin)
    · cases htext : c.text with
      | none => exact ⟨hnone htext, hreading.trans (hrepeats.direct htext).2⟩
      | some text => exact ((hsome text htext).resolve_left hin).2
  refine ⟨hchange, g, h, o, hg, hh, ?_, ?_, ?_⟩
  · exact congrArg (·.buffer) (hgerase.trans hherase.symm)
  · exact (congrArg (·.vim.mode) hgerase).trans hshow.1
  · exact (congrArg (·.vim.reading) hgerase).trans hshow.2

end Dots

/-- `cw`, a typed character and Escape, the next word, and the dot. -/
theorem dot_repeats_change_word :
    letI := asciiCase
    let b : VimBuffer := ⟨['a', 'b', ' ', 'c', 'd'], 0⟩
    ∃ (s : VimState) (f g h : Editor) (o : VimOutcome),
      engine.exec .new [.press (.of .escape) b] = some s ∧
      (session ⟨s, b, none⟩).exec ⟨s, b, none⟩
        ([.of (.char 'c'), .of (.char 'w'), .of (.char 'X'), .of .escape] ++ [.of (.char 'w')]) =
        some f ∧
      f.vim.lastChange = some ⟨[.char 'c', .char 'w'], ['X']⟩ ∧
      f.press (.of (.char '.')) = some (g, o) ∧
      (session ⟨s, b, none⟩).exec f
        [.of (.char 'c'), .of (.char 'w'), .of (.char 'X'), .of .escape] = some h ∧
      g.buffer = h.buffer ∧ g.vim.mode = .normal ∧ g.vim.reading = .idle := by
  let _ := asciiCase
  intro b
  let c : Change := ⟨[.char 'c', .char 'w'], some ['X']⟩
  let ks : List Press := [.of (.char 'c'), .of (.char 'w'), .of (.char 'X'), .of .escape]
  have hks : Types c.typed ks := ⟨rfl, by decide⟩
  have hms : Types [.char 'w'] [.of (.char 'w')] := ⟨rfl, by decide⟩
  have hclipboard : ∀ q ∈ ks, q.clipboard = none := by decide
  have hstate : (engine.exec .new [.press (.of .escape) b]).bind (fun s =>
      ((session ⟨s, b, none⟩).exec ⟨s, b, none⟩ (ks ++ [.of (.char 'w')])).map fun f =>
        (s.mode, s.reading, s.command, takes (reads c.keys ⟨s, b, none⟩),
          opens (reads c.keys ⟨s, b, none⟩), opens (reads c.keys f))) =
      some (.normal, .idle, [], true, true, true) := by decide
  obtain ⟨s, hs, hstate⟩ := Option.bind_eq_some_iff.mp hstate
  obtain ⟨f, hf, hstate⟩ := Option.map_eq_some_iff.mp hstate
  simp only [Prod.mk.injEq] at hstate
  obtain ⟨hmode, hidle, hcommand, htakes, hopens, hthere⟩ := hstate
  have hcomplete : Complete ⟨s, b, none⟩ c := ⟨by decide, by decide, htakes, hopens⟩
  have hrepeats : Repeats s f c := ⟨hcommand, nofun, fun _ _ => .inl hthere⟩
  have hp : (Press.of (.char '.')).isPlain := by decide
  obtain ⟨hchange, g, h, o, hg, hh, hbuffer, hmode', hidle'⟩ :=
    dot_repeats hs hmode hidle hcomplete hks hclipboard (by decide) (by decide) hms hf hks
      hclipboard (.inl rfl) hp rfl (by decide) hrepeats
  exact ⟨s, f, g, h, o, hs, hf, hchange, hg, hh, hbuffer, hmode', hidle'⟩

/-- `l` is recorded before `x`, so the dot moves before it deletes; and a selection of visual mode is
replayed into visual mode. -/
theorem not_dot_repeats :
    letI := asciiCase
    let start : Editor := fresh ['a', 'b', 'c', 'd', 'e', 'f'] 0
    (∃ e f g h : Editor,
      (session start).exec start [.of .escape, .of (.char 'l')] = some e ∧ e.vim.mode = .normal ∧
      e.vim.reading = .idle ∧ (session start).exec e [.of (.char 'x')] = some f ∧
      f.vim.lastChange = some ⟨[.char 'l', .char 'x'], []⟩ ∧
      (session start).exec f [.of (.char '.')] = some g ∧
      (session start).exec f [.of (.char 'x')] = some h ∧
      g.buffer = ⟨['a', 'c', 'e', 'f'], 2⟩ ∧ h.buffer = ⟨['a', 'd', 'e', 'f'], 1⟩) ∧
    ∃ g : Editor,
      (session start).exec start
        [.of .escape, .of (.char 'v'), .of (.char 'd'), .of (.char '.')] = some g ∧
      g.vim.mode = .visual .charwise ∧ g.vim.pending = some (.operator .delete) ∧
      g.buffer = ⟨['b', 'c', 'd', 'e', 'f'], 0⟩ := by
  refine ⟨⟨_, _, _, _, rfl, rfl, rfl, rfl, rfl, rfl, rfl, rfl, rfl⟩, _, rfl, rfl, rfl, rfl⟩

end Editor

end Goble.Vim
