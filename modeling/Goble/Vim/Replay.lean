import Goble.Vim.Reading
import Goble.Vim.Session

/-!
# Replays

`.` feeds the recorded keys to the normal-mode table again. When none of them is read as the dot
command the replay is a plain iteration (`replayed`), one level deep whatever the count
(`dot_of_clean`). When the first of them is, every depth is too small (`normal_of_dot_first`).
-/

namespace Goble.Vim

def inserted (text : List Char) (r : Editor × VimOutcome) : Editor × VimOutcome :=
  text.foldl (fun r c => r.1.insert (.char c)) r

def closed (r : Editor × VimOutcome) : Editor × VimOutcome :=
  if r.1.vim.mode = .insert then (r.1.escape.1, r.2) else r

section Definitions

variable [CaseTable]

/-- The keys of a change, none of them the dot command. -/
def typed (keys : List Key) (r : Editor × VimOutcome) : Editor × VimOutcome :=
  keys.foldl (fun r key => Editor.perform (normalKey key r.1)) r

/-- One iteration of a replay that reads no dot command. -/
def replayed (change : LastChange) (r : Editor × VimOutcome) : Editor × VimOutcome :=
  closed (inserted change.insert (typed change.keys r))

/-- A whole replay that reads no dot command. -/
def Editor.redone (change : LastChange) (e : Editor) : Editor × VimOutcome :=
  let r := (replayed change)^[max e.vim.counts 1] (e.startReplay, .consumed)
  (r.1.endReplay change e.clipboard, r.2)

end Definitions

namespace Editor

/-- The change is made at least once. -/
theorem exists_repeats (s : VimState) : ∃ n, max s.counts 1 = n + 1 :=
  Nat.exists_eq_succ_of_ne_zero (by omega)

/-! ### What a replay leaves half typed -/

theorem insert_reading (e : Editor) (key : Key) :
    (e.insert key).1.vim.reading = e.vim.reading := by
  unfold insert
  split
  · split_ifs <;> rfl
  · split_ifs <;> rfl
  · rfl
  · rfl

theorem inserted_reading (text : List Char) (r : Editor × VimOutcome) :
    (inserted text r).1.vim.reading = r.1.vim.reading := by
  induction text generalizing r with
  | nil => rfl
  | cons c text ih => exact (ih _).trans (insert_reading _ _)

theorem closed_reading (r : Editor × VimOutcome) :
    (closed r).1.vim.reading = r.1.vim.reading ∨ (closed r).1.vim.reading = .idle := by
  unfold closed
  split_ifs with hmode
  · right
    unfold escape
    rw [hmode]
    rfl
  · exact .inl rfl

variable [CaseTable] {change : LastChange} {keys : List Key} {depth : Nat}
  {r : Editor × VimOutcome}

theorem typed_reading (keys : List Key) (r : Editor × VimOutcome) :
    (typed keys r).1.vim.reading = r.1.vim.reading.after keys := by
  induction keys generalizing r with
  | nil => rfl
  | cons key keys ih =>
    refine (ih _).trans ?_
    rw [reading_press]
    rfl

/-! ### A replay without a dot command -/

theorem foldlM_normal (h : r.1.vim.reading.readsDot keys = false) :
    keys.foldlM (fun r key => Editor.normal depth key r.1) r = some (typed keys r) := by
  induction keys generalizing r with
  | nil => rfl
  | cons key keys ih =>
    rw [Reading.readsDot, Bool.or_eq_false_iff, decide_eq_false_iff_not] at h
    have hdot : r.1.readsDot key = false := by
      rw [← Bool.not_eq_true, readsDot_iff]
      exact h.1
    rw [List.foldlM_cons, normal_of_not_dot hdot]
    exact ih (by rw [reading_press]; exact h.2)

theorem replayOnce_of_clean (h : r.1.vim.reading.readsDot change.keys = false) :
    replayOnce (Editor.normal depth) change r = some (replayed change r) := by
  unfold replayOnce
  rw [foldlM_normal h]
  rfl

/-- The reading a replay of clean keys is in between two iterations. -/
def Between (keys : List Key) (r : Editor × VimOutcome) : Prop :=
  ∃ n, r.1.vim.reading = Reading.idle.after (List.replicate n keys).flatten

theorem between_replayed (h : Between change.keys r) : Between change.keys (replayed change r) := by
  obtain ⟨n, hn⟩ := h
  rcases closed_reading (inserted change.insert (typed change.keys r)) with hreading | hreading
  · refine ⟨n + 1, hreading.trans ?_⟩
    rw [inserted_reading, typed_reading, hn, ← Reading.after_append, List.replicate_succ',
      List.flatten_append, List.flatten_singleton]
  · exact ⟨0, hreading⟩

theorem replayTimes_of_clean (hclean : Clean change.keys) (n : Nat) (h : Between change.keys r) :
    replayTimes (Editor.normal depth) change n r = some ((replayed change)^[n] r) := by
  induction n generalizing r with
  | zero => rfl
  | succ n ih =>
    obtain ⟨k, hk⟩ := h
    have honce : replayOnce (Editor.normal depth) change r = some (replayed change r) :=
      replayOnce_of_clean (hk ▸ hclean.again k)
    rw [replayTimes, honce]
    exact ih (between_replayed ⟨k, hk⟩)

section Dot

variable {e : Editor} {key : Key}

omit [CaseTable] in
theorem record_lastChange : (e.record key).vim.lastChange = e.vim.lastChange :=
  (kept_record e key).lastChange

omit [CaseTable] in
theorem startReplay_reading (h : e.vim.pending = none) : e.startReplay.vim.reading = .idle := by
  change (⟨e.vim.pending, none, none⟩ : Reading) = _
  rw [h]
  rfl

omit [CaseTable] in
theorem pending_of_readsDot (h : e.readsDot key = true) : e.vim.pending = none := by
  simp only [readsDot, Bool.and_eq_true, Option.isNone_iff_eq_none] at h
  exact h.1

/-- **A replay of clean keys ends**, one level deep. -/
theorem dot_of_clean (hdot : e.readsDot key = true) (hchange : e.vim.lastChange = some change)
    (hclean : Clean change.keys) :
    e.normal (depth + 1) key = some ((e.record key).redone change) := by
  have hpending : (e.record key).vim.pending = none :=
    (congrArg Reading.pending (record_reading e key)).trans (pending_of_readsDot hdot)
  have hchange' : (e.record key).vim.lastChange = some change := record_lastChange.trans hchange
  have hreplay : replayTimes (Editor.normal depth) change (max (e.record key).vim.counts 1)
      ((e.record key).startReplay, .consumed) =
      some ((replayed change)^[max (e.record key).vim.counts 1]
        ((e.record key).startReplay, .consumed)) :=
    replayTimes_of_clean hclean _ ⟨0, startReplay_reading hpending⟩
  rw [Editor.normal, normalWith, if_pos hdot, dotWith, hchange']
  dsimp only
  rw [hreplay]
  rfl

omit [CaseTable] in
theorem counts_record (e : Editor) (key : Key) : (e.record key).vim.counts = e.vim.counts := by
  unfold record VimState.record
  split <;> rfl

theorem dot_once (depth : Nat) (hdot : e.readsDot key = true) (hchange : e.vim.lastChange = some change)
    (hcounts : e.vim.counts = 1) (hread : Reading.idle.readsDot change.keys = false) :
    e.normal (depth + 1) key =
      some ((replayed change ((e.record key).startReplay, .consumed)).1.endReplay change
          (e.record key).clipboard,
        (replayed change ((e.record key).startReplay, .consumed)).2) := by
  have hpending : (e.record key).vim.pending = none :=
    (congrArg Reading.pending (record_reading e key)).trans (pending_of_readsDot hdot)
  have hchange' : (e.record key).vim.lastChange = some change := record_lastChange.trans hchange
  have honce : replayOnce (Editor.normal depth) change ((e.record key).startReplay, .consumed) =
      some (replayed change ((e.record key).startReplay, .consumed)) :=
    replayOnce_of_clean (by rw [startReplay_reading hpending]; exact hread)
  rw [Editor.normal, normalWith, if_pos hdot, dotWith, hchange']
  dsimp only
  rw [counts_record, hcounts, Nat.max_self, replayTimes, honce]
  rfl

/-- A dot that ends has gone at least one level deep. -/
theorem exists_depth (hdot : e.readsDot key = true) (hr : e.normal depth key = some r) :
    ∃ d, depth = d + 1 := by
  cases depth with
  | zero =>
    rw [Editor.normal, normalWith, if_pos hdot] at hr
    cases hr
  | succ d => exact ⟨d, rfl⟩

theorem dot_of_no_change (hdot : e.readsDot key = true) (hchange : e.vim.lastChange = none) :
    e.normal (depth + 1) key = some (e.record key, .consumed) := by
  have hchange' : (e.record key).vim.lastChange = none := record_lastChange.trans hchange
  rw [Editor.normal, normalWith, if_pos hdot, dotWith, hchange']

/-- **A replay that starts with a dot command never ends**: it starts itself again. -/
theorem normal_of_dot_first {insert : List Char} (depth : Nat) (hpending : e.vim.pending = none)
    (hchange : e.vim.lastChange = some ⟨.char '.' :: keys, insert⟩) :
    e.normal depth (.char '.') = none := by
  have hdot : ∀ f : Editor, f.vim.pending = none → f.readsDot (.char '.') = true := by
    intro f hf
    simp [readsDot, hf]
  induction depth generalizing e with
  | zero => rw [Editor.normal, normalWith, if_pos (hdot e hpending)]
  | succ depth ih =>
    have hpending' : (e.record (.char '.')).startReplay.vim.pending = none :=
      (congrArg Reading.pending (record_reading e (.char '.'))).trans hpending
    have hchange' : (e.record (.char '.')).vim.lastChange = some ⟨.char '.' :: keys, insert⟩ :=
      record_lastChange.trans hchange
    obtain ⟨n, hn⟩ := exists_repeats (e.record (.char '.')).vim
    rw [Editor.normal, normalWith, if_pos (hdot e hpending), dotWith, hchange']
    dsimp only
    rw [hn, replayTimes, replayOnce, List.foldlM_cons, ih hpending' hchange']
    rfl

end Dot

end Editor

end Goble.Vim
