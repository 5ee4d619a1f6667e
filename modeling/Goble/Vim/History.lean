import Goble.Vim.Session

/-!
# The undo history

Every press but `u`, `Ctrl-R` and `.` either edits and puts the buffer it found on the undo stack,
or leaves both stacks alone (`Linear`). Hence after `n` edits `n` presses of `u` walk back through
the texts, and `n` presses of `Ctrl-R` walk forward again: the stacks are the two sides of one line
of texts (`At`).

One arm breaks the law. The snapshot of `r` and of replace mode is taken before the character is
looked for, so where there is none the redo stack is emptied by a press that changes nothing
(`Overwrites`).
-/

namespace Goble.Vim

/-- The undo stack with one more entry, without the oldest beyond the limit. -/
def withEntry (b : VimBuffer) (undo : List VimBuffer) : List VimBuffer :=
  if (b :: undo).length > undoLimit then (b :: undo).dropLast else b :: undo

/-- The newest entries survive as long as they fit. -/
theorem withEntry_append {b : VimBuffer} {new rest : List VimBuffer}
    (h : new.length + 1 ≤ undoLimit) :
    ∃ rest', withEntry b (new ++ rest) = b :: new ++ rest' := by
  unfold withEntry
  split_ifs with hfull
  · have hrest : rest ≠ [] := by
      rintro rfl
      simp only [List.append_nil, List.length_cons] at hfull
      omega
    exact ⟨rest.dropLast, by rw [← List.cons_append, List.dropLast_append_of_ne_nil hrest]⟩
  · exact ⟨rest, rfl⟩

namespace Editor

variable {e f : Editor} {p : Press} {o : VimOutcome}

@[simp] theorem snapshot_undo (e : Editor) :
    e.snapshot.vim.undo = withEntry e.buffer e.vim.undo := rfl

@[simp] theorem snapshot_redo (e : Editor) : e.snapshot.vim.redo = [] := rfl

@[simp] theorem rememberChange_undo (e : Editor) (insert : Option (List Char)) :
    (e.rememberChange insert).vim.undo = e.vim.undo := by
  unfold rememberChange VimState.rememberChange
  split <;> rfl

@[simp] theorem rememberChange_redo (e : Editor) (insert : Option (List Char)) :
    (e.rememberChange insert).vim.redo = e.vim.redo := by
  unfold rememberChange VimState.rememberChange
  split <;> rfl

@[simp] theorem finishInsert_undo (s : VimState) : s.finishInsert.undo = s.undo := by
  unfold VimState.finishInsert
  split <;> rfl

@[simp] theorem finishInsert_redo (s : VimState) : s.finishInsert.redo = s.redo := by
  unfold VimState.finishInsert
  split <;> rfl

/-! ### One press -/

/-- An edit adds one entry, the buffer before it, and empties redo; anything else leaves both
stacks and the text. -/
structure Linear (e f : Editor) (o : VimOutcome) : Prop where
  edited : o = .edited → f.vim.undo = withEntry e.buffer e.vim.undo ∧ f.vim.redo = []
  kept : o ≠ .edited → f.vim.undo = e.vim.undo ∧ f.vim.redo = e.vim.redo
  text : o ≠ .edited → f.buffer.text = e.buffer.text

theorem Linear.of_kept (ho : o ≠ .edited) (undo : f.vim.undo = e.vim.undo)
    (redo : f.vim.redo = e.vim.redo) (text : f.buffer.text = e.buffer.text) : Linear e f o :=
  ⟨fun h => absurd h ho, fun _ => ⟨undo, redo⟩, fun _ => text⟩

theorem Linear.of_edited (undo : f.vim.undo = withEntry e.buffer e.vim.undo)
    (redo : f.vim.redo = []) : Linear e f .edited :=
  ⟨fun _ => ⟨undo, redo⟩, fun h => absurd rfl h, fun h => absurd rfl h⟩

def Overwrites (e : Editor) (p : Press) : Prop :=
  p.isPlain ∧
    ((e.vim.mode = .replace ∧ p.key.isChar) ∨
      (e.vim.mode = .normal ∧ e.vim.pending = some .replace ∧ p.key.named.isChar))

instance : Decidable (e.Overwrites p) := inferInstanceAs (Decidable (_ ∧ _))

theorem linear_of_shape {call : Call} {r : Editor × VimOutcome} (h : Shape e call r)
    (hundo : call ≠ .undo)
    (hover : ∀ count c, call = .overwrite count c → e.buffer.caret < e.buffer.len) :
    Linear e r.1 r.2 := by
  cases h with
  | stay wrote quiet =>
    exact .of_kept (by rcases quiet with rfl | rfl <;> exact nofun) wrote.undo wrote.redo
      wrote.text
  | home wrote =>
    exact .of_kept nofun wrote.undo wrote.redo wrote.text
  | place n wrote =>
    exact .of_kept nofun wrote.undo wrote.redo wrote.text
  | leave => exact .of_kept nofun rfl rfl rfl
  | enter report =>
    exact .of_kept (by rcases report with rfl | ⟨-, rfl, -⟩ <;> exact nofun) rfl rfl rfl
  | edit b wrote =>
    exact .of_edited (by simp [wrote.buffer, wrote.undo]) (by simp)
  | change b wrote =>
    refine .of_edited ?_ rfl
    exact (congrArg₂ withEntry wrote.buffer wrote.undo)
  | scrap past => exact absurd (hover _ _ rfl) (Nat.not_lt.mpr past)
  | undo => exact absurd rfl hundo

theorem linear_escape (e : Editor) : Linear e e.escape.1 e.escape.2 := by
  unfold escape
  dsimp only
  split
  · exact .of_kept nofun (finishInsert_undo _) (finishInsert_redo _) rfl
  · exact .of_kept nofun rfl rfl rfl
  · exact .of_kept nofun rfl rfl rfl
  · split_ifs <;> exact .of_kept nofun rfl rfl rfl

theorem linear_insert (e : Editor) (key : Key) : Linear e (e.insert key).1 (e.insert key).2 := by
  unfold insert
  split
  · split_ifs
    · exact .of_kept nofun rfl rfl rfl
    · exact .of_edited rfl rfl
  · split_ifs
    · exact .of_kept nofun rfl rfl rfl
    · exact .of_edited rfl rfl
  · exact .of_edited rfl rfl
  · exact .of_kept nofun rfl rfl rfl

theorem linear_replace (key : Key)
    (h : key.isChar → e.buffer.caret < e.buffer.len) :
    Linear e (e.replace key).1 (e.replace key).2 := by
  unfold replace
  split
  · dsimp only
    split
    · exact .of_edited rfl rfl
    · next hnone =>
      exact absurd (h rfl) (Nat.not_lt.mpr (VimBuffer.replaceWith_eq_none.mp hnone))
  · exact .of_kept nofun rfl rfl rfl

/-- A press other than `u`, `Ctrl-R` and `.`, that overwrites nothing past the end. -/
structure Counted (e : Editor) (p : Press) : Prop where
  undo : ¬e.isUndo p
  redo : ¬(p.isRedo ∧ e.vim.mode = .normal)
  dot : ¬e.isDot p
  overwrites : e.Overwrites p → e.buffer.caret < e.buffer.len

theorem counted_iff : Counted e p ↔
    ¬e.isUndo p ∧ ¬(p.isRedo ∧ e.vim.mode = .normal) ∧ ¬e.isDot p ∧
      (e.Overwrites p → e.buffer.caret < e.buffer.len) :=
  ⟨fun h => ⟨h.undo, h.redo, h.dot, h.overwrites⟩, fun h => ⟨h.1, h.2.1, h.2.2.1, h.2.2.2⟩⟩

instance : Decidable (Counted e p) := decidable_of_iff _ counted_iff.symm

section Runs

theorem Linear.of_table {g : Editor} (hkept : Kept e g) (h : Linear g f o) : Linear e f o where
  edited ho := hkept.buffer ▸ hkept.undo ▸ h.edited ho
  kept ho := hkept.undo ▸ hkept.redo ▸ h.kept ho
  text ho := hkept.buffer ▸ h.text ho

variable [CaseTable]

theorem linear_normalKey {key : Key}
    (hundo : ¬(e.vim.pending = none ∧ key.named = .char 'u'))
    (hover : e.vim.pending = some .replace → key.named.isChar →
      e.buffer.caret < e.buffer.len) :
    Linear e (perform (normalKey key e)).1 (perform (normalKey key e)).2 := by
  have hkept := kept_normalKey key e
  refine .of_table hkept (linear_of_shape (shape_perform _ _) ?_ ?_)
  · exact fun h => hundo (normalKey_eq_undo h)
  · intro count c h
    obtain ⟨hpending, hkey⟩ := normalKey_eq_overwrite h
    rw [hkept.buffer]
    exact hover hpending (by rw [hkey]; rfl)

theorem linear_visualKey (key : Key) (e : Editor) :
    Linear e (perform (visualKey key e)).1 (perform (visualKey key e)).2 := by
  have hundo : (visualKey key e).2 ≠ .undo := by
    intro h
    have hfrom := fromVisual key e
    rw [h] at hfrom
    cases hfrom
  have hover : ∀ count c, (visualKey key e).2 ≠ .overwrite count c := by
    intro count c h
    have hfrom := fromVisual key e
    rw [h] at hfrom
    cases hfrom
  exact .of_table (kept_visualKey key e)
    (linear_of_shape (shape_perform _ _) hundo fun count c h => absurd h (hover count c))

theorem linear_press {r : Editor × VimOutcome} (hp : Counted e p) (h : e.press p = some r) :
    Linear e r.1 r.2 := by
  have hfacing : Linear (e.facing p) r.1 r.2 → Linear e r.1 r.2 :=
    fun hl => ⟨hl.edited, hl.kept, hl.text⟩
  apply hfacing
  have hhandled := handled h
  clear h hfacing
  cases hhandled with
  | escape esc => exact linear_escape _
  | ignored esc plain quiet =>
    exact .of_kept (by rcases quiet with rfl | rfl <;> exact nofun) rfl rfl rfl
  | redo redo mode => exact absurd ⟨redo, mode⟩ hp.redo
  | insert plain mode => exact linear_insert _ _
  | replace plain mode =>
    exact linear_replace p.key fun hc => hp.overwrites ⟨plain, .inl ⟨mode, hc⟩⟩
  | normal plain mode dot =>
    refine linear_normalKey (fun h => hp.undo ⟨plain, mode, h.1, ?_⟩) fun hpending hc =>
      hp.overwrites ⟨plain, .inr ⟨mode, hpending, hc⟩⟩
    exact Key.eq_of_named h.2 (by decide)
  | visual plain mode => exact linear_visualKey _ _
  | dot dot replay => exact absurd dot hp.dot

/-! ### Edits along a run -/

/-- The buffers the edits of a run found, the oldest first. -/
def edits : Editor → List Press → List VimBuffer
  | _, [] => []
  | e, p :: ps =>
    match e.press p with
    | some (f, .edited) => e.buffer :: edits f ps
    | some (f, _) => edits f ps
    | none => []

theorem session_step {start : Editor} :
    (session start).step e p = some f ↔ ∃ o, e.press p = some (f, o) := by
  simp [session]

theorem edits_of_edited {ps : List Press} (h : e.press p = some (f, .edited)) :
    e.edits (p :: ps) = e.buffer :: f.edits ps := by
  rw [edits, h]

theorem edits_of_ne {ps : List Press} (h : e.press p = some (f, o)) (ho : o ≠ .edited) :
    e.edits (p :: ps) = f.edits ps := by
  rw [edits, h]
  cases o <;> first | rfl | exact absurd rfl ho

/-- **The run lemma.** The edits of a run are on top of the undo stack, the last one first, and
if there is one nothing is left to redo. -/
theorem undo_of_run {start : Editor} {ps : List Press} (hps : (session start).Along Counted e ps)
    (hrun : (session start).exec e ps = some f) {new rest : List VimBuffer}
    (hundo : e.vim.undo = new ++ rest) (hfits : new.length + (e.edits ps).length ≤ undoLimit) :
    ∃ rest', f.vim.undo = (e.edits ps).reverse ++ new ++ rest' := by
  induction ps generalizing e new rest with
  | nil =>
    obtain rfl : e = f := Option.some.inj hrun
    exact ⟨rest, hundo⟩
  | cons p ps ih =>
    obtain ⟨g, hstep, hrest⟩ := Machine.exec_cons_eq_some.mp hrun
    obtain ⟨o, hpress⟩ := session_step.mp hstep
    have hlinear : Linear e g o := linear_press hps.1 hpress
    have halong := hps.2 g hstep
    by_cases ho : o = .edited
    · subst ho
      rw [edits_of_edited hpress] at hfits ⊢
      simp only [List.length_cons] at hfits
      have hroom : ∃ kept, withEntry e.buffer (new ++ rest) = e.buffer :: new ++ kept :=
        withEntry_append (by omega)
      obtain ⟨kept, hkept⟩ := hroom
      have hg : g.vim.undo = e.buffer :: new ++ kept := by
        rw [(hlinear.edited rfl).1, hundo, hkept]
      obtain ⟨rest', hf⟩ := ih halong hrest hg (by simp only [List.length_cons]; omega)
      exact ⟨rest', by rw [hf]; simp⟩
    · rw [edits_of_ne hpress ho] at hfits ⊢
      exact ih halong hrest ((hlinear.kept ho).1.trans hundo) hfits

theorem head_texts {start : Editor} {ps : List Press} (hps : (session start).Along Counted e ps)
    (hrun : (session start).exec e ps = some f) :
    ((e.edits ps).map (·.text) ++ [f.buffer.text]).head? = some e.buffer.text := by
  induction ps generalizing e with
  | nil =>
    obtain rfl : e = f := Option.some.inj hrun
    rfl
  | cons p ps ih =>
    obtain ⟨g, hstep, hrest⟩ := Machine.exec_cons_eq_some.mp hrun
    obtain ⟨o, hpress⟩ := session_step.mp hstep
    by_cases ho : o = .edited
    · subst ho
      rw [edits_of_edited hpress]
      rfl
    · rw [edits_of_ne hpress ho, ih (hps.2 g hstep) hrest, (linear_press hps.1 hpress).text ho]

/-! ### Walking the line of texts -/

structure At (texts : List (List Char)) (i : Nat) (e : Editor) : Prop where
  normal : e.vim.mode = .normal
  pending : e.vim.pending = none
  here : texts[i]? = some e.buffer.text
  behind : ∃ older, e.vim.undo.map (·.text) = (texts.take i).reverse ++ older
  ahead : ∃ newer, e.vim.redo.map (·.text) = texts.drop (i + 1) ++ newer

variable {start : Editor} {texts : List (List Char)} {i k : Nat}

theorem press_undo {entry : VimBuffer} {rest : List VimBuffer} (hp : p.isPlain)
    (hkey : p.key = .char 'u') (hmode : e.vim.mode = .normal) (hpending : e.vim.pending = none)
    (hundo : e.vim.undo = entry :: rest) :
    ∃ f, (session start).step e p = some f ∧ f.vim.mode = .normal ∧ f.vim.pending = none ∧
      f.buffer.text = entry.text ∧ f.vim.undo = rest ∧ f.vim.redo = e.buffer :: e.vim.redo := by
  have hdot : e.readsDot p.key = false := by simp [readsDot, hkey]
  have htable : normalKey p.key (e.facing p) =
      (((e.facing p).record (.char 'u')).dropCounts, .undo) := by
    have hfacing : (e.facing p).vim.pending = none := hpending
    rw [hkey, normalKey, hfacing]
    rfl
  have hrecord := kept_record (e.facing p) (.char 'u')
  have hundo' : ((e.facing p).record (.char 'u')).dropCounts.vim.undo = entry :: rest :=
    hrecord.undo.trans hundo
  have hpress := press_normal hp hmode hdot
  rw [htable] at hpress
  simp only [perform, undo, hundo', afterUndo] at hpress
  refine ⟨_, session_step.mpr ⟨.edited, hpress⟩, rfl, rfl, rfl, rfl, ?_⟩
  exact congrArg₂ List.cons hrecord.buffer hrecord.redo

theorem press_redo {entry : VimBuffer} {rest : List VimBuffer} (hp : p.isRedo)
    (hmode : e.vim.mode = .normal) (hredo : e.vim.redo = entry :: rest) :
    ∃ f, (session start).step e p = some f ∧ f.vim.mode = .normal ∧ f.vim.pending = none ∧
      f.buffer.text = entry.text ∧ f.vim.redo = rest ∧ f.vim.undo = e.buffer :: e.vim.undo := by
  have hredo' : (e.facing p).vim.redo = entry :: rest := hredo
  have hpress : e.press p = some (e.facing p).redo := press_of_redo hp hmode
  simp only [redo, hredo', afterUndo] at hpress
  exact ⟨_, session_step.mpr ⟨.edited, hpress⟩, rfl, rfl, rfl, rfl, rfl⟩

theorem At.undo (hp : p.isPlain) (hkey : p.key = .char 'u') (h : At texts (i + 1) e) :
    ∃ f, (session start).step e p = some f ∧ At texts i f := by
  obtain ⟨older, holder⟩ := h.behind
  obtain ⟨newer, hnewer⟩ := h.ahead
  have hlt : i < texts.length := by
    have := (List.getElem?_eq_some_iff.mp h.here).1
    omega
  rw [List.take_succ_eq_append_getElem hlt, List.reverse_append] at holder
  obtain ⟨entry, rest, hundo, hentry, hrest⟩ := List.map_eq_cons_iff.mp holder
  obtain ⟨f, hstep, hmode, hpending, htext, hf, hredo⟩ :=
    press_undo hp hkey h.normal h.pending hundo
  refine ⟨f, hstep, hmode, hpending, ?_, ⟨older, by rw [hf]; exact hrest⟩, newer, ?_⟩
  · rw [htext, hentry, List.getElem?_eq_getElem hlt]
  · have hdrop := List.drop_eq_getElem_cons (List.getElem?_eq_some_iff.mp h.here).1
    rw [hredo, List.map_cons, hnewer, hdrop, (List.getElem?_eq_some_iff.mp h.here).2]
    rfl

theorem At.redo (hp : p.isRedo) (h : At texts i e) (hlt : i + 1 < texts.length) :
    ∃ f, (session start).step e p = some f ∧ At texts (i + 1) f := by
  obtain ⟨older, holder⟩ := h.behind
  obtain ⟨newer, hnewer⟩ := h.ahead
  rw [List.drop_eq_getElem_cons hlt] at hnewer
  obtain ⟨entry, rest, hredo, hentry, hrest⟩ := List.map_eq_cons_iff.mp hnewer
  obtain ⟨f, hstep, hmode, hpending, htext, hf, hundo⟩ := press_redo hp h.normal hredo
  refine ⟨f, hstep, hmode, hpending, ?_, ⟨older, ?_⟩, newer, by rw [hf]; exact hrest⟩
  · rw [htext, hentry, List.getElem?_eq_getElem hlt]
  · obtain ⟨hi, hhere⟩ := List.getElem?_eq_some_iff.mp h.here
    rw [hundo, List.map_cons, holder, List.take_succ_eq_append_getElem hi, List.reverse_append,
      hhere]
    rfl

theorem At.undos (hp : p.isPlain) (hkey : p.key = .char 'u') (h : At texts (i + k) e) :
    ∃ f, (session start).exec e (List.replicate k p) = some f ∧ At texts i f := by
  induction k generalizing e with
  | zero => exact ⟨e, rfl, h⟩
  | succ k ih =>
    obtain ⟨g, hstep, hg⟩ := At.undo hp hkey h
    obtain ⟨f, hrun, hf⟩ := ih hg
    exact ⟨f, Machine.exec_cons_eq_some.mpr ⟨g, hstep, hrun⟩, hf⟩

theorem At.redos (hp : p.isRedo) (h : At texts i e) (hlt : i + k < texts.length) :
    ∃ f, (session start).exec e (List.replicate k p) = some f ∧ At texts (i + k) f := by
  induction k generalizing e i with
  | zero => exact ⟨e, rfl, h⟩
  | succ k ih =>
    obtain ⟨g, hstep, hg⟩ := At.redo hp h (by omega)
    obtain ⟨f, hrun, hf⟩ := ih hg (by omega)
    exact ⟨f, Machine.exec_cons_eq_some.mpr ⟨g, hstep, hrun⟩, by rwa [Nat.add_right_comm] at hf⟩

/-! ### The history is linear -/

theorem at_of_run {ps : List Press} (hps : (session start).Along Counted e ps)
    (hrun : (session start).exec e ps = some f) (hmode : f.vim.mode = .normal)
    (hpending : f.vim.pending = none) (hfits : (e.edits ps).length ≤ undoLimit) :
    At ((e.edits ps).map (·.text) ++ [f.buffer.text]) (e.edits ps).length f := by
  have hlength : ((e.edits ps).map (·.text)).length = (e.edits ps).length := List.length_map _
  obtain ⟨rest, hundo⟩ := undo_of_run hps hrun (List.nil_append _).symm (by simpa using hfits)
  refine ⟨hmode, hpending, ?_, ⟨rest.map (·.text), ?_⟩, f.vim.redo.map (·.text), ?_⟩
  · rw [← hlength, List.getElem?_concat_length]
  · rw [← hlength, List.take_left, hundo, List.append_nil, List.map_append, List.map_reverse]
  · rw [List.drop_eq_nil_of_le (by simp)]
    rfl

/-- **Undo and redo form a linear history.** Every press but `u`, `Ctrl-R` and `.` that overwrites
nothing past the end adds one entry or leaves the stacks; and after a run of such presses with `n`
edits, `k` presses of `u` bring back the text before the `k`-th edit from the end, the text of the
start for `k = n`, and after `n` of them `k` presses of `Ctrl-R` the text after the `k`-th edit. -/
theorem linear_history (e : Editor) :
    (∀ p f o, Counted e p → e.press p = some (f, o) → Linear e f o) ∧
    ∀ ps f, (session e).Along Counted e ps → (session e).exec e ps = some f →
      f.vim.mode = .normal → f.vim.pending = none → (e.edits ps).length ≤ undoLimit →
      let texts := (e.edits ps).map (·.text) ++ [f.buffer.text]
      let n := (e.edits ps).length
      texts.head? = some e.buffer.text ∧
      ∀ u r k, u.isPlain → u.key = .char 'u' → r.isRedo → k ≤ n →
        (∃ g, (session e).exec f (List.replicate k u) = some g ∧
          texts[n - k]? = some g.buffer.text) ∧
        ∃ g, (session e).exec f (List.replicate n u ++ List.replicate k r) = some g ∧
          texts[k]? = some g.buffer.text := by
  refine ⟨fun p f o hp hpress => linear_press hp hpress, ?_⟩
  intro ps f hps hrun hmode hpending hfits texts n
  refine ⟨head_texts hps hrun, fun u r k hu hkey hr hk => ⟨?_, ?_⟩⟩
  · have hat : At texts (n - k + k) f := by
      rw [Nat.sub_add_cancel hk]
      exact at_of_run hps hrun hmode hpending hfits
    obtain ⟨g, hundos, hg⟩ := hat.undos hu hkey
    exact ⟨g, hundos, hg.here⟩
  · have hat : At texts (0 + n) f := by
      rw [Nat.zero_add]
      exact at_of_run hps hrun hmode hpending hfits
    obtain ⟨g, hundos, hg⟩ := hat.undos hu hkey
    obtain ⟨g', hredos, hg'⟩ := hg.redos hr (show 0 + k < texts.length by simp [texts]; omega)
    refine ⟨g', ?_, by simpa using hg'.here⟩
    rw [Machine.exec_append, hundos]
    exact hredos

end Runs

/-- Two edits, one in insert mode and one in normal mode, undone and redone. -/
theorem linear_history_two_edits :
    letI := asciiCase
    ∃ f g h : Editor,
      (session (fresh ['a'] 1)).exec (fresh ['a'] 1)
        [.of (.char 'b'), .of .escape, .of (.char 'x')] = some f ∧ f.buffer.text = ['a'] ∧
      (session (fresh ['a'] 1)).exec f (List.replicate 2 (.of (.char 'u'))) = some g ∧
      some ['a'] = some g.buffer.text ∧
      (session (fresh ['a'] 1)).exec f (List.replicate 2 (.of (.char 'u')) ++
        List.replicate 1 ⟨.char 'r', ⟨false, true, false, false⟩, none, 0⟩) = some h ∧
      some ['a', 'b'] = some h.buffer.text := by
  let _ := asciiCase
  have hlinear := (linear_history (fresh ['a'] 1)).2
    [.of (.char 'b'), .of .escape, .of (.char 'x')] _ (by decide) rfl rfl rfl (by decide)
  have hwalk := hlinear.2 (.of (.char 'u')) ⟨.char 'r', ⟨false, true, false, false⟩, none, 0⟩
  obtain ⟨g, hundos, hg⟩ := (hwalk 2 (by decide) rfl (by decide) (by decide)).1
  obtain ⟨h, hredos, hh⟩ := (hwalk 1 (by decide) rfl (by decide) (by decide)).2
  exact ⟨_, g, h, rfl, rfl, hundos, hg, hredos, hh⟩

/-- `r` where the text has ended: nothing is changed, and the undone text cannot be brought back. -/
theorem not_linear_history :
    letI := asciiCase
    ∃ e f : Editor,
      (session (fresh [] 0)).exec (fresh [] 0)
        [.of (.char 'a'), .of .escape, .of (.char 'u'), .of (.char 'r')] = some e ∧
      ¬e.isUndo (.of (.char 'x')) ∧ ¬(Press.of (.char 'x')).isRedo ∧ ¬e.isDot (.of (.char 'x')) ∧
      e.press (.of (.char 'x')) = some (f, .consumed) ∧ f.buffer = e.buffer ∧
      e.vim.redo = [⟨['a'], 0⟩] ∧ f.vim.redo = [] ∧ e.vim.undo = [] ∧ f.vim.undo = [⟨[], 0⟩] := by
  refine ⟨_, _, rfl, ?_, ?_, ?_, rfl, rfl, rfl, rfl, rfl, rfl⟩
  all_goals decide

end Editor

end Goble.Vim
