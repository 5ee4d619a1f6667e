import Goble.Vim.Bounds
import Goble.Vim.Replay

/-!
# Where the caret is

The caret of insert mode is anywhere in the text, that of the other modes on a character, and in
visual mode so is the anchor (`Seated`). Motions, puts, case changes and undo bring the caret back;
a deletion leaves it where the deleted range started, which is past the end when the range reached
the end of the text. So is a put over a selection that did, and the anchor of a paragraph that is the
empty line after a last newline. `lands` says of a key that it does none of this; the keys of a
replay are held to the same, at the place each of them is typed.
-/

namespace Goble.Vim

/-- On a character, or at the start of an empty text. -/
def Sits (pos len : Nat) : Prop := pos < len ∨ (len = 0 ∧ pos = 0)

section Sits

variable {pos len len' : Nat}

instance : Decidable (Sits pos len) := inferInstanceAs (Decidable (_ ∨ _))

theorem sits_iff : Sits pos len ↔ pos < len ∨ pos = 0 := by
  unfold Sits
  omega

theorem Sits.le (h : Sits pos len) : pos ≤ len := by
  unfold Sits at h
  omega

theorem Sits.mono (h : Sits pos len) (hle : len ≤ len') : Sits pos len' := by
  rw [sits_iff] at h ⊢
  omega

theorem sits_normalCaret (caret len : Nat) : Sits (normalCaret caret len) len := by
  unfold normalCaret Sits
  split_ifs <;> omega

end Sits

/-! ### Lengths -/

namespace VimBuffer

variable {b b' : VimBuffer} {range : Range}

theorem len_delete (h : b.slice range ≠ []) :
    ∃ b', b.delete range = some b' ∧ b'.caret = min range.start b.len ∧
      b'.len = min range.start b.len + (b.len - min range.stop b.len) := by
  refine ⟨_, delete_of_slice h, rfl, ?_⟩
  simp only [len, List.length_append, List.length_take, List.length_drop]
  omega

theorem len_changeCase [CaseTable] {case : Case} (h : b.changeCase range case = some b') :
    b'.caret = min range.start b.len ∧ b'.len = b.len := by
  unfold changeCase at h
  dsimp only at h
  split_ifs at h with hlt
  obtain rfl := Option.some.inj h
  refine ⟨rfl, ?_⟩
  simp only [len, List.length_append, List.length_map, List.length_drop, List.length_take] at hlt ⊢
  omega

theorem len_replaceWith {pos count : Nat} {c : Char} (h : b.replaceWith pos count c = some b') :
    b'.caret = pos ∧ b'.len = b.len ∧ pos < b.len := by
  unfold replaceWith at h
  split_ifs at h with hlt
  obtain rfl := Option.some.inj h
  refine ⟨rfl, ?_, Nat.not_le.mp hlt⟩
  simp only [len, List.length_append, List.length_replicate, List.length_drop, List.length_take]
    at hlt ⊢
  omega

theorem len_insert (b : VimBuffer) (pos : Nat) (text : List Char) :
    (b.insert pos text).caret = min pos b.len + text.length ∧
      (b.insert pos text).len = b.len + text.length := by
  refine ⟨rfl, ?_⟩
  simp only [insert, len, List.length_append, List.length_drop, List.length_take]
  omega

end VimBuffer

def VimMode.isVisual : VimMode → Bool
  | .visual _ => true
  | _ => false

theorem Editor.rememberChange_mode (e : Editor) (insert : Option (List Char)) :
    (e.rememberChange insert).vim.mode = e.vim.mode := by
  unfold rememberChange VimState.rememberChange
  split <;> rfl

theorem Editor.rememberChange_anchor (e : Editor) (insert : Option (List Char)) :
    (e.rememberChange insert).vim.anchor = e.vim.anchor := by
  unfold rememberChange VimState.rememberChange
  split <;> rfl

structure Seated (e : Editor) : Prop where
  within : e.buffer.caret ≤ e.buffer.len
  caret : e.vim.mode ≠ .insert → Sits e.buffer.caret e.buffer.len
  anchor : e.vim.mode.isVisual = true → Sits e.vim.anchor e.buffer.len

namespace Seated

variable {e f : Editor}

theorem of_insert (hmode : f.vim.mode = .insert) (h : f.buffer.caret ≤ f.buffer.len) :
    Seated f where
  within := h
  caret hne := absurd hmode hne
  anchor hvisual := by rw [hmode] at hvisual; cases hvisual

theorem of_sits (h : Sits f.buffer.caret f.buffer.len)
    (hanchor : f.vim.mode.isVisual = true → Sits f.vim.anchor f.buffer.len) : Seated f :=
  ⟨h.le, fun _ => h, hanchor⟩

theorem of_same (h : Seated e) (buffer : f.buffer = e.buffer) (mode : f.vim.mode = e.vim.mode)
    (anchor : f.vim.anchor = e.vim.anchor) : Seated f where
  within := buffer ▸ h.within
  caret hne := buffer ▸ h.caret (mode ▸ hne)
  anchor hvisual := by
    rw [buffer, anchor]
    exact h.anchor (mode ▸ hvisual)

theorem of_longer (h : Seated e) (hle : e.buffer.len ≤ f.buffer.len)
    (mode : f.vim.mode = e.vim.mode) (anchor : f.vim.anchor = e.vim.anchor)
    (hcaret : Sits f.buffer.caret f.buffer.len) : Seated f := by
  refine of_sits hcaret fun hvisual => ?_
  rw [anchor]
  exact (h.anchor (mode ▸ hvisual)).mono hle

theorem rememberChange (h : Seated e) (insert : Option (List Char)) :
    Seated (e.rememberChange insert) :=
  h.of_same rfl (Editor.rememberChange_mode e insert) (Editor.rememberChange_anchor e insert)

end Seated

namespace Editor

/-! ### What the tables promise of a call -/

structure Sound (e : Editor) (call : Call) : Prop where
  select : ∀ range, call = .select range → e.buffer.len ≠ 0 ∧ range.stop ≤ e.buffer.len
  swapEnds : call = .swapEnds → e.vim.mode.isVisual = true
  pasteOver : ∀ range text, call = .pasteOver range text →
    e.vim.mode.isVisual = false ∧ e.buffer.slice range ≠ []

section Sound

variable {e : Editor} {key : Key} {range : Range}

theorem normalPending_select {pending : Pending}
    (h : (normalPending pending key e).2 = .select range) :
    e.buffer.len ≠ 0 ∧ range.stop ≤ e.buffer.len := by
  have hfrom := fromPending pending key e
  rw [h] at hfrom
  cases hfrom with
  | select around c range object char =>
    subst object char
    simp only [normalPending] at h
    split at h
    · next found hfound =>
      obtain rfl := Call.select.inj h
      exact textObject_stop_le hfound
    · cases h

theorem sound_normalKey (key : Key) (e : Editor) :
    Sound (normalKey key e).1 (normalKey key e).2 := by
  have hfrom := fromNormal key e
  have hbuffer := (kept_normalKey key e).buffer
  refine ⟨fun range h => ?_, fun h => ?_, fun range text h => ?_⟩
  · rw [hbuffer]
    have hrecord := (kept_record e key.named).buffer
    rw [h] at hfrom
    cases hfrom with
    | command idle char made => cases made
    | pending half made =>
      unfold normalKey at h
      rw [half] at h
      exact hrecord ▸ normalPending_select h
  all_goals
    rw [h] at hfrom
    cases hfrom with
    | command idle char made => cases made
    | pending half made => cases made

theorem slice_selection {range : Range}
    (h : e.vim.selection e.buffer.caret e.buffer.len = some range) :
    e.buffer.slice range ≠ [] := by
  rw [VimBuffer.slice_ne_nil]
  unfold VimState.selection at h
  split at h
  · split_ifs at h with hlen
    split at h
    all_goals
      obtain rfl := Option.some.inj h
      dsimp only
      omega
  · cases h

theorem sound_visualCommand (c : Char) (h : e.vim.mode.isVisual = true) :
    Sound (visualCommand c e).1 (visualCommand c e).2 := by
  have hfrom : ∀ range, (visualCommand c e).2 ≠ .select range := by
    intro range hcall
    unfold visualCommand at hcall
    split at hcall
    all_goals first | cases hcall | (dsimp only at hcall; split at hcall <;> cases hcall)
  refine ⟨fun range hcall => absurd hcall (hfrom range), fun hcall => ?_, fun range text hcall => ?_⟩
  · unfold visualCommand at hcall ⊢
    split at hcall
    all_goals
      first
      | exact h
      | cases hcall
      | (dsimp only at hcall; split at hcall <;> cases hcall)
  · unfold visualCommand at hcall ⊢
    split at hcall
    all_goals
      first
      | cases hcall
      | (dsimp only at hcall ⊢
         split at hcall
         · cases hcall
         · cases hcall <;> exact ⟨rfl, slice_selection (e := e) ‹_›⟩)

theorem sound_visualKey (key : Key) (h : e.vim.mode.isVisual = true) :
    Sound (visualKey key e).1 (visualKey key e).2 := by
  unfold visualKey
  split
  · next around hpending =>
    have hfrom := fromPending (.visualObject around) key.named (e.record key.named)
    have hkept := kept_normalPending (.visualObject around) key.named (e.record key.named)
    refine ⟨fun range h => hkept.buffer ▸ normalPending_select h, fun h => ?_,
      fun range text h => ?_⟩
    all_goals
      rw [h] at hfrom
      cases hfrom
  · split
    · refine sound_visualCommand _ ?_
      rw [record_mode]
      exact h
    · exact ⟨nofun, nofun, nofun⟩

end Sound

/-! ### Calls that land -/

def lands : Editor × Call → Bool
  | (e, .applyOperator .delete range _) =>
    e.vim.mode = .insert ∨ e.buffer.slice range = [] ∨
      ((range.stop < e.buffer.len ∨ range.start = 0) ∧
        (e.vim.mode.isVisual →
          e.vim.anchor + (min range.stop e.buffer.len - range.start) < e.buffer.len ∨
            e.vim.anchor = 0))
  | (e, .pasteOver range text) => range.stop < e.buffer.len ∨ (range.start = 0 ∧ text = [])
  | (e, .select range) => range.start < e.buffer.len
  | _ => true

section Calls

variable {e : Editor}

theorem seated_moveCaret (h : Seated e) (count : Nat) (step : List Char → Nat → Nat) :
    Seated (e.moveCaret count step).1 := by
  unfold moveCaret
  dsimp only
  split_ifs with hempty
  · exact .of_sits (sits_iff.mpr (.inr rfl)) h.anchor
  · refine .of_sits (.inl ?_) h.anchor
    have hlen : e.dropCounts.buffer.text.length ≠ 0 := by simpa using hempty
    change min _ (e.dropCounts.buffer.text.length - 1) < e.dropCounts.buffer.text.length
    omega

theorem seated_findMove (h : Seated e) (motion : FindMotion) (count : Nat) :
    Seated (e.findMove motion count).1 := by
  unfold findMove
  dsimp only
  split_ifs with hempty
  · exact h
  · split
    · next pos hpos =>
      have hlen : e.buffer.text.length ≠ 0 := by simpa using hempty
      exact .of_sits (.inl (findCaretIndex_lt (normalCaret_lt hlen _) hpos)) h.anchor
    · exact h

theorem firstNonBlank_le (chars : List Char) : firstNonBlank chars ≤ chars.length := by
  unfold firstNonBlank
  cases hfound : chars.findIdx? fun c => !Text.isWhitespace c with
  | none => exact Nat.zero_le _
  | some i =>
    obtain ⟨hlt, -⟩ := List.findIdx?_eq_some_iff_getElem.mp hfound
    exact Nat.le_of_lt hlt

theorem seated_enterInsert (e : Editor) (place : InsertAt) : Seated (e.enterInsert place).1 := by
  cases place with
  | here => exact .of_insert rfl (sits_normalCaret _ _).le
  | after => exact .of_insert rfl (Nat.min_le_right _ _)
  | firstNonBlank => exact .of_insert rfl (firstNonBlank_le _)
  | lineEnd => exact .of_insert rfl (Nat.le_refl _)

theorem seated_overwrite (h : Seated e) (count : Nat) (c : Char) :
    Seated (e.overwrite count c).1 := by
  unfold overwrite
  split
  · next b hb =>
    obtain ⟨hcaret, hlen, hlt⟩ := VimBuffer.len_replaceWith hb
    refine .rememberChange ?_ none
    refine .of_longer h (Nat.le_of_eq hlen.symm) rfl rfl ?_
    exact .inl (show b.caret < b.len by omega)
  · exact h.of_same rfl rfl rfl

theorem seated_undo (h : Seated e) : Seated e.undo.1 := by
  unfold undo
  split
  · exact h
  · exact .of_sits (sits_normalCaret _ _) nofun

theorem seated_redo (h : Seated e) : Seated e.redo.1 := by
  unfold redo
  split
  · exact h
  · exact .of_sits (sits_normalCaret _ _) nofun

theorem seated_paste (h : Seated e) (count : Nat) (before : Bool) :
    Seated (e.paste count before).1 := by
  unfold paste
  dsimp only
  generalize (if before = true then _ else _) = pos
  split_ifs
  · exact h.of_same rfl rfl rfl
  · refine .rememberChange ?_ none
    refine .of_longer h ?_ rfl rfl (sits_normalCaret _ _)
    have hlen := (VimBuffer.len_insert e.buffer pos
      (repeated (e.readRegister e.vim.register).text count)).2
    exact Nat.le_trans (Nat.le_add_right _ _) (Nat.le_of_eq hlen.symm)

/-- A deletion that lands. -/
theorem seated_delete {range : Range} (hslice : e.buffer.slice range ≠ [])
    (hlands : e.vim.mode = .insert ∨ ((range.stop < e.buffer.len ∨ range.start = 0) ∧
      (e.vim.mode.isVisual = false ∨
        e.vim.anchor + (min range.stop e.buffer.len - range.start) < e.buffer.len ∨
          e.vim.anchor = 0))) : Seated (e.snapshot.delete range) := by
  obtain ⟨b, hb, hcaret, hlen⟩ := VimBuffer.len_delete hslice
  have hlt := VimBuffer.slice_ne_nil.mp hslice
  have hbuffer : (e.snapshot.delete range).buffer = b := by
    change (e.buffer.delete range).getD e.buffer = b
    rw [hb]
    rfl
  rcases hlands with hinsert | ⟨hreach, hanchor⟩
  · refine .of_insert hinsert ?_
    rw [hbuffer]
    omega
  · refine .of_sits ?_ fun hvisual => ?_
    · rw [hbuffer, sits_iff]
      omega
    · have hsits := hanchor.resolve_left fun h => nomatch h.symm.trans hvisual
      rw [hbuffer, sits_iff]
      change e.vim.anchor < b.len ∨ e.vim.anchor = 0
      omega

section Operators

variable [CaseTable]

theorem seated_applyOperator {operator : Operator} {range : Range} {linewise : Bool}
    (h : Seated e) (hlands : lands (e, .applyOperator operator range linewise) = true) :
    Seated (e.applyOperator operator range linewise).1 := by
  have happlied := applied_applyOperator e operator range linewise
  generalize e.applyOperator operator range linewise = r at happlied ⊢
  cases happlied with
  | nothing empty => exact h.of_same rfl rfl rfl
  | @yanked w slice yank wrote anchor =>
    -- the caret goes to the start of the range, which holds a character
    have hlt := VimBuffer.slice_ne_nil.mp slice
    have hbuffer : w.buffer = e.buffer := wrote.buffer
    refine .of_longer h (by rw [← hbuffer]; exact Nat.le_refl _) wrote.mode anchor ?_
    exact .inl (show range.start < w.buffer.len by rw [hbuffer]; omega)
  | @deleted w slice delete wrote anchor =>
    have hbuffer : w.buffer = e.buffer := wrote.buffer
    have hmode : w.vim.mode = e.vim.mode := wrote.mode
    subst delete
    refine .rememberChange (seated_delete (by rwa [hbuffer]) ?_) none
    rw [hbuffer, hmode, anchor]
    simpa [lands, slice] using hlands
  | @changed w slice change wrote =>
    have hbuffer : w.buffer = e.buffer := wrote.buffer
    obtain ⟨b, hb, hcaret, hlen⟩ := VimBuffer.len_delete slice
    refine .of_insert rfl ?_
    change ((w.buffer.delete range).getD w.buffer).caret ≤
      ((w.buffer.delete range).getD w.buffer).len
    rw [hbuffer, hb, Option.getD_some]
    omega
  | @recased b slice recase case =>
    have hlt := VimBuffer.slice_ne_nil.mp slice
    obtain ⟨hcaret, hlen⟩ := VimBuffer.len_changeCase case
    refine .rememberChange ?_ none
    refine .of_longer h (Nat.le_of_eq hlen.symm) rfl rfl ?_
    exact .inl (show b.caret < b.len by omega)

theorem seated_toggle (h : Seated e) (count : Nat) : Seated (e.toggle count).1 := by
  unfold toggle
  dsimp only
  have happlied := applied_applyOperator e .toggleCase
    ⟨e.buffer.caret, min (e.buffer.caret + count) e.buffer.len⟩ false
  generalize e.applyOperator .toggleCase _ false = r at happlied ⊢
  cases happlied with
  | nothing empty => exact h.of_same rfl rfl rfl
  | yanked slice yank wrote => cases yank
  | deleted slice delete wrote => cases delete
  | changed slice change wrote => cases change
  | @recased b slice recase case =>
    have hlt := VimBuffer.slice_ne_nil.mp slice
    have hlen := (VimBuffer.len_changeCase case).2
    rw [if_pos rfl]
    refine .of_longer h (Nat.le_of_eq hlen.symm) (rememberChange_mode _ _)
      (rememberChange_anchor _ _) (.inl ?_)
    change min _ (e.buffer.len - 1) < b.len
    omega

theorem seated_perform {call : Call} (h : Seated e) (hlands : lands (e, call) = true)
    (hsound : Sound e call) : Seated (perform (e, call)).1 := by
  cases call with
  | consumed | passthrough => exact h
  | moveCaret count step => exact seated_moveCaret h count step
  | findMove motion count => exact seated_findMove h motion count
  | enterInsert place => exact seated_enterInsert e place
  | applyOperator operator range linewise => exact seated_applyOperator h hlands
  | toggle count => exact seated_toggle h count
  | overwrite count c => exact seated_overwrite h count c
  | undo => exact seated_undo h
  | paste count before => exact seated_paste h count before
  | pasteOver range text =>
    obtain ⟨hvisual, hslice⟩ := hsound.pasteOver range text rfl
    obtain ⟨b, hb, hcaret, hlen⟩ := VimBuffer.len_delete hslice
    have hdeleted : (e.snapshot.delete range).buffer = b := by
      change (e.buffer.delete range).getD e.buffer = b
      rw [hb]
      rfl
    obtain ⟨hcaret', hlen'⟩ := VimBuffer.len_insert b b.caret text
    have hlt := VimBuffer.slice_ne_nil.mp hslice
    have hreach : range.stop < e.buffer.len ∨ (range.start = 0 ∧ text.length = 0) := by
      simpa [lands] using hlands
    simp only [perform, pasteOver, hdeleted]
    refine .rememberChange ?_ none
    refine .of_sits ?_ fun h => absurd (hvisual.symm.trans h) (by decide)
    change Sits ((e.snapshot.delete range).buffer.insert b.caret text).caret
      ((e.snapshot.delete range).buffer.insert b.caret text).len
    rw [hdeleted, hcaret', hlen', sits_iff]
    omega
  | select range =>
    obtain ⟨hlen, hstop⟩ := hsound.select range rfl
    refine .of_sits (.inl ?_) fun _ => .inl (of_decide_eq_true hlands)
    change range.stop - 1 < e.buffer.len
    omega
  | swapEnds =>
    have hvisual := hsound.swapEnds rfl
    have hanchor := h.anchor hvisual
    refine .of_sits hanchor fun _ => h.caret fun hinsert => ?_
    rw [hinsert] at hvisual
    cases hvisual
  | leaveVisual =>
    refine .of_sits (sits_normalCaret _ _) fun hvisual => ?_
    cases hvisual

end Operators

end Calls

/-! ### Keys -/

section Keys

variable {e f : Editor} {key : Key}

/-- Whether a key of the normal-mode table lands. A replay types it in whatever mode it is in, so it
may also leave insert mode, and does so from a character. -/
def landsKey (key : Key) (e : Editor) : Bool :=
  (e.vim.mode = .insert → (normalKey key e).1.vim.mode ≠ .insert →
      Sits e.buffer.caret e.buffer.len) ∧
    lands (normalKey key e)

theorem seated_of_turns (h : Seated e) (hturns : Turns e f) (hbuffer : f.buffer = e.buffer)
    (hleave : e.vim.mode = .insert → f.vim.mode ≠ .insert → Sits e.buffer.caret e.buffer.len) :
    Seated f := by
  have hsits : f.vim.mode ≠ .insert → Sits f.buffer.caret f.buffer.len := by
    intro hne
    rw [hbuffer]
    by_cases hmode : e.vim.mode = .insert
    · exact hleave hmode hne
    · exact h.caret hmode
  cases hturns with
  | same mode anchor => exact h.of_same hbuffer mode anchor
  | replace mode =>
    refine .of_sits (hsits (by rw [mode]; exact nofun)) fun hvisual => ?_
    rw [mode] at hvisual
    cases hvisual
  | visual kind mode anchor =>
    refine .of_sits (hsits (by rw [mode]; exact nofun)) fun _ => ?_
    rw [hbuffer]
    rcases anchor with hanchor | hanchor
    · rw [hanchor]
      exact sits_normalCaret _ _
    · exact sits_iff.mpr (.inr hanchor)

variable [CaseTable]

theorem seated_normalKey (h : Seated e) (hlands : landsKey key e = true) :
    Seated (perform (normalKey key e)).1 := by
  obtain ⟨hleave, hlands⟩ := of_decide_eq_true hlands
  have hturned : Seated (normalKey key e).1 :=
    seated_of_turns h (turns_normalKey key e) (kept_normalKey key e).buffer hleave
  exact seated_perform hturned hlands (sound_normalKey key e)

theorem seated_visualKey (h : Seated e) (hvisual : e.vim.mode.isVisual = true)
    (hlands : lands (visualKey key e) = true) : Seated (perform (visualKey key e)).1 := by
  have hbuffer := (kept_visualKey key e).buffer
  have hne : e.vim.mode ≠ .insert := by
    intro hinsert
    rw [hinsert] at hvisual
    cases hvisual
  have hturned : Seated (visualKey key e).1 := by
    rcases turns_visualKey key e with hturns | hnormal
    · exact seated_of_turns h hturns hbuffer fun hinsert => absurd hinsert hne
    · refine .of_sits (hbuffer ▸ h.caret hne) fun hvisual => ?_
      rw [hnormal] at hvisual
      cases hvisual
  exact seated_perform hturned hlands (sound_visualKey key hvisual)

omit [CaseTable]

theorem seated_escape (h : Seated e) : Seated e.escape.1 := by
  unfold escape
  dsimp only
  split
  · exact .of_sits (sits_normalCaret _ _) nofun
  · exact .of_sits (sits_normalCaret _ _) nofun
  · exact .of_sits (sits_normalCaret _ _) nofun
  · split_ifs
    · exact h.of_same rfl rfl rfl
    · exact h

/-- A character typed where it leaves the caret on one, as it does in insert mode anywhere. -/
theorem seated_insert_char (h : Seated e) (c : Char)
    (hlands : e.vim.mode = .insert ∨ e.buffer.text ≠ []) : Seated (e.insert (.char c)).1 := by
  obtain ⟨hcaret, hlen⟩ := VimBuffer.len_insert e.buffer e.buffer.caret [c]
  have hwithin := h.within
  simp only [List.length_singleton] at hcaret hlen
  by_cases hmode : e.vim.mode = .insert
  · refine .of_insert hmode ?_
    change (e.buffer.insert e.buffer.caret [c]).caret ≤ (e.buffer.insert e.buffer.caret [c]).len
    omega
  · have hne : e.buffer.len ≠ 0 := by simpa [VimBuffer.len] using hlands.resolve_left hmode
    have hsits := h.caret hmode
    refine .of_longer h ?_ rfl rfl (.inl ?_)
    · exact Nat.le_trans (Nat.le_succ _) (Nat.le_of_eq hlen.symm)
    · change (e.buffer.insert e.buffer.caret [c]).caret < (e.buffer.insert e.buffer.caret [c]).len
      unfold Sits at hsits
      omega

theorem seated_insert (h : Seated e) (hmode : e.vim.mode = .insert) (key : Key) :
    Seated (e.insert key).1 := by
  have hdelete : ∀ range, Seated (e.snapshot.delete range) := by
    intro range
    by_cases hslice : e.buffer.slice range = []
    · have hnone : e.buffer.delete range = none := by
        rw [VimBuffer.slice_eq_nil] at hslice
        unfold VimBuffer.delete
        exact if_pos hslice
      refine h.of_same ?_ rfl rfl
      change (e.buffer.delete range).getD e.buffer = e.buffer
      rw [hnone]
      rfl
    · exact seated_delete hslice (.inl hmode)
  unfold insert
  split
  · split_ifs
    · exact h
    · exact (hdelete _).of_same rfl rfl rfl
  · split_ifs
    · exact h
    · exact hdelete _
  · exact seated_insert_char h _ (.inl hmode)
  · exact h

theorem seated_replace (h : Seated e) (hmode : e.vim.mode = .replace) (key : Key) :
    Seated (e.replace key).1 := by
  have hsits := h.caret (by rw [hmode]; exact nofun)
  unfold replace
  split
  · dsimp only
    split
    · next b hb =>
      obtain ⟨hcaret, hlen, hlt⟩ := VimBuffer.len_replaceWith hb
      refine .of_sits (.inl ?_) nofun
      change min (b.caret + 1) (b.len - 1) < b.len
      have hpos : e.buffer.caret < e.buffer.len := hlt
      have hsame : b.len = e.buffer.len := hlen
      omega
    · exact .of_sits hsits nofun
  · exact h

end Keys

/-! ### Replays -/

section Replays

variable (press : Key → Editor → Option (Editor × VimOutcome)) (check : Key → Editor → Bool)
  (change : LastChange)

def landsKeys : List Key → Editor → Bool
  | [], _ => true
  | key :: keys, e => check key e && (press key e).all fun r => landsKeys keys r.1

def landsOnce (r : Editor × VimOutcome) : Bool :=
  landsKeys press check change.keys r.1 &&
    (change.keys.foldlM (fun r key => press key r.1) r).all fun r =>
      change.insert = [] ∨ r.1.vim.mode = .insert ∨ r.1.buffer.text ≠ []

def landsTimes : Nat → Editor × VimOutcome → Bool
  | 0, _ => true
  | n + 1, r => landsOnce press check change r && (replayOnce press change r).all (landsTimes n)

end Replays

def landsNormal [CaseTable] : Nat → Key → Editor → Bool
  | 0, key, e => e.readsDot key || landsKey key e
  | depth + 1, key, e =>
    if e.readsDot key then
      match (e.record key).vim.lastChange with
      | none => true
      | some change =>
        landsTimes (Editor.normal depth) (landsNormal depth) change
          (max (e.record key).vim.counts 1) ((e.record key).startReplay, .consumed)
    else landsKey key e

def landsPress [CaseTable] (e : Editor) (p : Press) : Bool :=
  if p.isPlain then
    match e.vim.mode with
    | .insert | .replace => true
    | .normal => landsNormal p.depth p.key (e.facing p)
    | .visual _ => lands (visualKey p.key (e.facing p))
  else true

section Runs

variable {e f : Editor} {press : Key → Editor → Option (Editor × VimOutcome)}
  {check : Key → Editor → Bool} {change : LastChange} {r r' : Editor × VimOutcome}

theorem seated_foldlM
    (hpress : ∀ key e r, Seated e → check key e = true → press key e = some r → Seated r.1)
    {keys : List Key} (h : Seated r.1) (hlands : landsKeys press check keys r.1 = true)
    (hr : keys.foldlM (fun r key => press key r.1) r = some r') : Seated r'.1 := by
  induction keys generalizing r with
  | nil =>
    obtain rfl := Option.some.inj hr
    exact h
  | cons key keys ih =>
    rw [landsKeys, Bool.and_eq_true] at hlands
    obtain ⟨next, hnext, hrest⟩ := Option.bind_eq_some_iff.mp hr
    have hnext : press key r.1 = some next := hnext
    rw [hnext] at hlands
    exact ih (hpress key r.1 next h hlands.1 hnext) hlands.2 hrest

theorem seated_inserted {text : List Char} (h : Seated r.1)
    (hlands : text = [] ∨ r.1.vim.mode = .insert ∨ r.1.buffer.text ≠ []) :
    Seated (inserted text r).1 := by
  induction text generalizing r with
  | nil => exact h
  | cons c text ih =>
    have hchar : r.1.vim.mode = .insert ∨ r.1.buffer.text ≠ [] :=
      hlands.resolve_left (List.cons_ne_nil c text)
    -- once a character is typed the text has one
    refine ih (r := r.1.insert (.char c)) (seated_insert_char h c hchar) (.inr (.inr ?_))
    change (r.1.buffer.text.take _ ++ [c]) ++ _ ≠ []
    simp

theorem seated_closed (h : Seated r.1) : Seated (closed r).1 := by
  unfold closed
  split_ifs
  · exact seated_escape h
  · exact h

theorem seated_replayOnce
    (hpress : ∀ key e r, Seated e → check key e = true → press key e = some r → Seated r.1)
    (h : Seated r.1) (hlands : landsOnce press check change r = true)
    (hr : replayOnce press change r = some r') : Seated r'.1 := by
  rw [landsOnce, Bool.and_eq_true] at hlands
  obtain ⟨typed, htyped, hr⟩ := Option.bind_eq_some_iff.mp hr
  obtain rfl := Option.some.inj hr
  have hkeys := seated_foldlM hpress h hlands.1 htyped
  have htext := hlands.2
  rw [htyped, Option.all_some, decide_eq_true_eq] at htext
  exact seated_closed (seated_inserted hkeys htext)

theorem seated_replayTimes
    (hpress : ∀ key e r, Seated e → check key e = true → press key e = some r → Seated r.1)
    {n : Nat} (h : Seated r.1) (hlands : landsTimes press check change n r = true)
    (hr : replayTimes press change n r = some r') : Seated r'.1 := by
  induction n generalizing r with
  | zero =>
    obtain rfl := Option.some.inj hr
    exact h
  | succ n ih =>
    rw [landsTimes, Bool.and_eq_true] at hlands
    obtain ⟨once, honce, hrest⟩ := Option.bind_eq_some_iff.mp hr
    rw [honce] at hlands
    exact ih (seated_replayOnce hpress h hlands.1 honce) hlands.2 hrest

variable [CaseTable]

/-- The induction is on the depth: the keys of a replay are one level less deep. -/
theorem seated_normal {depth : Nat} {key : Key} (h : Seated e)
    (hlands : landsNormal depth key e = true) (hr : e.normal depth key = some r) :
    Seated r.1 := by
  induction depth generalizing e key r with
  | zero =>
    rw [landsNormal, Bool.or_eq_true] at hlands
    rw [Editor.normal, normalWith] at hr
    split_ifs at hr with hdot
    obtain rfl := Option.some.inj hr
    exact seated_normalKey h (hlands.resolve_left hdot)
  | succ depth ih =>
    rw [landsNormal] at hlands
    rw [Editor.normal, normalWith] at hr
    split_ifs at hlands hr with hdot
    · have hrecord : Seated (e.record key) :=
        h.of_same (kept_record e key).buffer (record_mode e key) (record_anchor e key)
      rw [dotWith] at hr
      cases hchange : (e.record key).vim.lastChange with
      | none =>
        rw [hchange] at hr
        obtain rfl := Option.some.inj hr
        exact hrecord
      | some change =>
        rw [hchange] at hr hlands
        obtain ⟨last, hreplay, rfl⟩ := Option.map_eq_some_iff.mp hr
        have hlast : Seated last.1 :=
          seated_replayTimes (fun _ _ _ => ih) (hrecord.of_same rfl rfl rfl) hlands hreplay
        exact hlast.of_same rfl rfl rfl
    · obtain rfl := Option.some.inj hr
      exact seated_normalKey h hlands

theorem seated_press {p : Press} (h : Seated e) (hlands : landsPress e p = true)
    (hr : e.press p = some r) : Seated r.1 := by
  have hfacing : Seated (e.facing p) := h.of_same rfl rfl rfl
  have hhandled := handled hr
  have hmode : (e.facing p).vim.mode = e.vim.mode := rfl
  rw [landsPress, ← hmode] at hlands
  cases hhandled with
  | escape esc => exact seated_escape hfacing
  | ignored esc plain quiet => exact hfacing
  | redo redo mode => exact seated_redo hfacing
  | insert plain mode => exact seated_insert hfacing mode _
  | replace plain mode => exact seated_replace hfacing mode _
  | normal plain mode dot =>
    rw [if_pos plain, mode] at hlands
    exact seated_normal hfacing hlands (normal_of_not_dot dot)
  | visual plain mode =>
    rw [if_pos plain, mode] at hlands
    exact seated_visualKey hfacing (by rw [mode]; rfl) hlands
  | dot dot replay =>
    rw [if_pos dot.1, dot.2.1] at hlands
    exact seated_normal hfacing hlands replay

/-- **Where the caret is.** Along every session whose presses land, the caret is in the text, in
normal and visual mode on a character, and so is the anchor of visual mode. -/
theorem caret_on_char {b : VimBuffer} {ps : List Press} (hb : b.caret ≤ b.len)
    (hlands : (session ⟨.new, b, none⟩).Along (fun e p => landsPress e p = true) ⟨.new, b, none⟩ ps)
    (hrun : (session ⟨.new, b, none⟩).exec ⟨.new, b, none⟩ ps = some e) :
    e.buffer.caret ≤ e.buffer.len ∧
      (∀ kind, e.vim.mode = .normal ∨ e.vim.mode = .visual kind →
        Sits e.buffer.caret e.buffer.len) ∧
      ∀ kind, e.vim.mode = .visual kind → Sits e.vim.anchor e.buffer.len := by
  have hnew : Seated ⟨.new, b, none⟩ := .of_insert rfl hb
  have hseated : Seated e := by
    refine Machine.exec_invariant (fun s p s' hI hC hstep => ?_) hnew hlands hrun
    obtain ⟨r, hpress, rfl⟩ := Option.map_eq_some_iff.mp hstep
    exact seated_press hI hC hpress
  refine ⟨hseated.within, fun kind hmode => hseated.caret ?_, fun kind hmode => ?_⟩
  · rcases hmode with hmode | hmode <;> rw [hmode] <;> exact nofun
  · exact hseated.anchor (by rw [hmode]; rfl)

end Runs

/-- `x`, a dot, a put over a selection, and visual mode again. -/
theorem caret_on_char_after_dot :
    letI := asciiCase
    let start : Editor := ⟨.new, ⟨['a', ' ', 'b', 'c', 'd', 'e'], 6⟩, none⟩
    ∃ e : Editor,
      (session start).exec start
        [.of .escape, .of (.char '0'), .of (.char 'w'), .of (.char 'x'), .of (.char '.'),
          .of (.char 'v'), .of (.char 'p'), .of (.char 'v')] = some e ∧
      e.vim.mode = .visual .charwise ∧ e.buffer.text = ['a', ' ', 'c', 'e'] ∧
      Sits e.buffer.caret e.buffer.len ∧ Sits e.vim.anchor e.buffer.len := by
  let _ := asciiCase
  intro start
  have hlands : (session start).Along (fun e p => landsPress e p = true) start
      [.of .escape, .of (.char '0'), .of (.char 'w'), .of (.char 'x'), .of (.char '.'),
        .of (.char 'v'), .of (.char 'p'), .of (.char 'v')] := by decide
  have hend : ((session start).exec start
      [.of .escape, .of (.char '0'), .of (.char 'w'), .of (.char 'x'), .of (.char '.'),
        .of (.char 'v'), .of (.char 'p'), .of (.char 'v')]).map
      (fun e => (e.vim.mode, e.buffer.text)) =
      some (.visual .charwise, ['a', ' ', 'c', 'e']) := by decide
  obtain ⟨e, hrun, hstate⟩ := Option.map_eq_some_iff.mp hend
  obtain ⟨hmode, htext⟩ := Prod.mk.inj hstate
  have hcaret := caret_on_char (b := ⟨['a', ' ', 'b', 'c', 'd', 'e'], 6⟩) (by decide) hlands hrun
  exact ⟨e, hrun, hmode, htext, hcaret.2.1 .charwise (.inr hmode), hcaret.2.2 .charwise hmode⟩

/-- `$ x` leaves the caret past the end of the text, in normal mode. -/
theorem not_caret_on_char :
    letI := asciiCase
    ∃ e : Editor,
      (session ⟨.new, ⟨['a', 'b'], 0⟩, none⟩).exec ⟨.new, ⟨['a', 'b'], 0⟩, none⟩
        [.of .escape, .of (.char '$'), .of (.char 'x')] = some e ∧
      e.vim.mode = .normal ∧ e.buffer = ⟨['a'], 1⟩ ∧ ¬Sits e.buffer.caret e.buffer.len := by
  refine ⟨_, rfl, rfl, rfl, ?_⟩
  decide

end Editor

end Goble.Vim
