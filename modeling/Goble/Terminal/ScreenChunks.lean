import Goble.Terminal.Emulator
import Goble.Terminal.ImagePieces
import Goble.Terminal.Screen

/-!
# The screen and the cutting of its stream

A pane's output reaches the screen in as many calls as there were reads, each with the pieces that
the hook tap released in that read.

Within a call, bytes that follow bytes are parsed in one go, and whether the program swapped the
primary and the alternate screen is read off the ends: a program that leaves and comes back in
between is not noticed (`Screen.HiddenSwitch`), where another cutting clears the images. This is
the only way the cutting shows, `agree_iff_noHiddenSwitch`.
-/

namespace Goble.Terminal

/-! ### Calls of the screen -/

namespace Screen

variable {T : Type} (vt : Vt T) (png : List UInt8 → Option (Nat × Nat × List UInt8))

/-- What the chunks of a call act on. -/
def view (screen : Screen T) : T × ImageCache := (screen.term, screen.images)

section View

variable {vt} {a b : Screen T}

theorem view_advance (screen : Screen T) (bytes : List UInt8) :
    (screen.advance vt bytes).view = (vt.advance screen.term bytes,
      if vt.altScreen (vt.advance screen.term bytes) ≠ vt.altScreen screen.term then
        screen.images.clear
      else screen.images) := by
  by_cases hswap : vt.altScreen (vt.advance screen.term bytes) ≠ vt.altScreen screen.term
  · have hadvance : screen.advance vt bytes =
        { screen with
          term := vt.advance screen.term bytes
          images := screen.images.clear } := if_pos hswap
    rw [hadvance, if_pos hswap]
    rfl
  · have hadvance : screen.advance vt bytes =
        { screen with term := vt.advance screen.term bytes } := if_neg hswap
    rw [hadvance, if_neg hswap]
    rfl

theorem view_perform (h : a.view = b.view) (chunk : ImageChunk) :
    (a.perform vt chunk).view = (b.perform vt chunk).view := by
  obtain ⟨hterm, himages⟩ := Prod.mk.inj h
  cases chunk with
  | bytes bytes => rw [perform, view_advance, perform, view_advance, hterm, himages]
  | image event =>
    simp only [perform, placementCell, historySize, view, hterm, himages]
  | delete delete => cases delete <;> simp only [perform, deleteImages, view, hterm, himages]

theorem view_foldl_perform (h : a.view = b.view) (chunks : List ImageChunk) :
    (chunks.foldl (perform vt) a).view = (chunks.foldl (perform vt) b).view := by
  induction chunks generalizing a b with
  | nil => exact h
  | cons chunk chunks ih => exact ih (view_perform h chunk)

theorem foldl_perform_rest (chunks : List ImageChunk) (screen : Screen T) :
    (chunks.foldl (perform vt) screen).imageTap = screen.imageTap ∧
      (chunks.foldl (perform vt) screen).frozen = screen.frozen := by
  induction chunks generalizing screen with
  | nil => exact ⟨rfl, rfl⟩
  | cons chunk chunks ih =>
    have hone : (screen.perform vt chunk).imageTap = screen.imageTap ∧
        (screen.perform vt chunk).frozen = screen.frozen := by
      cases chunk with
      | bytes bytes =>
        simp only [perform, advance]
        split <;> exact ⟨rfl, rfl⟩
      | image event => exact ⟨rfl, rfl⟩
      | delete delete => cases delete <;> exact ⟨rfl, rfl⟩
    rw [List.foldl_cons, (ih _).1, (ih _).2]
    exact hone

end View

/-- The parts of a screen that `feed` reads. -/
def core (screen : Screen T) : (T × ImageCache) × ImageTap × Bool :=
  (screen.view, screen.imageTap, screen.frozen)

variable {vt} {png} {screen : Screen T}

theorem core_feed (hfrozen : screen.frozen = false) (bytes : List UInt8) :
    (screen.feed vt png bytes).core =
      (((screen.imageTap.tap png bytes).2.foldl (perform vt) screen).view,
        (screen.imageTap.tap png bytes).1, false) := by
  have hview := @view_foldl_perform T vt
    { screen with imageTap := (screen.imageTap.tap png bytes).1 } screen rfl
    (screen.imageTap.tap png bytes).2
  obtain ⟨htap, hfree⟩ := @foldl_perform_rest T vt (screen.imageTap.tap png bytes).2
    { screen with imageTap := (screen.imageTap.tap png bytes).1 }
  rw [feed, if_neg (by rw [hfrozen]; exact Bool.false_ne_true)]
  rw [← hview]
  exact Prod.ext rfl (Prod.ext htap (hfree.trans hfrozen))

theorem core_feed_congr {a b : Screen T} (h : a.core = b.core) (hfrozen : b.frozen = false)
    (bytes : List UInt8) : (a.feed vt png bytes).core = (b.feed vt png bytes).core := by
  obtain ⟨hview, hrest⟩ := Prod.mk.inj h
  obtain ⟨htap, hsame⟩ := Prod.mk.inj hrest
  rw [core_feed (hsame.trans hfrozen), core_feed hfrozen, htap, view_foldl_perform hview]

/-! ### Runs of bytes -/

/-- Chunks that are parsed in one go. -/
def IsRun (out : List ImageChunk) : Prop := out = [] ∨ ∃ bytes, out = [.bytes bytes]

/-- A call finds a run only if it did so before its last piece, which adds bytes or nothing. -/
theorem IsRun.of_onto {out : List ImageChunk} {e : Emission} (h : IsRun (e.onto out)) :
    IsRun out ∧ (e = .nothing ∨ ∃ bytes, e.onto [] = [.bytes bytes] ∧
      (out = [] ∧ e.onto out = [.bytes bytes] ∨
        ∃ xs, out = [.bytes xs] ∧ e.onto out = [.bytes (xs ++ bytes)])) := by
  cases e with
  | nothing => exact ⟨h, .inl rfl⟩
  | join bytes =>
    by_cases hlast : ∃ init xs, out = init ++ [.bytes xs]
    · obtain ⟨init, xs, rfl⟩ := hlast
      have honto : Emission.onto (init ++ [.bytes xs]) (.join bytes) =
          init ++ [.bytes (xs ++ bytes)] := ImageTap.pushBytes_append init xs bytes
      rw [honto] at h ⊢
      obtain hnil | ⟨zs, hone⟩ := h
      · exact absurd hnil (List.append_ne_nil_of_right_ne_nil _ (List.cons_ne_nil _ _))
      · obtain ⟨rfl, -⟩ : init = [] ∧ _ := by simpa [List.append_eq_singleton_iff] using hone
        exact ⟨.inr ⟨xs, rfl⟩, .inr ⟨bytes, rfl, .inr ⟨xs, rfl, rfl⟩⟩⟩
    · have hapart : ∀ xs, out.getLast? ≠ some (.bytes xs) := by
        intro xs hxs
        obtain ⟨init, hinit⟩ := List.getLast?_eq_some_iff.mp hxs
        exact hlast ⟨init, xs, hinit⟩
      rw [Emission.onto, ImageTap.pushBytes_apart hapart] at h
      obtain rfl : out = [] := by
        obtain hnil | ⟨zs, hone⟩ := h
        · exact (List.append_eq_nil_iff.mp hnil).1
        · exact And.left (by simpa [List.append_eq_singleton_iff] using hone)
      exact ⟨.inl rfl, .inr ⟨bytes, rfl, .inl ⟨rfl, rfl⟩⟩⟩
  | push chunk =>
    obtain hnil | ⟨bytes, hone⟩ := h
    · exact absurd hnil (List.append_ne_nil_of_right_ne_nil _ (List.cons_ne_nil _ _))
    · obtain ⟨rfl, rfl⟩ : out = [] ∧ chunk = .bytes bytes := by
        simpa [Emission.onto, List.append_eq_singleton_iff] using hone
      exact ⟨.inl rfl, .inr ⟨bytes, rfl, .inl ⟨rfl, rfl⟩⟩⟩

variable (vt) (png) in
def feedAll (screen : Screen T) (pieces : List (List UInt8)) : Screen T :=
  pieces.foldl (feed vt png) screen

theorem feedAll_append (screen : Screen T) (xs ys : List (List UInt8)) :
    feedAll vt png screen (xs ++ ys) = feedAll vt png (feedAll vt png screen xs) ys :=
  List.foldl_append

theorem feedAll_concat (screen : Screen T) (xs : List (List UInt8)) (piece : List UInt8) :
    feedAll vt png screen (xs ++ [piece]) = (feedAll vt png screen xs).feed vt png piece :=
  feedAll_append screen xs [piece]

variable {pieces : List (List UInt8)}

theorem feedAll_rest (hfrozen : screen.frozen = false)
    (hatomic : ∀ piece ∈ pieces, ImageTap.Atomic png piece) :
    (feedAll vt png screen pieces).imageTap = (screen.imageTap.tap png pieces.flatten).1 ∧
      (feedAll vt png screen pieces).frozen = false := by
  induction pieces using List.reverseRecOn with
  | nil => exact ⟨rfl, hfrozen⟩
  | append_singleton pieces piece ih =>
    obtain ⟨htap, hfree⟩ := ih fun p hp => hatomic p (List.mem_append_left _ hp)
    obtain ⟨next, e, he⟩ := hatomic piece List.mem_concat_self
      (screen.imageTap.tap png pieces.flatten).1
    have hcore := @core_feed T vt png (feedAll vt png screen pieces) hfree piece
    obtain ⟨-, hrest⟩ := Prod.mk.inj hcore
    obtain ⟨htap', hfree'⟩ := Prod.mk.inj hrest
    rw [feedAll_concat]
    refine ⟨?_, hfree'⟩
    rw [htap', htap, List.flatten_append, List.flatten_singleton, he.tap_append, he.tap_eq]

structure RunOutcome (vt : Vt T) (png : List UInt8 → Option (Nat × Nat × List UInt8))
    (screen : Screen T) (pieces : List (List UInt8)) : Prop where
  term_eq : (feedAll vt png screen pieces).term =
    ((screen.imageTap.tap png pieces.flatten).2.foldl (perform vt) screen).term
  kept : (∀ early, early <+: pieces →
      (feedAll vt png screen early).isAltScreen vt = screen.isAltScreen vt) →
    (feedAll vt png screen pieces).images = screen.images
  cleared : (∃ early, early <+: pieces ∧
      (feedAll vt png screen early).isAltScreen vt ≠ screen.isAltScreen vt) →
    (feedAll vt png screen pieces).images = screen.images.clear

theorem RunOutcome.nothing {piece : List UInt8} (h : RunOutcome vt png screen pieces)
    (hview : (feedAll vt png screen (pieces ++ [piece])).view =
      (feedAll vt png screen pieces).view)
    (hout : (screen.imageTap.tap png (pieces ++ [piece]).flatten).2 =
      (screen.imageTap.tap png pieces.flatten).2) :
    RunOutcome vt png screen (pieces ++ [piece]) := by
  obtain ⟨hterm, himages⟩ := Prod.mk.inj hview
  have halt : (feedAll vt png screen (pieces ++ [piece])).isAltScreen vt =
      (feedAll vt png screen pieces).isAltScreen vt := by
    rw [isAltScreen, hterm]
    rfl
  refine ⟨by rw [hterm, hout, h.term_eq], fun hsame => ?_, fun ⟨early, hearly, hne⟩ => ?_⟩
  · rw [himages]
    exact h.kept fun early hearly => hsame early (hearly.trans (List.prefix_append _ _))
  · rw [himages]
    obtain rfl | hearly := List.prefix_concat_iff.mp hearly
    · exact h.cleared ⟨pieces, List.prefix_rfl, halt ▸ hne⟩
    · exact h.cleared ⟨early, hearly, hne⟩

theorem RunOutcome.bytes {piece bytes : List UInt8} (h : RunOutcome vt png screen pieces)
    (hview : (feedAll vt png screen (pieces ++ [piece])).view =
      ((feedAll vt png screen pieces).advance vt bytes).view)
    (hout : ((screen.imageTap.tap png (pieces ++ [piece]).flatten).2.foldl (perform vt)
      screen).term = vt.advance (feedAll vt png screen pieces).term bytes) :
    RunOutcome vt png screen (pieces ++ [piece]) := by
  rw [view_advance] at hview
  obtain ⟨hterm, himages⟩ := Prod.mk.inj hview
  have hlast : (feedAll vt png screen (pieces ++ [piece])).isAltScreen vt =
      vt.altScreen (vt.advance (feedAll vt png screen pieces).term bytes) := by
    rw [isAltScreen, hterm]
  have hpieces : vt.altScreen (feedAll vt png screen pieces).term =
      (feedAll vt png screen pieces).isAltScreen vt := rfl
  rw [← hlast, hpieces] at himages
  refine ⟨hterm.trans hout.symm, fun hsame => ?_, fun ⟨early, hearly, hne⟩ => ?_⟩
  · -- the alternate screen is that of the beginning before and after the piece
    have hbefore := hsame pieces (List.prefix_append _ _)
    have hafter := hsame (pieces ++ [piece]) List.prefix_rfl
    rw [himages, if_neg (not_not.mpr (hafter.trans hbefore.symm))]
    exact h.kept fun early hearly => hsame early (hearly.trans (List.prefix_append _ _))
  · by_cases hsame : ∀ early, early <+: pieces →
        (feedAll vt png screen early).isAltScreen vt = screen.isAltScreen vt
    · -- it was so up to here, so the piece is where it changes
      have hswap : (feedAll vt png screen (pieces ++ [piece])).isAltScreen vt ≠
          (feedAll vt png screen pieces).isAltScreen vt := by
        rw [hsame pieces List.prefix_rfl]
        obtain rfl | hearly := List.prefix_concat_iff.mp hearly
        · exact hne
        · exact absurd (hsame early hearly) hne
      rw [himages]
      exact (if_pos hswap).trans (congrArg ImageCache.clear (h.kept hsame))
    · -- the images are gone already
      simp only [not_forall] at hsame
      obtain ⟨gone, hgone, hswap⟩ := hsame
      rw [himages, h.cleared ⟨gone, hgone, hswap⟩]
      split <;> rfl

theorem runOutcome (hvt : vt.ChunkInvariant) (hfrozen : screen.frozen = false)
    (hatomic : ∀ piece ∈ pieces, ImageTap.Atomic png piece)
    (hrun : IsRun (screen.imageTap.tap png pieces.flatten).2) :
    RunOutcome vt png screen pieces := by
  induction pieces using List.reverseRecOn with
  | nil =>
    refine ⟨rfl, fun _ => rfl, fun ⟨early, hearly, hne⟩ => ?_⟩
    obtain rfl := List.prefix_nil.mp hearly
    exact absurd rfl hne
  | append_singleton pieces piece ih =>
    have hbefore : ∀ p ∈ pieces, ImageTap.Atomic png p :=
      fun p hp => hatomic p (List.mem_append_left _ hp)
    obtain ⟨htap, hfree⟩ := @feedAll_rest T vt png screen pieces hfrozen hbefore
    obtain ⟨next, e, he⟩ := hatomic piece List.mem_concat_self
      (screen.imageTap.tap png pieces.flatten).1
    have hout : (screen.imageTap.tap png (pieces ++ [piece]).flatten).2 =
        e.onto (screen.imageTap.tap png pieces.flatten).2 := by
      rw [List.flatten_append, List.flatten_singleton, he.tap_append]
    -- the call of the piece alone, from where the pieces before it lead
    have hview : (feedAll vt png screen (pieces ++ [piece])).view =
        ((e.onto []).foldl (perform vt) (feedAll vt png screen pieces)).view := by
      rw [feedAll_concat]
      refine (congrArg Prod.fst (core_feed hfree piece)).trans ?_
      rw [htap, he.tap_eq]
    rw [hout] at hrun
    obtain ⟨hrun, rfl | ⟨bytes, honto, hcases⟩⟩ := hrun.of_onto
    · exact (ih hbefore hrun).nothing hview hout
    · have hprev := ih hbefore hrun
      rw [honto] at hview
      refine hprev.bytes hview ?_
      rw [hout, hprev.term_eq]
      obtain ⟨hnil, hone⟩ | ⟨xs, hxs, hone⟩ := hcases
      · rw [hone, hnil]
        exact congrArg Prod.fst (view_advance screen bytes)
      · rw [hone, hxs]
        calc (screen.advance vt (xs ++ bytes)).term
            = vt.advance screen.term (xs ++ bytes) :=
              congrArg Prod.fst (view_advance screen (xs ++ bytes))
          _ = vt.advance (vt.advance screen.term xs) bytes := hvt _ _ _
          _ = vt.advance (screen.advance vt xs).term bytes :=
              congrArg (vt.advance · bytes) (congrArg Prod.fst (view_advance screen xs)).symm

/-- The screen holds images, the pieces are parsed in one go, and the program swaps the primary
and the alternate screen back and forth between their ends. -/
def HiddenSwitch (vt : Vt T) (png : List UInt8 → Option (Nat × Nat × List UInt8))
    (screen : Screen T) (pieces : List (List UInt8)) : Prop :=
  screen.images.images ≠ [] ∧ IsRun (screen.imageTap.tap png pieces.flatten).2 ∧
    (feedAll vt png screen pieces).isAltScreen vt = screen.isAltScreen vt ∧
    ∃ early, early <+: pieces ∧
      (feedAll vt png screen early).isAltScreen vt ≠ screen.isAltScreen vt

theorem images_foldl_run {out : List ImageChunk} (hrun : IsRun out) (screen : Screen T) :
    (out.foldl (perform vt) screen).images =
      if vt.altScreen (out.foldl (perform vt) screen).term ≠ vt.altScreen screen.term then
        screen.images.clear
      else screen.images := by
  obtain rfl | ⟨bytes, rfl⟩ := hrun
  · exact (if_neg (not_not.mpr rfl)).symm
  · have hview := @view_advance T vt screen bytes
    obtain ⟨hterm, himages⟩ := Prod.mk.inj hview
    have hfold : [ImageChunk.bytes bytes].foldl (perform vt) screen = screen.advance vt bytes := rfl
    rw [hfold, hterm]
    exact himages

theorem view_run (hvt : vt.ChunkInvariant) (hfrozen : screen.frozen = false)
    (hatomic : ∀ piece ∈ pieces, ImageTap.Atomic png piece)
    (hrun : IsRun (screen.imageTap.tap png pieces.flatten).2)
    (hvisible : ¬ HiddenSwitch vt png screen pieces) :
    ((screen.imageTap.tap png pieces.flatten).2.foldl (perform vt) screen).view =
      (feedAll vt png screen pieces).view := by
  have houtcome := runOutcome hvt hfrozen hatomic hrun
  refine Prod.ext houtcome.term_eq.symm ?_
  change _ = (feedAll vt png screen pieces).images
  refine (images_foldl_run hrun screen).trans ?_
  rw [← houtcome.term_eq]
  by_cases hends : (feedAll vt png screen pieces).isAltScreen vt = screen.isAltScreen vt
  · refine (if_neg (not_not.mpr hends)).trans ?_
    by_cases hsame : ∀ early, early <+: pieces →
        (feedAll vt png screen early).isAltScreen vt = screen.isAltScreen vt
    · exact (houtcome.kept hsame).symm
    · simp only [not_forall] at hsame
      obtain ⟨early, hearly, hne⟩ := hsame
      -- a switch and back, so there are no images to clear
      have hempty : screen.images.images = [] := by
        by_contra himages
        exact hvisible ⟨himages, hrun, hends, early, hearly, hne⟩
      rw [houtcome.cleared ⟨early, hearly, hne⟩, ImageCache.clear_of_empty hempty]
  · exact (if_pos hends).trans (houtcome.cleared ⟨pieces, List.prefix_rfl, hends⟩).symm

/-- Where the last run of a call begins: the chunks before it lead to the screen that its first
pieces lead to one by one, and none of them would take bytes of the run. -/
def Split (vt : Vt T) (png : List UInt8 → Option (Nat × Nat × List UInt8)) (screen : Screen T)
    (pieces : List (List UInt8)) : Prop :=
  ∃ ys zs pre, pieces = ys ++ zs ∧
    (screen.imageTap.tap png pieces.flatten).2 =
      pre ++ ((feedAll vt png screen ys).imageTap.tap png zs.flatten).2 ∧
    IsRun ((feedAll vt png screen ys).imageTap.tap png zs.flatten).2 ∧
    (((feedAll vt png screen ys).imageTap.tap png zs.flatten).2 = [] →
      ∀ bytes, pre.getLast? ≠ some (.bytes bytes)) ∧
    (pre.foldl (perform vt) screen).view = (feedAll vt png screen ys).view

theorem Split.view_eq (h : Split vt png screen pieces) (hvt : vt.ChunkInvariant)
    (hfrozen : screen.frozen = false) (hatomic : ∀ piece ∈ pieces, ImageTap.Atomic png piece)
    (hvisible : ∀ ys zs, ys ++ zs <+: pieces →
      ¬ HiddenSwitch vt png (feedAll vt png screen ys) zs) :
    ((screen.imageTap.tap png pieces.flatten).2.foldl (perform vt) screen).view =
      (feedAll vt png screen pieces).view := by
  obtain ⟨ys, zs, pre, rfl, hout, hrun, -, hpre⟩ := h
  have hfree : (feedAll vt png screen ys).frozen = false :=
    (feedAll_rest hfrozen fun p hp => hatomic p (List.mem_append_left _ hp)).2
  rw [hout, List.foldl_append, view_foldl_perform hpre, feedAll_append]
  exact view_run hvt hfree (fun p hp => hatomic p (List.mem_append_right _ hp)) hrun
    (hvisible ys zs List.prefix_rfl)

theorem Split.concat {piece : List UInt8} (h : Split vt png screen pieces) (hvt : vt.ChunkInvariant)
    (hfrozen : screen.frozen = false) (hatomic : ∀ p ∈ pieces ++ [piece], ImageTap.Atomic png p)
    (hvisible : ∀ ys zs, ys ++ zs <+: pieces →
      ¬ HiddenSwitch vt png (feedAll vt png screen ys) zs) :
    Split vt png screen (pieces ++ [piece]) := by
  have hbefore : ∀ p ∈ pieces, ImageTap.Atomic png p :=
    fun p hp => hatomic p (List.mem_append_left _ hp)
  obtain ⟨htap, hfree⟩ := @feedAll_rest T vt png screen pieces hfrozen hbefore
  have hview := h.view_eq hvt hfrozen hbefore hvisible
  obtain ⟨ys, zs, pre, rfl, hout, hrun, hapart, hpre⟩ := h
  obtain ⟨next, e, he⟩ := hatomic piece List.mem_concat_self
    (feedAll vt png screen (ys ++ zs)).imageTap
  -- the piece adds `e` to the call and to its last run
  have hcall : (screen.imageTap.tap png (ys ++ zs ++ [piece]).flatten).2 =
      e.onto (screen.imageTap.tap png (ys ++ zs).flatten).2 := by
    rw [htap] at he
    rw [List.flatten_append, List.flatten_singleton, he.tap_append]
  have hlast : ((feedAll vt png screen ys).imageTap.tap png (zs ++ [piece]).flatten).2 =
      e.onto ((feedAll vt png screen ys).imageTap.tap png zs.flatten).2 := by
    obtain ⟨htap', -⟩ := @feedAll_rest T vt png (feedAll vt png screen ys) zs
      (feedAll_rest hfrozen fun p hp => hbefore p (List.mem_append_left _ hp)).2
      (fun p hp => hbefore p (List.mem_append_right _ hp))
    rw [feedAll_append, htap'] at he
    rw [List.flatten_append, List.flatten_singleton, he.tap_append]
  have halone : ((feedAll vt png screen (ys ++ zs)).imageTap.tap png [piece].flatten).2 =
      e.onto [] := by
    rw [List.flatten_singleton, he.tap_eq]
  cases e with
  | nothing =>
    refine ⟨ys, zs ++ [piece], pre, List.append_assoc _ _ _, ?_, ?_, ?_, hpre⟩
    · rw [hcall, hlast]
      exact hout
    · rw [hlast]
      exact hrun
    · rw [hlast]
      exact hapart
  | join bytes =>
    have hjoin : (Emission.join bytes).onto
        (pre ++ ((feedAll vt png screen ys).imageTap.tap png zs.flatten).2) =
          pre ++ (Emission.join bytes).onto
            ((feedAll vt png screen ys).imageTap.tap png zs.flatten).2 ∧
        ∃ xs, (Emission.join bytes).onto
          ((feedAll vt png screen ys).imageTap.tap png zs.flatten).2 = [.bytes xs] := by
      obtain hnil | ⟨xs, hxs⟩ := hrun
      · rw [hnil, List.append_nil]
        exact ⟨ImageTap.pushBytes_apart (hapart hnil) bytes, bytes, rfl⟩
      · rw [hxs]
        exact ⟨ImageTap.pushBytes_append pre xs bytes, xs ++ bytes, rfl⟩
    obtain ⟨hjoin, xs, hxs⟩ := hjoin
    refine ⟨ys, zs ++ [piece], pre, List.append_assoc _ _ _, ?_, ?_, ?_, hpre⟩
    · rw [hcall, hlast, hout, hjoin]
    · rw [hlast, hxs]
      exact .inr ⟨xs, rfl⟩
    · rw [hlast, hxs]
      exact fun hnil => absurd hnil (List.cons_ne_nil _ _)
  | push chunk =>
    by_cases hbytes : ∃ bytes, chunk = .bytes bytes
    · -- the run is over and the next one begins with the piece
      obtain ⟨bytes, rfl⟩ := hbytes
      refine ⟨ys ++ zs, [piece], (screen.imageTap.tap png (ys ++ zs).flatten).2, rfl,
        hcall.trans ?_, ?_, ?_, hview⟩
      · rw [halone]
        rfl
      · rw [halone]
        exact .inr ⟨bytes, rfl⟩
      · rw [halone]
        exact fun hnil => absurd hnil (List.cons_ne_nil _ _)
    · -- an image or a delete stands between the runs
      refine ⟨ys ++ zs ++ [piece], [], (screen.imageTap.tap png (ys ++ zs).flatten).2 ++ [chunk],
        (List.append_nil _).symm, hcall.trans (List.append_nil _).symm, .inl rfl, ?_, ?_⟩
      · intro _ bytes hchunk
        rw [List.getLast?_concat] at hchunk
        exact hbytes ⟨bytes, Option.some.inj hchunk⟩
      · have hcore := congrArg Prod.fst (@core_feed T vt png _ hfree piece)
        rw [he.tap_eq] at hcore
        rw [feedAll_concat, List.foldl_append]
        exact (view_perform hview chunk).trans hcore.symm

theorem split_of_visible (hvt : vt.ChunkInvariant) (hfrozen : screen.frozen = false)
    (hatomic : ∀ piece ∈ pieces, ImageTap.Atomic png piece)
    (hvisible : ∀ ys zs, ys ++ zs <+: pieces →
      ¬ HiddenSwitch vt png (feedAll vt png screen ys) zs) :
    Split vt png screen pieces := by
  induction pieces using List.reverseRecOn with
  | nil =>
    refine ⟨[], [], [], rfl, rfl, .inl rfl, fun _ bytes hlast => ?_, rfl⟩
    cases hlast
  | append_singleton pieces piece ih =>
    have hbefore : ∀ ys zs, ys ++ zs <+: pieces →
        ¬ HiddenSwitch vt png (feedAll vt png screen ys) zs :=
      fun ys zs hle => hvisible ys zs (hle.trans (List.prefix_append _ _))
    have hsplit := ih (fun p hp => hatomic p (List.mem_append_left _ hp)) hbefore
    exact hsplit.concat hvt hfrozen hatomic hbefore

/-- **One call or many.** Without a hidden switch, a call leads where its pieces lead one by
one. -/
theorem core_feed_flatten (hvt : vt.ChunkInvariant) (hfrozen : screen.frozen = false)
    (hatomic : ∀ piece ∈ pieces, ImageTap.Atomic png piece)
    (hvisible : ∀ ys zs, ys ++ zs <+: pieces →
      ¬ HiddenSwitch vt png (feedAll vt png screen ys) zs) :
    (screen.feed vt png pieces.flatten).core = (feedAll vt png screen pieces).core := by
  obtain ⟨htap, hfree⟩ := @feedAll_rest T vt png screen pieces hfrozen hatomic
  have hview := (split_of_visible hvt hfrozen hatomic hvisible).view_eq hvt hfrozen hatomic hvisible
  rw [core_feed hfrozen, hview, ← htap, ← hfree]
  rfl

theorem core_feedAll_flatten (hvt : vt.ChunkInvariant) (hfrozen : screen.frozen = false)
    {calls : List (List (List UInt8))}
    (hatomic : ∀ piece ∈ calls.flatten, ImageTap.Atomic png piece)
    (hvisible : ∀ us vs, us ++ vs <+: calls.flatten →
      ¬ HiddenSwitch vt png (feedAll vt png screen us) vs) :
    (feedAll vt png screen (calls.map List.flatten)).core =
      (feedAll vt png screen calls.flatten).core := by
  induction calls using List.reverseRecOn with
  | nil => rfl
  | append_singleton calls call ih =>
    rw [List.flatten_append, List.flatten_singleton] at hatomic hvisible ⊢
    have hbefore : ∀ piece ∈ calls.flatten, ImageTap.Atomic png piece :=
      fun p hp => hatomic p (List.mem_append_left _ hp)
    have hfree := (@feedAll_rest T vt png screen _ hfrozen hbefore).2
    have hcalls := ih hbefore fun us vs hle => hvisible us vs (hle.trans (List.prefix_append _ _))
    rw [List.map_append, List.map_singleton, feedAll_concat, core_feed_congr hcalls hfree,
      feedAll_append]
    refine core_feed_flatten hvt hfree (fun p hp => hatomic p (List.mem_append_right _ hp)) ?_
    intro ys zs hle
    rw [← feedAll_append]
    refine hvisible _ zs ?_
    rw [List.append_assoc]
    exact (List.prefix_append_right_inj _).mpr hle

theorem not_agree_of_hidden (hvt : vt.ChunkInvariant) (hfrozen : screen.frozen = false)
    (hatomic : ∀ piece ∈ pieces, ImageTap.Atomic png piece)
    (hhidden : HiddenSwitch vt png screen pieces) :
    ¬ Agree (screen.feed vt png pieces.flatten) (feedAll vt png screen pieces) := by
  obtain ⟨himages, hrun, hends, hswitch⟩ := hhidden
  have houtcome := runOutcome hvt hfrozen hatomic hrun
  have hkept : (screen.feed vt png pieces.flatten).images = screen.images := by
    have hview := congrArg Prod.fst (@core_feed T vt png screen hfrozen pieces.flatten)
    refine (congrArg Prod.snd hview).trans ((images_foldl_run hrun screen).trans ?_)
    rw [← houtcome.term_eq]
    exact if_neg (not_not.mpr hends)
  intro hagree
  have hsame := hagree.2
  rw [hkept, houtcome.cleared hswitch] at hsame
  exact himages hsame

end Screen

section Emulator

variable {T B : Type} {vt : Vt T} {png : List UInt8 → Option (Nat × Nat × List UInt8)}

theorem Emulator.screen_foldl_feed {I : Interface B (Screen T)}
    (hscreen : I.feedScreen = Screen.feed vt png) (em : Emulator B (Screen T))
    (chunks : List (List UInt8)) :
    (chunks.foldl (feed I) em).screen =
      Screen.feedAll vt png em.screen
        ((HookTap.calls I.serde em.hooks chunks).map List.flatten) := by
  induction chunks generalizing em with
  | nil => rfl
  | cons chunk chunks ih =>
    rw [List.foldl_cons, ih, hooks_feed, screen_feed, hscreen, HookTap.calls, List.map_cons,
      HookTap.flatten_released]
    rfl

/-- **The screen does not depend on the cutting, hidden switches apart.** However the output of a
pane is cut into reads, its screens agree on the grid and on the image placements, at the end of
the stream and after every beginning of it, exactly if no run of bytes that begins while images
are held swaps the primary and the alternate screen back and forth. -/
theorem agree_iff_noHiddenSwitch (hvt : vt.ChunkInvariant) (I : Interface B (Screen T))
    (hscreen : I.feedScreen = Screen.feed vt png) (blocks : B) (term : T) (screenLines : Nat)
    (s : List UInt8) :
    (∀ read, read <+: s → ∀ xs ys : List (List UInt8), xs.flatten = read → ys.flatten = read →
      Screen.Agree
        (xs.foldl (Emulator.feed I) (.new blocks (.new term screenLines))).screen
        (ys.foldl (Emulator.feed I) (.new blocks (.new term screenLines))).screen) ↔
    ∀ us vs, us ++ vs <+: HookTap.released I.serde .new s →
      ¬ Screen.HiddenSwitch vt png (Screen.feedAll vt png (.new term screenLines) us) vs := by
  have hatomic :
      ∀ input, ∀ piece ∈ HookTap.released I.serde .new input, ImageTap.Atomic png piece :=
    fun input => HookTap.released_atomic HookTap.holding_new input
  have hfold : ∀ chunks : List (List UInt8),
      (chunks.foldl (Emulator.feed I) (.new blocks (.new term screenLines))).screen =
        Screen.feedAll vt png (.new term screenLines)
          ((HookTap.calls I.serde .new chunks).map List.flatten) :=
    fun chunks => Emulator.screen_foldl_feed hscreen _ chunks
  constructor
  · intro hagree us vs hle hhidden
    -- the pieces come from reads of one byte and one read after them
    obtain ⟨read, hread, hpieces⟩ := HookTap.exists_of_prefix I.serde hle
    obtain ⟨u, ⟨v, rfl⟩, rfl⟩ := HookTap.exists_of_prefix I.serde
      (hpieces ▸ List.prefix_append us vs)
    have hflat : ∀ input : List UInt8, (input.map ([·])).flatten = input :=
      fun input => List.flatMap_def.symm.trans (List.flatMap_singleton' input)
    have hscreens := hagree (u ++ v) hread (u.map ([·]) ++ [v]) ((u ++ v).map ([·]))
      (by rw [List.flatten_append, hflat, List.flatten_singleton]) (hflat _)
    have hall := hatomic (u ++ v)
    rw [hfold, hfold, HookTap.calls_singletons_concat, HookTap.calls_singletons,
      Screen.feedAll_concat] at hscreens
    rw [HookTap.released_append] at hpieces hscreens hall
    rw [Screen.feedAll_append] at hscreens
    obtain rfl := List.append_cancel_left hpieces
    refine Screen.not_agree_of_hidden hvt ?_ (fun p hp => hall p (List.mem_append_right _ hp))
      hhidden hscreens
    exact (Screen.feedAll_rest rfl fun p hp => hall p (List.mem_append_left _ hp)).2
  · intro hvisible read hread xs ys hxs hys
    have hcut : ∀ chunks : List (List UInt8), chunks.flatten = read →
        (chunks.foldl (Emulator.feed I) (.new blocks (.new term screenLines))).screen.core =
          (Screen.feedAll vt png (.new term screenLines)
            (HookTap.released I.serde .new read)).core := by
      intro chunks hchunks
      have hcalls := HookTap.flatten_calls I.serde .new chunks
      rw [hchunks] at hcalls
      rw [hfold, ← hcalls]
      refine Screen.core_feedAll_flatten hvt rfl ?_ ?_
      · rw [hcalls]
        exact hatomic read
      · rw [hcalls]
        obtain ⟨rest, rfl⟩ := hread
        intro us vs hle
        refine hvisible us vs (hle.trans ?_)
        rw [HookTap.released_append]
        exact List.prefix_append _ _
    have hview := congrArg Prod.fst ((hcut xs hxs).trans (hcut ys hys).symm)
    exact ⟨congrArg Prod.fst hview, congrArg (fun v => v.2.images) hview⟩

end Emulator

/-! ### A parser that only knows the alternate screen -/

/-- `ESC [ ? 1 0 4 9 h` -/
def enterAlt : List UInt8 := [0x1b, 0x5b, 0x3f, 0x31, 0x30, 0x34, 0x39, 0x68]

/-- `ESC [ ? 1 0 4 9 l` -/
def leaveAlt : List UInt8 := [0x1b, 0x5b, 0x3f, 0x31, 0x30, 0x34, 0x39, 0x6c]

/-- Whether the last switch of a text enters the alternate screen. -/
def altAfter (alt : Bool) : List UInt8 → Bool
  | [] => alt
  | byte :: rest =>
    if enterAlt.isPrefixOf (byte :: rest) then altAfter true rest
    else if leaveAlt.isPrefixOf (byte :: rest) then altAfter false rest
    else altAfter alt rest

/-- The grid is the text so far; nothing is printed, so the cursor stays in the first cell. -/
def altVt : Vt (List UInt8) where
  advance text bytes := text ++ bytes
  altScreen := altAfter false
  totalLines _ := 24
  screenLines _ := 24
  displayOffset _ := 0
  cursorLine _ := 0
  cursorColumn _ := 0

theorem chunkInvariant_altVt : altVt.ChunkInvariant :=
  fun term xs ys => (List.append_assoc term xs ys).symm

/-- An emulator without blocks over it. -/
def altInterface : Interface Unit (Screen (List UInt8)) where
  feed blocks _ := blocks
  apply blocks _ := (blocks, [])
  owner _ _ := none
  associateWithConversation blocks _ _ := blocks
  feedScreen := Screen.feed altVt fun _ => none
  serde := clearJson
  decodeOsc _ := none

/-- An image of one pixel: `a=T,f=32,s=1,v=1,i=1;/wAA/w==` -/
def onePixel : List UInt8 :=
  [0x1b, 0x5f, 0x47, 0x61, 0x3d, 0x54, 0x2c, 0x66, 0x3d, 0x33, 0x32, 0x2c, 0x73, 0x3d, 0x31,
    0x2c, 0x76, 0x3d, 0x31, 0x2c, 0x69, 0x3d, 0x31, 0x3b, 0x2f, 0x77, 0x41, 0x41, 0x2f, 0x77,
    0x3d, 0x3d, 0x1b, 0x5c]

/-- After the image the alternate screen is entered and not left again. -/
theorem agree_onePixel_enterAlt :
    altVt.ChunkInvariant ∧
      ∀ xs ys : List (List UInt8), xs.flatten = onePixel ++ enterAlt →
        ys.flatten = onePixel ++ enterAlt →
        Screen.Agree
          (xs.foldl (Emulator.feed altInterface) (.new () (.new [] 24))).screen
          (ys.foldl (Emulator.feed altInterface) (.new () (.new [] 24))).screen := by
  refine ⟨chunkInvariant_altVt, fun xs ys hxs hys => ?_⟩
  refine (agree_iff_noHiddenSwitch chunkInvariant_altVt altInterface rfl () [] 24
    (onePixel ++ enterAlt)).mpr ?_ _ List.prefix_rfl xs ys hxs hys
  -- only the whole stream leads into the alternate screen
  have hearlier : ∀ n < (HookTap.released clearJson .new (onePixel ++ enterAlt)).length,
      (Screen.feedAll altVt (fun _ => none) (.new [] 24)
        ((HookTap.released clearJson .new (onePixel ++ enterAlt)).take n)).isAltScreen altVt =
          false := by
    decide +kernel
  have hlast : (Screen.feedAll altVt (fun _ => none) (.new [] 24)
      (HookTap.released clearJson .new (onePixel ++ enterAlt))).isAltScreen altVt = true := by
    decide +kernel
  rintro us vs hle ⟨-, -, hends, early, hearly, hne⟩
  change us ++ vs <+: HookTap.released clearJson .new (onePixel ++ enterAlt) at hle
  rw [← Screen.feedAll_append] at hends hne
  have hbefore : us ++ early <+: us ++ vs := (List.prefix_append_right_inj us).mpr hearly
  have hus : us <+: us ++ early := List.prefix_append us early
  have hfalse : ∀ pieces, pieces <+: HookTap.released clearJson .new (onePixel ++ enterAlt) →
      pieces.length < (HookTap.released clearJson .new (onePixel ++ enterAlt)).length →
      (Screen.feedAll altVt (fun _ => none) (.new [] 24) pieces).isAltScreen altVt = false := by
    intro pieces hpieces hlt
    rw [List.prefix_iff_eq_take.mp hpieces]
    exact hearlier _ hlt
  by_cases hshort : us.length < (HookTap.released clearJson .new (onePixel ++ enterAlt)).length
  · have husalt := hfalse us (hus.trans (hbefore.trans hle)) hshort
    rw [husalt] at hends hne
    -- the switch would be the end of the stream, where it is not undone
    have hend : us ++ early = HookTap.released clearJson .new (onePixel ++ enterAlt) := by
      refine (hbefore.trans hle).eq_of_length_le (Nat.le_of_not_lt fun hlt => ?_)
      exact hne (hfalse _ (hbefore.trans hle) hlt)
    have hwhole : us ++ vs = HookTap.released clearJson .new (onePixel ++ enterAlt) :=
      hle.eq_of_length_le (hend ▸ hbefore.length_le)
    rw [hwhole] at hends
    exact Bool.false_ne_true (hends.symm.trans hlast)
  · -- nothing is left of the stream
    have hlen := hle.length_le
    rw [List.length_append] at hlen
    obtain rfl : vs = [] := List.length_eq_zero_iff.mp (by omega)
    obtain rfl := List.prefix_nil.mp hearly
    exact hne (by rw [List.append_nil])

/-- The alternate screen is entered and left. In one read the image stays, in two it is gone. -/
theorem not_agree_enterAlt_leaveAlt :
    altVt.ChunkInvariant ∧
      [onePixel, enterAlt ++ leaveAlt].flatten = [onePixel, enterAlt, leaveAlt].flatten ∧
      ¬ Screen.Agree
        ([onePixel, enterAlt ++ leaveAlt].foldl (Emulator.feed altInterface)
          (.new () (.new [] 24))).screen
        ([onePixel, enterAlt, leaveAlt].foldl (Emulator.feed altInterface)
          (.new () (.new [] 24))).screen := by
  refine ⟨chunkInvariant_altVt, rfl, fun hagree => ?_⟩
  have hne : ([onePixel, enterAlt ++ leaveAlt].foldl (Emulator.feed altInterface)
        (.new () (.new [] 24))).screen.images.images ≠
      ([onePixel, enterAlt, leaveAlt].foldl (Emulator.feed altInterface)
        (.new () (.new [] 24))).screen.images.images := by
    decide +kernel
  exact hne hagree.2

end Goble.Terminal
