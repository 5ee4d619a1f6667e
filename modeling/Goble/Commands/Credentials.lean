import Goble.Commands.Line
import Goble.Mission.Runs

/-!
# References to credentials

`expand_credential_refs` replaces each `\x7b\x7bcredential:<name>\x7d\x7d` of a text by the stored
value (`harness/credentials.rs`). Where the references of a text are does not depend on what is
stored: `pieces` is the text cut at them, and an expansion fills the cut (`expandRefs_eq`).

A cut can be taken part by part (`fill_append`), as long as no part leaves a reference open that a
later one would close. Quoting does not move references either, if there is no quote in their names
(`fill_map_encode`).
-/

namespace Goble.Commands

open Mission (expandCredentialRefs)

abbrev Credentials := List (List Char × List Char)

def openMark : List Char := "\x7b\x7bcredential:".toList

def closeMark : List Char := "\x7d\x7d".toList

theorem openMark_ne : openMark ≠ [] := by decide

theorem closeMark_ne : closeMark ≠ [] := by decide

def storedValue (credentials : Credentials) (name : List Char) :
    Except (List Char) (List Char) :=
  match credentials.lookup name with
  | some value => .ok value
  | none => .error ("unknown credential `".toList ++ name ++
      "`; use the `credentials` tool to list stored credentials".toList)

def expandRefs (credentials : Credentials) : (fuel : Nat) → List Char →
    Except (List Char) (List Char)
  | 0, text => .ok text
  | fuel + 1, text =>
    match Text.cutAt openMark text with
    | none => .ok text
    | some (before, tail) =>
      match Text.cutAt closeMark tail with
      | none => .ok text
      | some (name, rest) =>
        -- The name is looked up without the white space around it.
        match storedValue credentials (Text.trim name) with
        | .error message => .error message
        | .ok value =>
          match expandRefs credentials fuel rest with
          | .error message => .error message
          -- What is put in is not read again.
          | .ok expanded => .ok (before ++ value ++ expanded)

/-! ### The cut -/

inductive Piece
  | text (text : List Char)
  /-- The name as it stands between the marks. -/
  | ref (name : List Char)
deriving DecidableEq

def piecesFrom : (fuel : Nat) → List Char → List Piece
  | 0, text => [.text text]
  | fuel + 1, text =>
    match Text.cutAt openMark text with
    | none => [.text text]
    | some (before, tail) =>
      match Text.cutAt closeMark tail with
      | none => [.text text]
      | some (name, rest) => .text before :: .ref name :: piecesFrom fuel rest

def pieces (text : List Char) : List Piece := piecesFrom text.length text

def names (text : List Char) : List (List Char) :=
  (pieces text).filterMap fun
    | .text _ => none
    | .ref name => some name

/-- The pieces with the stored values in place of the references, if all are stored. The text
between them is written with `f`. -/
def fill (credentials : Credentials) (f : List Char → List Char) : List Piece →
    Option (List Char)
  | [] => some []
  | .text text :: ps => (fill credentials f ps).map (f text ++ ·)
  | .ref name :: ps => (credentials.lookup (Text.trim name)).bind fun value =>
      (fill credentials f ps).map (value ++ ·)

/-- The first reference of a text, and what stands around it. -/
def Cut (text before name rest : List Char) : Prop :=
  ∃ tail, Text.cutAt openMark text = some (before, tail) ∧
    Text.cutAt closeMark tail = some (name, rest)

def Uncut (text : List Char) : Prop :=
  ∀ before tail, Text.cutAt openMark text = some (before, tail) →
    Text.cutAt closeMark tail = none

variable {text before name rest : List Char}

theorem Cut.eq (h : Cut text before name rest) :
    text = before ++ (openMark ++ (name ++ (closeMark ++ rest))) := by
  obtain ⟨tail, hopen, hclose⟩ := h
  rw [Text.cutAt_eq_some hopen, Text.cutAt_eq_some hclose]

theorem Cut.length_lt (h : Cut text before name rest) :
    rest.length < text.length := by
  have hmark : 0 < openMark.length := List.length_pos_of_ne_nil openMark_ne
  rw [h.eq]
  simp only [List.length_append]
  omega

theorem uncut_or_cut (text : List Char) :
    Uncut text ∨ ∃ before name rest, Cut text before name rest := by
  cases hopen : Text.cutAt openMark text with
  | none => exact .inl fun before tail h => by rw [hopen] at h; cases h
  | some cut =>
    obtain ⟨before, tail⟩ := cut
    cases hclose : Text.cutAt closeMark tail with
    | none =>
      refine .inl fun before' tail' h => ?_
      rw [hopen] at h
      obtain ⟨rfl, rfl⟩ := Prod.mk.inj (Option.some.inj h)
      exact hclose
    | some cut =>
      obtain ⟨name, rest⟩ := cut
      exact .inr ⟨before, name, rest, tail, hopen, hclose⟩

theorem piecesFrom_of_uncut (h : Uncut text) (fuel : Nat) :
    piecesFrom fuel text = [.text text] := by
  cases fuel with
  | zero => rfl
  | succ fuel =>
    rw [piecesFrom]
    split
    · rfl
    · next before tail hopen => rw [h before tail hopen]

theorem piecesFrom_of_cut (h : Cut text before name rest) (fuel : Nat) :
    piecesFrom (fuel + 1) text = .text before :: .ref name :: piecesFrom fuel rest := by
  obtain ⟨tail, hopen, hclose⟩ := h
  rw [piecesFrom, hopen]
  simp only [hclose]

theorem piecesFrom_congr {fuel fuel' : Nat} (h : text.length ≤ fuel) (h' : text.length ≤ fuel') :
    piecesFrom fuel text = piecesFrom fuel' text := by
  induction fuel generalizing fuel' text with
  -- No fuel is enough for the empty text only, and that has no reference.
  | zero =>
    obtain rfl := List.eq_nil_of_length_eq_zero (Nat.le_zero.mp h)
    have huncut : Uncut [] := fun before tail hopen => by cases hopen
    rw [piecesFrom_of_uncut huncut, piecesFrom_of_uncut huncut]
  | succ fuel ih =>
    obtain huncut | ⟨before, name, rest, hcut⟩ := uncut_or_cut text
    · rw [piecesFrom_of_uncut huncut, piecesFrom_of_uncut huncut]
    · have hlt := hcut.length_lt
      obtain ⟨n, rfl⟩ : ∃ n, fuel' = n + 1 := Nat.exists_eq_succ_of_ne_zero (by omega)
      rw [piecesFrom_of_cut hcut, piecesFrom_of_cut hcut,
        ih (Nat.le_of_lt_succ (hlt.trans_le h)) (Nat.le_of_lt_succ (hlt.trans_le h'))]

theorem pieces_of_uncut (h : Uncut text) : pieces text = [.text text] :=
  piecesFrom_of_uncut h _

theorem pieces_of_cut (h : Cut text before name rest) :
    pieces text = .text before :: .ref name :: pieces rest := by
  have hlt := h.length_lt
  obtain ⟨n, hn⟩ : ∃ n, text.length = n + 1 := Nat.exists_eq_succ_of_ne_zero (by omega)
  rw [pieces, hn, piecesFrom_of_cut h, pieces, piecesFrom_congr (by omega) le_rfl]

theorem cut_induction {motive : List Char → Prop} (uncut : ∀ text, Uncut text → motive text)
    (cut : ∀ text before name rest, Cut text before name rest → motive rest → motive text)
    (text : List Char) : motive text := by
  induction hn : text.length using Nat.strong_induction_on generalizing text with
  | _ n ih =>
    obtain huncut | ⟨before, name, rest, hcut⟩ := uncut_or_cut text
    · exact uncut text huncut
    · exact cut text before name rest hcut (ih rest.length (hn ▸ hcut.length_lt) rest rfl)

theorem expandRefs_of_uncut (credentials : Credentials) (h : Uncut text) (fuel : Nat) :
    expandRefs credentials fuel text = .ok text := by
  cases fuel with
  | zero => rfl
  | succ fuel =>
    rw [expandRefs]
    split
    · rfl
    · next before tail hopen => rw [h before tail hopen]

theorem expandRefs_of_cut (credentials : Credentials) (h : Cut text before name rest) (fuel : Nat) :
    expandRefs credentials (fuel + 1) text =
      match storedValue credentials (Text.trim name) with
      | .error message => .error message
      | .ok value =>
        match expandRefs credentials fuel rest with
        | .error message => .error message
        | .ok expanded => .ok (before ++ value ++ expanded) := by
  obtain ⟨tail, hopen, hclose⟩ := h
  rw [expandRefs, hopen]
  simp only [hclose]

theorem expandRefs_eq (credentials : Credentials) {fuel : Nat} (h : text.length ≤ fuel) :
    (expandRefs credentials fuel text).toOption = fill credentials id (pieces text) := by
  induction fuel generalizing text with
  | zero =>
    obtain rfl := List.eq_nil_of_length_eq_zero (Nat.le_zero.mp h)
    rfl
  | succ fuel ih =>
    obtain huncut | ⟨before, name, rest, hcut⟩ := uncut_or_cut text
    · rw [expandRefs_of_uncut credentials huncut, pieces_of_uncut huncut]
      exact congrArg some (List.append_nil text).symm
    · have hrest := ih (Nat.le_of_lt_succ (hcut.length_lt.trans_le h))
      rw [expandRefs_of_cut credentials hcut, pieces_of_cut hcut, fill, fill, ← hrest, storedValue]
      cases credentials.lookup (Text.trim name) with
      | none => rfl
      | some value =>
        cases expandRefs credentials fuel rest with
        | error message => rfl
        | ok expanded => exact congrArg some (List.append_assoc before value expanded)

/-- The command lines that were run, with what came of them. -/
def ran (trace : List Mission.Act) : List (List Char × Except (List Char) (List Char)) :=
  trace.filterMap fun
    | ⟨.runLine line, output⟩ => some (line, output)
    | _ => none

theorem ran_store (w : Mission.World) (c : Mission.StoreCall) :
    ran (w.call c).trace = ran w.trace := by
  rw [Mission.World.call_trace, ran, List.filterMap_append]
  exact List.append_nil _

theorem wp_expandCredentialRefs (fuel : Nat) (text : List Char) {left : Mission.World → Prop}
    (w : Mission.World) :
    (expandCredentialRefs fuel text).wp Mission.handler Mission.Steady left
      (fun answer w' => answer = expandRefs w.store.credentials fuel text ∧
        w'.store = w.store ∧ ran w'.trace = ran w.trace)
      w := by
  induction fuel generalizing text w with
  | zero => exact Prog.wp_pure.mpr ⟨rfl, rfl, rfl⟩
  | succ fuel ih =>
    obtain huncut | ⟨before, name, rest, hcut⟩ := uncut_or_cut text
    · rw [expandRefs_of_uncut _ huncut]
      have hpure : expandCredentialRefs (fuel + 1) text = pure (.ok text) := by
        rw [expandCredentialRefs]
        split
        · rfl
        · next before tail hopen =>
          have hclose : Text.cutAt "\x7d\x7d".toList tail = none := huncut before tail hopen
          rw [hclose]
      rw [hpure]
      exact Prog.wp_pure.mpr ⟨rfl, rfl, rfl⟩
    · rw [expandRefs_of_cut _ hcut, storedValue]
      obtain ⟨tail, hopen, hclose⟩ := hcut
      have hopen : Text.cutAt "\x7b\x7bcredential:".toList text = some (before, tail) := hopen
      have hclose : Text.cutAt "\x7d\x7d".toList tail = some (name, rest) := hclose
      rw [expandCredentialRefs, hopen]
      simp only [hclose]
      have hran := ran_store w (.getCredential (Text.trim name))
      refine Prog.wp_bind.mpr (Mission.wp_store.mpr ?_)
      simp only [Mission.Store.call]
      cases w.store.credentials.lookup (Text.trim name) with
      | none => exact Prog.wp_pure.mpr ⟨rfl, rfl, hran⟩
      | some value =>
        -- The store is only read, so the rest is expanded with the same credentials.
        refine Prog.wp_bind.mpr ((ih rest _).mono ?_)
        rintro answer w' ⟨rfl, hstore, hrest⟩
        simp only [Mission.World.call_store, Mission.Store.call] at hstore ⊢
        cases expandRefs w.store.credentials fuel rest with
        | error message => exact Prog.wp_pure.mpr ⟨rfl, hstore, hrest.trans hran⟩
        | ok expanded => exact Prog.wp_pure.mpr ⟨rfl, hstore, hrest.trans hran⟩

def decided : Mission.CommandDecision → Option (List Char)
  | .reject _ => none
  | .approve text | .edit text => some text

/-- **Carrying out a decision** runs the line decided on, with the stored values in place of its
references, and nothing else. For a rejection, and where a value is missing, it runs nothing. -/
theorem wp_carryOut (decision : Mission.CommandDecision) {left : Mission.World → Prop}
    (w : Mission.World) :
    (Mission.carryOut decision).wp Mission.handler Mission.Steady left
      (fun answer w' => w'.store = w.store ∧
        match (decided decision).bind fun text => fill w.store.credentials id (pieces text) with
        | some line => ran w'.trace = ran w.trace ++ [(line, answer)]
        | none => ran w'.trace = ran w.trace ∧ answer.toOption = none)
      w := by
  have hrun : ∀ text, (Mission.runApprovedCommand text).wp Mission.handler Mission.Steady left
      (fun answer w' => w'.store = w.store ∧
        match fill w.store.credentials id (pieces text) with
        | some line => ran w'.trace = ran w.trace ++ [(line, answer)]
        | none => ran w'.trace = ran w.trace ∧ answer.toOption = none) w := by
    intro text
    refine Prog.wp_bind.mpr ((wp_expandCredentialRefs _ text w).mono ?_)
    rintro expanded w' ⟨rfl, hstore, hran⟩
    rw [← expandRefs_eq w.store.credentials le_rfl]
    cases expandRefs w.store.credentials text.length text with
    | error message => exact Prog.wp_pure.mpr ⟨hstore, hran, rfl⟩
    | ok line =>
      refine Mission.wp_runLine.mpr fun answer => ⟨hstore, ?_⟩
      rw [← hran]
      exact List.filterMap_append
  cases decision with
  | reject reason => exact Prog.wp_pure.mpr ⟨rfl, rfl, rfl⟩
  | approve text => exact hrun text
  | edit text => exact hrun text

/-! ### Part by part -/

/-- No reference is left open. -/
def Closed (text : List Char) : Prop :=
  ∀ part, .text part ∈ pieces text → Text.cutAt openMark part = none

def Inert (text : List Char) : Prop := ∀ c ∈ text, c ∉ openMark ∧ c ∉ closeMark

variable {marker : List Char}

theorem cutAt_of_notMem (hne : marker ≠ []) (h : ∀ c ∈ text, c ∉ marker) :
    Text.cutAt marker text = none := by
  cases hcut : Text.cutAt marker text with
  | none => rfl
  | some cut =>
    obtain ⟨before, after⟩ := cut
    obtain ⟨c, marker, rfl⟩ := List.exists_cons_of_ne_nil hne
    rw [Text.cutAt_eq_some hcut] at h
    exact absurd List.mem_cons_self
      (h c (List.mem_append_right _ (List.mem_append_left _ List.mem_cons_self)))

theorem cutAt_cons_of_notMem (hne : marker ≠ []) {c : Char} (h : c ∉ marker) (text : List Char) :
    Text.cutAt marker (c :: text) =
      (Text.cutAt marker text).map fun (before, after) => (c :: before, after) := by
  have hprefix : ¬ marker.isPrefixOf (c :: text) = true := by
    intro hprefix
    obtain ⟨tail, heq⟩ := List.isPrefixOf_iff_prefix.mp hprefix
    obtain ⟨d, mark, rfl⟩ := List.exists_cons_of_ne_nil hne
    exact h ((List.cons.inj heq).1 ▸ List.mem_cons_self)
  rw [Text.cutAt, if_neg hprefix]

theorem Uncut.of_none (h : Text.cutAt openMark text = none) : Uncut text := by
  intro before tail hopen
  rw [h] at hopen
  cases hopen

theorem Closed.of_cut (h : Closed text) (hcut : Cut text before name rest) : Closed rest := by
  intro part hpart
  refine h part ?_
  rw [pieces_of_cut hcut]
  exact List.mem_cons_of_mem _ (List.mem_cons_of_mem _ hpart)

theorem Cut.append (h : Cut text before name rest) (more : List Char) :
    Cut (text ++ more) before name (rest ++ more) := by
  obtain ⟨tail, hopen, hclose⟩ := h
  exact ⟨tail ++ more, Text.cutAt_append_of_some more hopen, Text.cutAt_append_of_some more hclose⟩

theorem fill_of_cutAt (credentials : Credentials) {more : List Char}
    (h : Text.cutAt openMark (text ++ more) =
      (Text.cutAt openMark more).map fun (before, after) => (text ++ before, after)) :
    fill credentials id (pieces (text ++ more)) =
      (fill credentials id (pieces more)).map (text ++ ·) := by
  obtain huncut | ⟨before, name, rest, tail, hbefore, hclose⟩ := uncut_or_cut more
  · have huncut' : Uncut (text ++ more) := by
      intro before tail hcut
      rw [h] at hcut
      obtain ⟨⟨before', tail'⟩, hmem, heq⟩ := Option.map_eq_some_iff.mp hcut
      obtain ⟨-, rfl⟩ := Prod.mk.inj heq
      exact huncut before' tail' hmem
    rw [pieces_of_uncut huncut, pieces_of_uncut huncut']
    simp [fill]
  · have hcut : Cut (text ++ more) (text ++ before) name rest := by
      refine ⟨tail, ?_, hclose⟩
      rw [h, hbefore]
      rfl
    rw [pieces_of_cut hcut, pieces_of_cut ⟨tail, hbefore, hclose⟩]
    simp only [fill, id]
    cases credentials.lookup (Text.trim name) with
    | none => rfl
    | some value =>
      simp only [Option.bind_some, Option.map_map]
      congr 1
      funext expanded
      exact List.append_assoc _ _ _

theorem fill_cons (credentials : Credentials) {c : Char} (h : c ∉ openMark) (more : List Char) :
    fill credentials id (pieces (c :: more)) =
      (fill credentials id (pieces more)).map (c :: ·) := by
  exact @fill_of_cutAt [c] credentials more (cutAt_cons_of_notMem openMark_ne h more)

/-- **Part by part.** -/
theorem fill_append (credentials : Credentials) {more : List Char} (h : Closed text)
    (hmore : ∀ c ∈ more.head?, c ∉ openMark) :
    fill credentials id (pieces (text ++ more)) =
      (fill credentials id (pieces text)).bind fun expanded =>
        (fill credentials id (pieces more)).map (expanded ++ ·) := by
  induction text using cut_induction with
  | uncut text huncut =>
    -- A text without references is one piece, and no mark is left open in it.
    have hnone : Text.cutAt openMark text = none := by
      refine h text ?_
      rw [pieces_of_uncut huncut]
      exact List.mem_singleton_self _
    rw [fill_of_cutAt credentials (Text.cutAt_append_of_none hnone hmore), pieces_of_uncut huncut]
    simp [fill]
  | cut text before name rest hcut ih =>
    rw [pieces_of_cut (hcut.append more), pieces_of_cut hcut]
    simp only [fill, ih (h.of_cut hcut), id]
    cases credentials.lookup (Text.trim name) with
    | none => rfl
    | some value =>
      simp only [Option.bind_some, Option.map_bind, Option.bind_map, Option.map_map]
      congr 1
      funext expanded
      simp only [Function.comp_def, List.append_assoc, Option.map_map]

theorem fill_inert_append (credentials : Credentials) (h : Inert text) (more : List Char) :
    fill credentials id (pieces (text ++ more)) =
      (fill credentials id (pieces more)).map (text ++ ·) := by
  induction text with
  | nil => exact Option.map_id'.symm
  | cons c text ih =>
    rw [List.cons_append, fill_cons credentials (h c List.mem_cons_self).1,
      ih fun d hd => h d (List.mem_cons_of_mem c hd), Option.map_map]
    rfl

theorem Inert.head (h : Inert text) :
    (∀ c ∈ text.head?, c ∉ openMark) ∧ ∀ c ∈ text.head?, c ∉ closeMark :=
  ⟨fun c hc => (h c (List.mem_of_mem_head? hc)).1, fun c hc => (h c (List.mem_of_mem_head? hc)).2⟩

theorem fill_append_inert (credentials : Credentials) {more : List Char} (h : Inert more)
    (text : List Char) :
    fill credentials id (pieces (text ++ more)) =
      (fill credentials id (pieces text)).map (· ++ more) := by
  have hopen := cutAt_of_notMem openMark_ne fun c hc => (h c hc).1
  have hclose := cutAt_of_notMem closeMark_ne fun c hc => (h c hc).2
  induction text using cut_induction with
  | uncut text huncut =>
    -- The first mark of `more` is the first one, so it stays open.
    have huncut' : Uncut (text ++ more) := by
      intro before tail hcut
      -- The mark that opens may be in `text`, but `more` does not close it.
      cases htext : Text.cutAt openMark text with
      | none =>
        rw [Text.cutAt_append_of_none htext h.head.1, hopen] at hcut
        cases hcut
      | some cut =>
        obtain ⟨before', tail'⟩ := cut
        rw [Text.cutAt_append_of_some more htext] at hcut
        obtain ⟨rfl, rfl⟩ := Prod.mk.inj (Option.some.inj hcut)
        rw [Text.cutAt_append_of_none (huncut _ _ htext) h.head.2, hclose]
        rfl
    rw [pieces_of_uncut huncut, pieces_of_uncut huncut']
    simp [fill]
  | cut text before name rest hcut ih =>
    rw [pieces_of_cut (hcut.append more), pieces_of_cut hcut]
    simp only [fill, ih, id, Option.map_bind, Option.map_map, Function.comp_def, List.append_assoc]

/-! ### Between quotes -/

theorem encode_append (a b : List Char) : encode (a ++ b) = encode a ++ encode b :=
  List.flatMap_append

theorem encode_of_notMem (h : '\x27' ∉ text) : encode text = text := by
  induction text with
  | nil => rfl
  | cons c text ih =>
    rw [encode_cons fun heq => h (heq ▸ List.mem_cons_self),
      ih fun hmem => h (List.mem_cons_of_mem c hmem)]

structure Unquoted (marker : List Char) : Prop where
  ne : marker ≠ []
  quote : '\x27' ∉ marker
  slash : '\x5c' ∉ marker

theorem unquoted_openMark : Unquoted openMark := ⟨by decide, by decide, by decide⟩

theorem unquoted_closeMark : Unquoted closeMark := ⟨by decide, by decide, by decide⟩

theorem prefix_encode (hquote : '\x27' ∉ marker) :
    marker <+: encode text ↔ marker <+: text := by
  induction marker generalizing text with
  | nil => exact iff_of_true List.nil_prefix List.nil_prefix
  | cons d marker ih =>
    have hd : d ≠ '\x27' := fun heq => hquote (heq ▸ List.mem_cons_self)
    cases text with
    | nil => exact Iff.rfl
    | cons c text =>
      -- A quote, and what is written for it, starts no mark.
      by_cases hc : c = '\x27'
      · subst hc
        rw [encode_quote, List.cons_prefix_cons, List.cons_prefix_cons]
        exact iff_of_false (fun h => hd h.1) fun h => hd h.1
      · rw [encode_cons hc, List.cons_prefix_cons, List.cons_prefix_cons,
          ih fun hmem => hquote (List.mem_cons_of_mem d hmem)]

theorem cutAt_encode (h : Unquoted marker) (text : List Char) :
    Text.cutAt marker (encode text) =
      (Text.cutAt marker text).map fun (before, after) => (encode before, encode after) := by
  induction text with
  | nil =>
    rw [cutAt_of_notMem h.ne (by simp [encode]), cutAt_of_notMem h.ne (by simp)]
    rfl
  | cons c text ih =>
    by_cases hc : c = '\x27'
    · subst hc
      rw [encode_quote]
      simp only [cutAt_cons_of_notMem h.ne h.quote, cutAt_cons_of_notMem h.ne h.slash, ih,
        Option.map_map]
      rfl
    · rw [encode_cons hc, Text.cutAt, Text.cutAt, ih]
      -- A mark stands here in the quoted text if it stands here in the text.
      have hiff : marker.isPrefixOf (c :: encode text) = marker.isPrefixOf (c :: text) := by
        rw [Bool.eq_iff_iff, List.isPrefixOf_iff_prefix, List.isPrefixOf_iff_prefix,
          ← encode_cons hc, prefix_encode h.quote]
      rw [hiff]
      split
      · next hprefix =>
        obtain ⟨rest, heq⟩ := List.isPrefixOf_iff_prefix.mp hprefix
        rw [← encode_cons hc, ← heq, encode_append, encode_of_notMem h.quote, List.drop_left,
          List.drop_left]
        rfl
      · rw [Option.map_map, Option.map_map]
        congr 1
        funext cut
        exact Prod.ext (encode_cons hc cut.1).symm rfl

structure Aligned (text : List Char) : Prop where
  closed : Closed text
  names : ∀ name, .ref name ∈ pieces text → '\x27' ∉ name

theorem Aligned.of_cut (h : Aligned text) (hcut : Cut text before name rest) : Aligned rest := by
  refine ⟨h.closed.of_cut hcut, fun other hother => h.names other ?_⟩
  rw [pieces_of_cut hcut]
  exact List.mem_cons_of_mem _ (List.mem_cons_of_mem _ hother)

theorem pieces_encode (h : Aligned text) :
    pieces (encode text) = (pieces text).map fun
      | .text part => .text (encode part)
      | .ref name => .ref name := by
  induction text using cut_induction with
  | uncut text huncut =>
    have huncut' : Uncut (encode text) := by
      intro before tail hcut
      rw [cutAt_encode unquoted_openMark] at hcut
      obtain ⟨⟨before', tail'⟩, hmem, heq⟩ := Option.map_eq_some_iff.mp hcut
      obtain ⟨-, rfl⟩ := Prod.mk.inj heq
      rw [cutAt_encode unquoted_closeMark, huncut before' tail' hmem]
      rfl
    rw [pieces_of_uncut huncut, pieces_of_uncut huncut']
    rfl
  | cut text before name rest hcut ih =>
    -- A name without a quote is written as it is.
    have hname : '\x27' ∉ name := by
      refine h.names name ?_
      rw [pieces_of_cut hcut]
      exact List.mem_cons_of_mem _ List.mem_cons_self
    have hcut' : Cut (encode text) (encode before) name (encode rest) := by
      obtain ⟨tail, hopen, hclose⟩ := hcut
      refine ⟨encode tail, ?_, ?_⟩
      · rw [cutAt_encode unquoted_openMark, hopen]
        rfl
      · rw [cutAt_encode unquoted_closeMark, hclose]
        exact congrArg (fun name => some (name, encode rest)) (encode_of_notMem hname)
    rw [pieces_of_cut hcut', pieces_of_cut hcut, ih (h.of_cut hcut)]
    rfl

theorem fill_map_encode (credentials : Credentials) (ps : List Piece) :
    fill credentials id (ps.map fun
      | .text part => .text (encode part)
      | .ref name => .ref name) = fill credentials encode ps := by
  induction ps with
  | nil => rfl
  | cons piece ps ih =>
    cases piece with
    | text part => simp only [List.map_cons, fill, ih, id]
    | ref name => simp only [List.map_cons, fill, ih]

theorem Aligned.closed_encode (h : Aligned text) : Closed (encode text) := by
  intro part hpart
  rw [pieces_encode h] at hpart
  obtain ⟨piece, hmem, heq⟩ := List.mem_map.mp hpart
  cases piece with
  | text part' =>
    obtain rfl := Piece.text.inj heq
    rw [cutAt_encode unquoted_openMark, h.closed part' hmem]
    rfl
  | ref name => cases heq

end Goble.Commands
