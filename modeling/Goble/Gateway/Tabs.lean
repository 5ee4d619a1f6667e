import Goble.Gateway.State
import Goble.Lib.Json
import Goble.Lib.Text
import Goble.Shells.Manager
import Mathlib.Data.List.Basic

/-!
# Browser tabs and their panes

All the browsers of one worker share its connection to the gateway, so that the worker sees one
owner of all their panes. The gateway notes the panes of which a browser has asked the opening and
not the closing (`trackPane`), and when the browser's socket is gone it closes these.

It notes what was asked for and not what came of it. A browser that asks for a pane id that another
one has open is refused by the worker, and the id is noted all the same; a pane id may be blank for
the worker, and is not noted then. Nothing goes wrong as long as the gateway reads the frames as the
worker does and no two browsers hold one id at a time (`Orderly`).
-/

namespace Goble.Gateway

open Shells

/-! ### What is read from a frame -/

/-- What the gateway sees in a frame. -/
inductive Lifecycle where
  | opened (paneId : PaneId)
  | closed (paneId : PaneId)
deriving DecidableEq, Repr

def lifecycle (frame : Json) : Option Lifecycle :=
  match (frame.get "pane_id".toList).bind Json.asStr with
  | none => none
  | some paneId =>
    if (Text.trim paneId).isEmpty then none
    else match (frame.get "kind".toList).bind Json.asStr with
      | none => none
      | some kind =>
        if kind = "open_pty".toList then some (.opened paneId)
        else if kind = "close_pty".toList then some (.closed paneId)
        else none

def trackPane (panes : List PaneId) (frame : Option Json) : List PaneId :=
  match frame.bind lifecycle with
  | some (.opened paneId) => panes.insert paneId
  | some (.closed paneId) => panes.filter (· ≠ paneId)
  | none => panes

/-- The messages that open and close panes. The others leave the panes alone. -/
inductive DesktopMessage where
  | openPty (paneId : PaneId) (cwd : List Char) (cols rows : Nat)
  | closePty (paneId : PaneId)
deriving DecidableEq, Repr

namespace DesktopMessage

def paneId : DesktopMessage → PaneId
  | openPty paneId _ _ _ | closePty paneId => paneId

def openOf (paneId cwd cols rows : Option Json) : Option DesktopMessage := do
  some (openPty (← (← paneId).asStr) (← (← cwd).asStr) (← (← cols).asU16) (← (← rows).asU16))

def closeOf (paneId : Option Json) : Option DesktopMessage := do
  some (closePty (← (← paneId).asStr))

def ofJson : Json → Option DesktopMessage
  | .obj members =>
    match (Json.field "kind".toList members).bind Json.asStr with
    | none => none
    | some kind =>
      let field key := Json.field key members
      if kind = "open_pty".toList then
        openOf (field "pane_id".toList) (field "cwd".toList) (field "cols".toList)
          (field "rows".toList)
      else if kind = "close_pty".toList then closeOf (field "pane_id".toList)
      else none
  | .arr [kind, paneId, cwd, cols, rows] =>
    if kind.asStr = some "open_pty".toList then openOf paneId cwd cols rows else none
  | .arr [kind, paneId] =>
    if kind.asStr = some "close_pty".toList then closeOf paneId else none
  | _ => none

end DesktopMessage

/-! ### The gateway and the worker -/

/-- A frame on its way to the worker: a browser's, or the `close_pty` that the gateway writes. -/
inductive Frame where
  | message (message : Message)
  | close (paneId : PaneId)
deriving DecidableEq, Repr

structure Tab where
  panes : List PaneId
  phase : Phase
deriving DecidableEq, Repr

structure Browsing where
  tabs : ClientId → Option Tab
  /-- What the gateway has put into the worker's queue and the worker has not handled, each with
  the browser on whose behalf. -/
  toWorker : List (ClientId × Frame)
  manager : PtyManager
  /-- The browser whose frame opened a pane, by its generation. -/
  openers : Nat → Option ClientId
  /-- The panes that were closed, by their generation, and on whose behalf. -/
  closings : List (ClientId × Nat)

inductive BrowsingStep where
  | connect (c : ClientId)
  | frame (c : ClientId) (message : Message)
  /-- The socket is gone, or the client has been removed. -/
  | stop (c : ClientId)
  /-- One of the panes that are left is closed. -/
  | cleanUp (c : ClientId) (paneId : PaneId)
  | finish (c : ClientId)
  | handle (start : Start) (killed : Except (List Char) Unit)
  | exit (generation : Nat) (paneId : PaneId)

/-- How texts are read as JSON, and the name of the gateway's connection at the worker. -/
structure Setting where
  fromStr : List Char → Option Json
  owner : Owner

namespace Setting

variable (setting : Setting)

def json : Message → Option Json
  | .text text => setting.fromStr text
  | .binary _ => none

/-- What the worker makes of a frame. -/
def reads : Frame → Option DesktopMessage
  | .message message => (setting.json message).bind DesktopMessage.ofJson
  | .close paneId => some (.closePty paneId)

end Setting

namespace Browsing

variable (setting : Setting)

def init : Browsing := ⟨fun _ => none, [], .new, fun _ => none, []⟩

def withTab (s : Browsing) (c : ClientId) (phase : Phase) (f : Tab → Option Browsing) :
    Option Browsing :=
  (s.tabs c).bind fun tab => if tab.phase = phase then f tab else none

def setTab (s : Browsing) (c : ClientId) (tab : Tab) : Browsing :=
  { s with tabs := Function.update s.tabs c (some tab) }

def send (s : Browsing) (c : ClientId) (frame : Frame) : Browsing :=
  { s with toWorker := s.toWorker ++ [(c, frame)] }

/-- What the worker does about a message. -/
def dispatch (s : Browsing) (c : ClientId) (start : Start) (killed : Except (List Char) Unit) :
    Option DesktopMessage → Browsing
  | none => s
  | some (.openPty paneId _ cols rows) =>
    let (_, opened, manager) := s.manager.spawn setting.owner paneId cols rows start
    match opened with
    | some generation =>
      { s with manager, openers := Function.update s.openers generation (some c) }
    | none => { s with manager }
  | some (.closePty paneId) =>
    let (_, closed, manager) := s.manager.close setting.owner paneId killed
    match closed with
    | some pane => { s with manager, closings := s.closings ++ [(c, pane.generation)] }
    | none => { s with manager }

def step (s : Browsing) : BrowsingStep → Option Browsing
  | .connect c =>
    match s.tabs c with
    | none => some (s.setTab c ⟨[], .running⟩)
    | some _ => none
  | .frame c message => s.withTab c .running fun tab =>
      some ((s.setTab c { tab with panes := trackPane tab.panes (setting.json message) }).send c
        (.message message))
  | .stop c => s.withTab c .running fun tab => some (s.setTab c { tab with phase := .leaving })
  | .cleanUp c paneId => s.withTab c .leaving fun tab =>
      if paneId ∈ tab.panes then
        some ((s.setTab c { tab with panes := tab.panes.filter (· ≠ paneId) }).send c
          (.close paneId))
      else none
  | .finish c => s.withTab c .leaving fun tab =>
      if tab.panes = [] then some (s.setTab c { tab with phase := .over }) else none
  | .handle start killed =>
    match s.toWorker with
    | [] => none
    | (c, frame) :: toWorker =>
      some (dispatch setting { s with toWorker } c start killed (setting.reads frame))
  | .exit generation paneId => some { s with manager := s.manager.forget generation paneId }

end Browsing

/-- One worker, one gateway, and any number of browsers. -/
def browsing (setting : Setting) : Machine Browsing BrowsingStep := ⟨.init, Browsing.step setting⟩

/-! ### What a closed tab leaves behind -/

namespace Browsing

variable (setting : Setting) (s : Browsing)

def OpenFor (c : ClientId) (p : PaneId) : Prop :=
  ∃ pane, s.manager.panes p = some pane ∧ s.openers pane.generation = some c

/-- A browser whose socket has ended and whose frames have been handled has no pane open, and no
pane has been closed on behalf of another than the browser that opened it. -/
def Tidy : Prop :=
  (∀ c tab, s.tabs c = some tab → tab.phase = .over → (∀ frame, (c, frame) ∉ s.toWorker) →
      ∀ p, ¬ s.OpenFor c p) ∧
    ∀ c generation, (c, generation) ∈ s.closings → s.openers generation = some c

def Tracks (c : ClientId) (p : PaneId) : Prop := ∃ tab, s.tabs c = some tab ∧ p ∈ tab.panes

/-- The messages about a pane that a browser has under way. -/
def pending (c : ClientId) (p : PaneId) : List DesktopMessage :=
  s.toWorker.filterMap fun sent =>
    if sent.1 = c then (setting.reads sent.2).filter fun message => message.paneId = p else none

def Holds (c : ClientId) (p : PaneId) : Prop :=
  s.Tracks c p ∨ s.pending setting c p ≠ [] ∨ s.OpenFor c p

end Browsing

namespace Setting

def Names (setting : Setting) (message : Message) (p : PaneId) : Prop :=
  ((setting.json message).bind lifecycle = some (.opened p) ∨
      (setting.json message).bind lifecycle = some (.closed p)) ∨
    ∃ m, setting.reads (.message message) = some m ∧ m.paneId = p

/-- A pane that the worker opens is noted, and a pane that is noted no longer is closed. -/
def Recorded (setting : Setting) (message : Message) : Prop :=
  (∀ p cwd cols rows, setting.reads (.message message) = some (.openPty p cwd cols rows) →
      (setting.json message).bind lifecycle = some (.opened p)) ∧
    ∀ p, (setting.json message).bind lifecycle = some (.closed p) →
      setting.reads (.message message) = some (.closePty p)

end Setting

/-- The gateway reads the frames as the worker does, and no browser names a pane id that another
one has to do with. -/
def Browsing.Orderly (setting : Setting) (s : Browsing) : BrowsingStep → Prop
  | .frame c message => setting.Recorded message ∧
      ∀ p, setting.Names message p → ∀ c', c' ≠ c → ¬ s.Holds setting c' p
  | _ => True

/-! ### The invariant -/

namespace Browsing

variable {setting : Setting} {s s' : Browsing} {c c' : ClientId} {p : PaneId}

/-- What is under way about a pane ends with its closing, or nothing is and it is not open. -/
def Settled (setting : Setting) (s : Browsing) (c : ClientId) (p : PaneId) : Prop :=
  (∃ q, (s.pending setting c p).getLast? = some (.closePty q)) ∨
    s.pending setting c p = [] ∧ ¬ s.OpenFor c p

structure Sound (setting : Setting) (s : Browsing) : Prop where
  exclusive : ∀ c c' p, s.Holds setting c p → s.Holds setting c' p → c = c'
  settled : ∀ c p, ¬ s.Tracks c p → s.Settled setting c p
  panes : ∀ p pane, s.manager.panes p = some pane → pane.owner = setting.owner ∧
    pane.generation < s.manager.nextGeneration ∧ ∃ c, s.openers pane.generation = some c
  closings : ∀ c generation, (c, generation) ∈ s.closings →
    s.openers generation = some c ∧ generation < s.manager.nextGeneration
  overEmpty : ∀ c tab, s.tabs c = some tab → tab.phase = .over → tab.panes = []

theorem Sound.init : Sound setting .init where
  exclusive c c' p h := by
    rcases h with ⟨tab, htab, -⟩ | hpending | ⟨pane, hpane, -⟩
    · exact absurd htab nofun
    · exact absurd rfl hpending
    · exact absurd hpane nofun
  settled c p _ := .inr ⟨rfl, fun ⟨pane, hpane, _⟩ => absurd hpane nofun⟩
  panes p pane h := absurd h nofun
  closings c generation h := absurd h List.not_mem_nil
  overEmpty c tab h := absurd h nofun

theorem Sound.tidy (h : s.Sound setting) : s.Tidy := by
  refine ⟨fun c tab htab hover hnone p => ?_, fun c generation hmem => (h.closings _ _ hmem).1⟩
  have hpending : s.pending setting c p = [] := by
    rw [pending, List.filterMap_eq_nil_iff]
    rintro ⟨c', frame⟩ hmem
    refine if_neg fun (hc : c' = c) => hnone frame ?_
    rwa [hc] at hmem
  have huntracked : ¬ s.Tracks c p := by
    rintro ⟨tab', htab', hp⟩
    obtain rfl := Option.some.inj (htab.symm.trans htab')
    rw [h.overEmpty c tab htab hover] at hp
    exact absurd hp List.not_mem_nil
  obtain ⟨q, hlast⟩ | ⟨-, hclosed⟩ := h.settled c p huntracked
  · rw [hpending] at hlast
    exact absurd hlast nofun
  · exact hclosed

def about (setting : Setting) (frame : Frame) (p : PaneId) : List DesktopMessage :=
  ((setting.reads frame).filter fun message => message.paneId = p).toList

theorem pending_send {frame : Frame} : (s.send c frame).pending setting c' p =
    s.pending setting c' p ++ if c = c' then about setting frame p else [] := by
  rw [send, pending, pending, List.filterMap_append]
  refine congrArg (_ ++ ·) ?_
  by_cases hc : c = c'
  · rw [if_pos hc, about]
    cases h : (setting.reads frame).filter fun message => message.paneId = p with
    | none => simp [hc, h]
    | some message => simp [hc, h]
  · simp [hc]

theorem pending_cons {frame : Frame} {toWorker : List (ClientId × Frame)}
    (h : s.toWorker = (c, frame) :: toWorker) : s.pending setting c' p =
      (if c = c' then about setting frame p else []) ++
        pending setting { s with toWorker } c' p := by
  rw [pending, pending, h, List.filterMap_cons]
  by_cases hc : c = c'
  · rw [if_pos hc, about]
    cases (setting.reads frame).filter fun message => message.paneId = p with
    | none => simp [hc]
    | some message => simp [hc]
  · simp [hc]

theorem about_of_some {frame : Frame} {message : DesktopMessage}
    (h : setting.reads frame = some message) :
    about setting frame p = if message.paneId = p then [message] else [] := by
  rw [about, h]
  by_cases hp : message.paneId = p
  · simp [hp]
  · simp [hp]

variable {tab : Tab}

theorem tracks_setTab : (s.setTab c tab).Tracks c' p ↔
    (c' = c ∧ p ∈ tab.panes) ∨ (c' ≠ c ∧ s.Tracks c' p) := by
  rw [Tracks, setTab]
  dsimp only
  by_cases hc : c' = c
  · subst hc
    rw [Function.update_self]
    simp
  · rw [Function.update_of_ne hc]
    simp [hc, Tracks]

theorem tracks_of_tab (h : s.tabs c = some tab) : s.Tracks c p ↔ p ∈ tab.panes := by
  rw [Tracks, h]
  simp

theorem mem_trackPane {panes : List PaneId} {frame : Option Json} (h : p ∈ trackPane panes frame) :
    p ∈ panes ∨ frame.bind lifecycle = some (.opened p) := by
  rw [trackPane] at h
  split at h
  · next paneId heq =>
    rcases List.mem_insert_iff.mp h with rfl | h
    · exact .inr heq
    · exact .inl h
  · exact .inl (List.mem_filter.mp h).1
  · exact .inl h

theorem not_mem_trackPane {panes : List PaneId} {frame : Option Json}
    (h : p ∉ trackPane panes frame) : frame.bind lifecycle ≠ some (.opened p) ∧
      (p ∉ panes ∨ frame.bind lifecycle = some (.closed p)) := by
  rw [trackPane] at h
  split at h
  · next paneId heq =>
    rw [List.mem_insert_iff, not_or] at h
    rw [heq]
    refine ⟨fun hopened => h.1 ?_, .inl h.2⟩
    exact (Lifecycle.opened.inj (Option.some.inj hopened)).symm
  · next paneId heq =>
    rw [heq]
    refine ⟨nofun, ?_⟩
    by_cases hp : p = paneId
    · exact .inr (by rw [hp])
    · exact .inl fun hmem => h (List.mem_filter.mpr ⟨hmem, decide_eq_true hp⟩)
  · next heq =>
    rw [heq]
    exact ⟨nofun, .inl h⟩

/-- A step that neither sends nor handles anything about a pane, and opens none. -/
theorem Sound.of_fewer (h : s.Sound setting)
    (hholds : ∀ c p, s'.Holds setting c p → s.Holds setting c p)
    (hsettled : ∀ c p, ¬ s'.Tracks c p → s.Settled setting c p → s'.Settled setting c p)
    (htracks : ∀ c p, s.Tracks c p → s'.Tracks c p)
    (hpanes : ∀ p pane, s'.manager.panes p = some pane → s.manager.panes p = some pane)
    (hgeneration : s'.manager.nextGeneration = s.manager.nextGeneration)
    (hopeners : s'.openers = s.openers) (hclosings : s'.closings = s.closings)
    (hover : ∀ c tab, s'.tabs c = some tab → tab.phase = .over → tab.panes = []) :
    s'.Sound setting where
  exclusive c c' p hc hc' := h.exclusive c c' p (hholds c p hc) (hholds c' p hc')
  settled c p hnot := hsettled c p hnot (h.settled c p fun htracked => hnot (htracks c p htracked))
  panes p pane hpane := by
    rw [hgeneration, hopeners]
    exact h.panes p pane (hpanes p pane hpane)
  closings c generation hmem := by
    rw [hgeneration, hopeners]
    exact h.closings c generation (hclosings ▸ hmem)
  overEmpty := hover

theorem Sound.send (h : s.Sound setting) (htab : s.tabs c = some tab) (hphase : tab.phase ≠ .over)
    {panes : List PaneId} {frame : Frame}
    (hmore : ∀ p ∈ panes, p ∉ tab.panes → ∀ c', c' ≠ c → ¬ s.Holds setting c' p)
    (habout : ∀ message, setting.reads frame = some message →
      ∀ c', c' ≠ c → ¬ s.Holds setting c' message.paneId)
    (hopen : ∀ p cwd cols rows, setting.reads frame = some (.openPty p cwd cols rows) → p ∈ panes)
    (hclose : ∀ p ∈ tab.panes, p ∉ panes → setting.reads frame = some (.closePty p)) :
    ((s.setTab c { tab with panes }).send c frame).Sound setting := by
  have hpending (c' : ClientId) (p : PaneId) :
      ((s.setTab c { tab with panes }).send c frame).pending setting c' p =
        s.pending setting c' p ++ if c = c' then about setting frame p else [] := pending_send
  have hholds : ∀ c' p, ((s.setTab c { tab with panes }).send c frame).Holds setting c' p →
      s.Holds setting c' p ∨ (c' = c ∧ ∀ c', c' ≠ c → ¬ s.Holds setting c' p) := by
    rintro c' p (htracked | hpend | hopened)
    · obtain ⟨rfl, hmem⟩ | ⟨-, hold⟩ := tracks_setTab.mp htracked
      · by_cases hp : p ∈ tab.panes
        · exact .inl (.inl ((tracks_of_tab htab).mpr hp))
        · exact .inr ⟨rfl, hmore p hmem hp⟩
      · exact .inl (.inl hold)
    · by_cases hold : s.pending setting c' p = []
      · rw [hpending, hold, List.nil_append] at hpend
        by_cases hc : c = c'
        · subst hc
          refine .inr ⟨rfl, ?_⟩
          cases hreads : setting.reads frame with
          | none =>
            rw [if_pos rfl, about, hreads] at hpend
            exact absurd rfl hpend
          | some message =>
            rw [if_pos rfl, about_of_some hreads] at hpend
            by_cases hp : message.paneId = p
            · rw [← hp]
              exact habout message hreads
            · rw [if_neg hp] at hpend
              exact absurd rfl hpend
        · rw [if_neg hc] at hpend
          exact absurd rfl hpend
      · exact .inl (.inr (.inl hold))
    · exact .inl (.inr (.inr hopened))
  refine ⟨fun c₁ c₂ p h₁ h₂ => ?_, fun c' p hnot => ?_, h.panes, h.closings, fun c' tab' htab' => ?_⟩
  · rcases hholds c₁ p h₁ with hold₁ | ⟨rfl, hnone⟩
    · rcases hholds c₂ p h₂ with hold₂ | ⟨rfl, hnone⟩
      · exact h.exclusive c₁ c₂ p hold₁ hold₂
      · exact by_contra fun hne => hnone c₁ hne hold₁
    · rcases hholds c₂ p h₂ with hold₂ | ⟨rfl, -⟩
      · exact by_contra fun hne => hnone c₂ (Ne.symm hne) hold₂
      · rfl
  · rw [Settled, hpending]
    by_cases hc : c = c'
    · subst hc
      have hmem : p ∉ panes := fun hmem => hnot (tracks_setTab.mpr (.inl ⟨rfl, hmem⟩))
      rw [if_pos rfl]
      cases hreads : setting.reads frame with
      | none =>
        have hp : p ∉ tab.panes := fun hp => absurd ((hclose p hp hmem).symm.trans hreads) nofun
        rw [about, hreads]
        show (∃ q, (s.pending setting c p ++ []).getLast? = _) ∨ s.pending setting c p ++ [] = [] ∧ _
        rw [List.append_nil]
        exact h.settled c p fun htracked => hp ((tracks_of_tab htab).mp htracked)
      | some message =>
        rw [about_of_some hreads]
        by_cases hp : message.paneId = p
        · cases message with
          | openPty q cwd cols rows =>
            obtain rfl : q = p := hp
            exact absurd (hopen q cwd cols rows hreads) hmem
          | closePty q =>
            rw [if_pos hp]
            exact .inl ⟨q, List.getLast?_concat⟩
        · have hp' : p ∉ tab.panes := by
            intro hold
            rw [hclose p hold hmem] at hreads
            obtain rfl := Option.some.inj hreads
            exact hp rfl
          rw [if_neg hp, List.append_nil]
          exact h.settled c p fun htracked => hp' ((tracks_of_tab htab).mp htracked)
    · rw [if_neg hc, List.append_nil]
      exact h.settled c' p fun htracked => hnot (tracks_setTab.mpr (.inr ⟨Ne.symm hc, htracked⟩))
  · have hupdate : Function.update s.tabs c (some { tab with panes }) c' = some tab' := htab'
    intro hover
    by_cases hc : c' = c
    · rw [hc, Function.update_self] at hupdate
      obtain rfl := Option.some.inj hupdate
      exact absurd hover hphase
    · rw [Function.update_of_ne hc] at hupdate
      exact h.overEmpty c' tab' hupdate hover

/-- The first of the messages about a pane has been dealt with. -/
theorem Settled.tail {s₀ : Browsing} {message : DesktopMessage} (h : s.Settled setting c p)
    (hpending : s.pending setting c p = message :: s₀.pending setting c p)
    (hclosed : (∃ q, message = .closePty q) → ¬ s₀.OpenFor c p) : s₀.Settled setting c p := by
  rw [Settled, hpending] at h
  obtain ⟨q, hlast⟩ | ⟨hnil, -⟩ := h
  · cases hrest : s₀.pending setting c p with
    | nil =>
      rw [hrest] at hlast
      exact .inr ⟨hrest, hclosed ⟨q, Option.some.inj hlast⟩⟩
    | cons m rest =>
      rw [hrest, List.getLast?_cons_cons] at hlast
      exact .inl ⟨q, hrest ▸ hlast⟩
  · exact absurd hnil (List.cons_ne_nil _ _)

section Handle

variable {frame : Frame} {toWorker : List (ClientId × Frame)}

/-- A frame leaves the queue, and what it did leaves its sender with what it had. -/
theorem holds_of_handled (hqueue : s.toWorker = (c, frame) :: toWorker)
    (h : s'.Holds setting c' p) (htabs : s'.tabs = s.tabs) (hrest : s'.toWorker = toWorker)
    (hopen : s'.OpenFor c' p → s.Holds setting c' p) : s.Holds setting c' p := by
  rcases h with htracked | hpend | hopened
  · rw [Tracks, htabs] at htracked
    exact .inl htracked
  · refine .inr (.inl ?_)
    rw [pending_cons hqueue]
    refine List.append_ne_nil_of_right_ne_nil _ ?_
    rw [pending] at hpend ⊢
    rwa [← hrest]
  · exact hopen hopened

theorem holds_of_reads (hqueue : s.toWorker = (c, frame) :: toWorker) {message : DesktopMessage}
    (hreads : setting.reads frame = some message) : s.Holds setting c message.paneId := by
  refine .inr (.inl ?_)
  rw [pending_cons hqueue, if_pos rfl, about_of_some hreads, if_pos rfl]
  exact List.cons_ne_nil _ _

/-- What is under way after a message has been handled is settled if it was before, for a pane that
the message is not about. -/
theorem Settled.handled (h : s.Settled setting c' p) (hqueue : s.toWorker = (c, frame) :: toWorker)
    (hrest : s'.toWorker = toWorker) (hopen : s'.OpenFor c' p → s.OpenFor c' p)
    (hnone : (if c = c' then about setting frame p else []) = []) : s'.Settled setting c' p := by
  have hpending : s'.pending setting c' p = s.pending setting c' p := by
    rw [pending_cons hqueue, hnone, List.nil_append, pending, pending, hrest]
  rw [Settled, hpending]
  exact h.imp_right fun ⟨hnil, hclosed⟩ => ⟨hnil, fun hopened => hclosed (hopen hopened)⟩

/-- A message about no pane. -/
theorem Sound.skip (h : s.Sound setting) (hqueue : s.toWorker = (c, frame) :: toWorker)
    (hreads : setting.reads frame = none) : Sound setting { s with toWorker } := by
  refine h.of_fewer (fun c' p h' => holds_of_handled hqueue h' rfl rfl (.inr ∘ .inr))
    (fun c' p _ hsettled => hsettled.handled hqueue rfl id ?_) (fun _ _ => id) (fun _ _ => id) rfl
    rfl rfl h.overEmpty
  rw [about, hreads]
  exact ite_self _

theorem Sound.open (h : s.Sound setting) (hqueue : s.toWorker = (c, frame) :: toWorker)
    {paneId : PaneId} {cwd : List Char} {cols rows : Nat}
    (hreads : setting.reads frame = some (.openPty paneId cwd cols rows)) (start : Start)
    (killed : Except (List Char) Unit) :
    (dispatch setting { s with toWorker } c start killed
      (some (.openPty paneId cwd cols rows))).Sound setting := by
  -- what a state with the pane, or without, has of the others
  have hsettled : ∀ {t : Browsing}, t.toWorker = toWorker → t.tabs = s.tabs →
      (∀ c' p, t.OpenFor c' p → s.OpenFor c' p ∨ (c' = c ∧ p = paneId)) →
        ∀ c' p, ¬ t.Tracks c' p → t.Settled setting c' p := by
    intro t hrest htabs hopen c' p hnot
    have hnot' : ¬ s.Tracks c' p := by rwa [Tracks, ← htabs]
    have hold := h.settled c' p hnot'
    by_cases hmine : c' = c ∧ p = paneId
    · obtain ⟨rfl, rfl⟩ := hmine
      have hpending : s.pending setting c' p =
          .openPty p cwd cols rows :: t.pending setting c' p := by
        rw [pending_cons hqueue, if_pos rfl, about_of_some hreads, pending, pending, hrest]
        exact congrArg (· ++ _) (if_pos rfl)
      exact hold.tail hpending fun ⟨q, hq⟩ => absurd hq nofun
    · refine hold.handled hqueue hrest (fun hopened => (hopen c' p hopened).resolve_right hmine) ?_
      by_cases hc : c = c'
      · rw [if_pos hc, about_of_some hreads]
        exact if_neg fun hp => hmine ⟨hc.symm, hp.symm⟩
      · exact if_neg hc
  rw [dispatch]
  obtain ⟨message, heq⟩ | ⟨hfree, heq⟩ :=
    PtyManager.spawn_cases s.manager setting.owner paneId cols rows start
  · rw [heq]
    refine ⟨fun c₁ c₂ p h₁ h₂ => h.exclusive c₁ c₂ p ?_ ?_,
      hsettled rfl rfl fun _ _ => .inl, h.panes, h.closings, h.overEmpty⟩
    · exact holds_of_handled hqueue h₁ rfl rfl (.inr ∘ .inr)
    · exact holds_of_handled hqueue h₂ rfl rfl (.inr ∘ .inr)
  · rw [heq]
    dsimp only
    have hopeners : ∀ generation, generation < s.manager.nextGeneration →
        Function.update s.openers s.manager.nextGeneration (some c) generation =
          s.openers generation := fun generation hlt =>
      Function.update_of_ne (Nat.ne_of_lt hlt) _ _
    have hopen : ∀ c' p, OpenFor
        { s with
          toWorker
          manager :=
            { panes := Function.update s.manager.panes paneId
                (some ⟨s.manager.nextGeneration, setting.owner⟩)
              nextGeneration := s.manager.nextGeneration + 1 }
          openers := Function.update s.openers s.manager.nextGeneration (some c) } c' p →
        s.OpenFor c' p ∨ (c' = c ∧ p = paneId) := by
      rintro c' p ⟨pane, hpane, hopener⟩
      dsimp only at hpane hopener
      by_cases hp : p = paneId
      · rw [hp, Function.update_self] at hpane
        obtain rfl := Option.some.inj hpane
        rw [Function.update_self] at hopener
        exact .inr ⟨(Option.some.inj hopener).symm, hp⟩
      · rw [Function.update_of_ne hp] at hpane
        rw [hopeners _ (h.panes p pane hpane).2.1] at hopener
        exact .inl ⟨pane, hpane, hopener⟩
    have hholds : ∀ c' p, OpenFor _ c' p → s.Holds setting c' p := fun c' p hopened =>
      (hopen c' p hopened).elim (.inr ∘ .inr) fun ⟨hc, hp⟩ =>
        hc ▸ hp ▸ holds_of_reads hqueue hreads
    refine ⟨fun c₁ c₂ p h₁ h₂ => h.exclusive c₁ c₂ p ?_ ?_, hsettled rfl rfl hopen,
      fun p pane hpane => ?_, fun c' generation hmem => ?_, h.overEmpty⟩
    · exact holds_of_handled hqueue h₁ rfl rfl (hholds c₁ p)
    · exact holds_of_handled hqueue h₂ rfl rfl (hholds c₂ p)
    · dsimp only at hpane ⊢
      by_cases hp : p = paneId
      · rw [hp, Function.update_self] at hpane
        obtain rfl := Option.some.inj hpane
        exact ⟨rfl, Nat.lt_succ_self _, c, Function.update_self _ _ _⟩
      · rw [Function.update_of_ne hp] at hpane
        obtain ⟨howner, hlt, c', hc'⟩ := h.panes p pane hpane
        exact ⟨howner, Nat.lt_succ_of_lt hlt, c', (hopeners _ hlt).trans hc'⟩
    · obtain ⟨hopener, hlt⟩ := h.closings c' generation hmem
      exact ⟨(hopeners _ hlt).trans hopener, Nat.lt_succ_of_lt hlt⟩

theorem Sound.close (h : s.Sound setting) (hqueue : s.toWorker = (c, frame) :: toWorker)
    {paneId : PaneId} (hreads : setting.reads frame = some (.closePty paneId)) (start : Start)
    (killed : Except (List Char) Unit) :
    (dispatch setting { s with toWorker } c start killed
      (some (.closePty paneId))).Sound setting := by
  have hmine : s.Holds setting c paneId := holds_of_reads hqueue hreads
  have hsettled : ∀ {t : Browsing}, t.toWorker = toWorker → t.tabs = s.tabs →
      (∀ c' p, t.OpenFor c' p → s.OpenFor c' p) → ¬ t.OpenFor c paneId →
        ∀ c' p, ¬ t.Tracks c' p → t.Settled setting c' p := by
    intro t hrest htabs hopen hclosed c' p hnot
    have hnot' : ¬ s.Tracks c' p := by rwa [Tracks, ← htabs]
    have hold := h.settled c' p hnot'
    by_cases hmine : c' = c ∧ p = paneId
    · obtain ⟨rfl, rfl⟩ := hmine
      have hpending : s.pending setting c' p = .closePty p :: t.pending setting c' p := by
        rw [pending_cons hqueue, if_pos rfl, about_of_some hreads, pending, pending, hrest]
        exact congrArg (· ++ _) (if_pos rfl)
      exact hold.tail hpending fun _ => hclosed
    · refine hold.handled hqueue hrest (hopen c' p) ?_
      by_cases hc : c = c'
      · rw [if_pos hc, about_of_some hreads]
        exact if_neg fun hp => hmine ⟨hc.symm, hp.symm⟩
      · exact if_neg hc
  rw [dispatch]
  obtain ⟨hnone, events, heq⟩ | ⟨pane, events, hpane, -, heq⟩ :=
    PtyManager.close_cases s.manager setting.owner paneId killed
  · rw [heq]
    have hclosed : ¬ s.OpenFor c paneId := by
      rintro ⟨pane, hpane, -⟩
      obtain hfree | ⟨pane', hpane', howner⟩ := hnone
      · exact absurd (hfree.symm.trans hpane) nofun
      · exact howner (h.panes paneId pane' hpane').1
    refine ⟨fun c₁ c₂ p h₁ h₂ => h.exclusive c₁ c₂ p ?_ ?_,
      hsettled rfl rfl (fun _ _ => id) hclosed, h.panes, h.closings, h.overEmpty⟩
    · exact holds_of_handled hqueue h₁ rfl rfl (.inr ∘ .inr)
    · exact holds_of_handled hqueue h₂ rfl rfl (.inr ∘ .inr)
  · rw [heq]
    dsimp only
    have hpanes : ∀ p pane', Function.update s.manager.panes paneId none p = some pane' →
        p ≠ paneId ∧ s.manager.panes p = some pane' := by
      intro p pane' h'
      by_cases hp : p = paneId
      · rw [hp, Function.update_self] at h'
        exact absurd h' nofun
      · exact ⟨hp, (Function.update_of_ne hp _ _).symm.trans h'⟩
    have hopen : ∀ c' p, OpenFor
        { s with
          toWorker
          manager := { s.manager with panes := Function.update s.manager.panes paneId none }
          closings := s.closings ++ [(c, pane.generation)] } c' p →
        p ≠ paneId ∧ s.OpenFor c' p := by
      rintro c' p ⟨pane', hpane', hopener⟩
      obtain ⟨hp, hold⟩ := hpanes p pane' hpane'
      exact ⟨hp, pane', hold, hopener⟩
    refine ⟨fun c₁ c₂ p h₁ h₂ => h.exclusive c₁ c₂ p ?_ ?_,
      hsettled rfl rfl (fun c' p h' => (hopen c' p h').2) fun h' => (hopen c paneId h').1 rfl,
      fun p pane' hpane' => h.panes p pane' (hpanes p pane' hpane').2, ?_, h.overEmpty⟩
    · exact holds_of_handled hqueue h₁ rfl rfl fun h' => .inr (.inr (hopen c₁ p h').2)
    · exact holds_of_handled hqueue h₂ rfl rfl fun h' => .inr (.inr (hopen c₂ p h').2)
    · intro c' generation hmem
      rcases List.mem_append.mp hmem with hmem | hmem
      · exact h.closings c' generation hmem
      · -- the pane was opened by a browser that has to do with the id, and so has the sender
        obtain ⟨rfl, rfl⟩ : c' = c ∧ generation = pane.generation := by simpa using hmem
        obtain ⟨-, hlt, opener, hopener⟩ := h.panes paneId pane hpane
        obtain rfl := h.exclusive opener c' paneId (.inr (.inr ⟨pane, hpane, hopener⟩)) hmine
        exact ⟨hopener, hlt⟩

end Handle

theorem withTab_eq_some {phase : Phase} {f : Tab → Option Browsing} :
    s.withTab c phase f = some s' ↔
      ∃ tab, s.tabs c = some tab ∧ tab.phase = phase ∧ f tab = some s' := by
  rw [withTab, Option.bind_eq_some_iff]
  refine exists_congr fun tab => and_congr_right fun _ => ?_
  split
  · next hphase => simp [hphase]
  · next hphase => simp [hphase]

theorem Sound.setTab (h : s.Sound setting) (htracks : ∀ p, p ∈ tab.panes ↔ s.Tracks c p)
    (hover : tab.phase = .over → tab.panes = []) :
    (s.setTab c tab).Sound setting := by
  have hsame (c' : ClientId) (p : PaneId) : (s.setTab c tab).Tracks c' p ↔ s.Tracks c' p := by
    rw [tracks_setTab]
    by_cases hc : c' = c
    · subst hc
      simp [htracks]
    · simp [hc]
  refine h.of_fewer (fun c' p h' => h'.imp_left (hsame c' p).mp) (fun _ _ _ => id)
    (fun c' p => (hsame c' p).mpr) (fun _ _ => id) rfl rfl rfl fun c' tab' htab' => ?_
  have hupdate : Function.update s.tabs c (some tab) c' = some tab' := htab'
  by_cases hc : c' = c
  · rw [hc, Function.update_self] at hupdate
    obtain rfl := Option.some.inj hupdate
    exact hover
  · rw [Function.update_of_ne hc] at hupdate
    exact h.overEmpty c' tab' hupdate

theorem Sound.step (h : s.Sound setting) {l : BrowsingStep} (horderly : s.Orderly setting l)
    (hstep : Browsing.step setting s l = some s') : s'.Sound setting := by
  cases l with
  | connect c =>
    rw [Browsing.step] at hstep
    split at hstep
    · next hnone =>
      obtain rfl := Option.some.inj hstep
      refine h.setTab (fun p => ?_) nofun
      rw [Tracks, hnone]
      simp
    · exact absurd hstep nofun
  | frame c message =>
    obtain ⟨tab, htab, hphase, hstep⟩ := withTab_eq_some.mp hstep
    obtain rfl := Option.some.inj hstep
    obtain ⟨⟨hopened, hclosed⟩, hothers⟩ := horderly
    refine h.send htab (by rw [hphase]; nofun) (fun p hmem hnot => ?_) (fun m hreads => ?_)
      (fun p cwd cols rows hreads => ?_) fun p hmem hnot => ?_
    · exact hothers p (.inl (.inl ((mem_trackPane hmem).resolve_left hnot)))
    · exact hothers m.paneId (.inr ⟨m, hreads, rfl⟩)
    · by_contra hnot
      exact (not_mem_trackPane hnot).1 (hopened p cwd cols rows hreads)
    · exact hclosed p ((not_mem_trackPane hnot).2.resolve_left fun h' => h' hmem)
  | stop c =>
    obtain ⟨tab, htab, -, hstep⟩ := withTab_eq_some.mp hstep
    obtain rfl := Option.some.inj hstep
    exact h.setTab (fun p => (tracks_of_tab htab).symm) nofun
  | cleanUp c paneId =>
    obtain ⟨tab, htab, hphase, hstep⟩ := withTab_eq_some.mp hstep
    split at hstep
    · next hpane =>
      obtain rfl := Option.some.inj hstep
      have hmine : s.Holds setting c paneId := .inl ((tracks_of_tab htab).mpr hpane)
      refine h.send htab (by rw [hphase]; nofun) (fun p hmem hnot => ?_) (fun m hreads => ?_)
        (fun p cwd cols rows hreads => absurd hreads nofun) fun p hmem hnot => ?_
      · exact absurd (List.mem_filter.mp hmem).1 hnot
      · obtain rfl := Option.some.inj hreads
        exact fun c' hne hholds => hne (h.exclusive c' c paneId hholds hmine)
      · have hp : p = paneId := by
          by_contra hne
          exact hnot (List.mem_filter.mpr ⟨hmem, decide_eq_true hne⟩)
        rw [hp]
        rfl
    · exact absurd hstep nofun
  | finish c =>
    obtain ⟨tab, htab, -, hstep⟩ := withTab_eq_some.mp hstep
    split at hstep
    · next hnil =>
      obtain rfl := Option.some.inj hstep
      exact h.setTab (fun p => (tracks_of_tab htab).symm) fun _ => hnil
    · exact absurd hstep nofun
  | handle start killed =>
    rw [Browsing.step] at hstep
    split at hstep
    · exact absurd hstep nofun
    · next c frame toWorker hqueue =>
      obtain rfl := Option.some.inj hstep
      cases hreads : setting.reads frame with
      | none => exact h.skip hqueue hreads
      | some message =>
        cases message with
        | openPty paneId cwd cols rows => exact h.open hqueue hreads start killed
        | closePty paneId => exact h.close hqueue hreads start killed
  | exit generation paneId =>
    obtain rfl := Option.some.inj hstep
    have hopen : ∀ c p, OpenFor { s with manager := s.manager.forget generation paneId } c p →
        s.OpenFor c p := fun c p ⟨pane, hpane, hopener⟩ =>
      ⟨pane, PtyManager.panes_forget hpane, hopener⟩
    refine h.of_fewer (fun c p h' => ?_) (fun c p _ hsettled => ?_) (fun _ _ => id)
      (fun p pane => PtyManager.panes_forget) PtyManager.nextGeneration_forget rfl rfl h.overEmpty
    · exact h'.imp_right (.imp_right (hopen c p))
    · exact hsettled.imp_right fun ⟨hnil, hclosed⟩ => ⟨hnil, fun h' => hclosed (hopen c p h')⟩

/-- Along the runs that are orderly, a closed tab leaves nothing behind and takes nothing away. -/
theorem tidy_of_run {steps : List BrowsingStep}
    (horderly : (browsing setting).Along (Browsing.Orderly setting) .init steps)
    (hrun : (browsing setting).exec .init steps = some s) : s.Tidy :=
  (Machine.invariant (M := browsing setting) (I := Sound setting) .init
    (fun _ _ _ h hl hstep => h.step hl hstep) horderly hrun).tidy

/-! ### Two tabs -/

def openFrame (paneId : PaneId) : List Char :=
  "\x7b\"kind\":\"open_pty\",\"pane_id\":\"".toList ++ paneId ++
    "\",\"cwd\":\"\",\"cols\":80,\"rows\":24\x7d".toList

def openJson (paneId : PaneId) : Json :=
  .obj [("kind".toList, .str "open_pty".toList), ("pane_id".toList, .str paneId),
    ("cwd".toList, .str []), ("cols".toList, .int 80), ("rows".toList, .int 24)]

def twoPanes : Setting where
  fromStr text := ["p1".toList, "p2".toList].findSome? fun paneId =>
    if text = openFrame paneId then some (openJson paneId) else none
  owner := "gateway".toList

/-- Each tab opens a pane, and the second tab is closed. -/
def apart : List BrowsingStep :=
  [.connect 1, .connect 2, .frame 1 (.text (openFrame "p1".toList)), .handle .started (.ok ()),
    .frame 2 (.text (openFrame "p2".toList)), .handle .started (.ok ()), .stop 2,
    .cleanUp 2 "p2".toList, .handle .started (.ok ()), .finish 2]

theorem recorded_openFrame (h : setting.fromStr (openFrame p) = some (openJson p))
    (hp : lifecycle (openJson p) = some (.opened p)) :
    setting.Recorded (.text (openFrame p)) ∧
      ∀ q, setting.Names (.text (openFrame p)) q → q = p := by
  have hlifecycle : (setting.json (.text (openFrame p))).bind lifecycle = some (.opened p) := by
    rw [Setting.json, h]
    exact hp
  have hreads : setting.reads (.message (.text (openFrame p))) = some (.openPty p [] 80 24) := by
    rw [Setting.reads, Setting.json, h]
    rfl
  refine ⟨⟨fun q cwd cols rows hq => ?_, fun q hq => ?_⟩, ?_⟩
  · obtain ⟨rfl, -⟩ := DesktopMessage.openPty.inj (Option.some.inj (hreads.symm.trans hq))
    exact hlifecycle
  · exact absurd (hlifecycle.symm.trans hq) (by simp)
  · rintro q ((hq | hq) | ⟨m, hm, rfl⟩)
    · exact (Lifecycle.opened.inj (Option.some.inj (hlifecycle.symm.trans hq))).symm
    · exact absurd (hlifecycle.symm.trans hq) (by simp)
    · rw [← Option.some.inj (hreads.symm.trans hm)]
      rfl

theorem tidy_apart : ∃ s, (browsing twoPanes).exec .init apart = some s ∧ s.Tidy ∧
    s.OpenFor 1 "p1".toList := by
  refine ⟨_, rfl, @tidy_of_run twoPanes _ apart ?_ rfl, ⟨⟨1, _⟩, rfl, rfl⟩⟩
  refine ⟨trivial, fun _ h => ?_⟩
  obtain rfl := Option.some.inj h
  refine ⟨trivial, fun _ h => ?_⟩
  obtain rfl := Option.some.inj h
  refine ⟨?_, fun _ h => ?_⟩
  · obtain ⟨hrecorded, hnames⟩ := @recorded_openFrame twoPanes "p1".toList rfl rfl
    refine ⟨hrecorded, fun q hq c' hne => ?_⟩
    obtain rfl := hnames q hq
    rintro (⟨tab, htab, hmem⟩ | hpend | ⟨pane, hpane, -⟩)
    · by_cases hc : c' = 2
      · subst hc
        obtain rfl := Option.some.inj htab
        exact absurd hmem List.not_mem_nil
      · simp [setTab, init, hc, hne] at htab
    · exact hpend rfl
    · exact absurd hpane nofun
  obtain rfl := Option.some.inj h
  refine ⟨trivial, fun _ h => ?_⟩
  obtain rfl := Option.some.inj h
  refine ⟨?_, fun _ h => ?_⟩
  · obtain ⟨hrecorded, hnames⟩ := @recorded_openFrame twoPanes "p2".toList rfl rfl
    refine ⟨hrecorded, fun q hq c' hne => ?_⟩
    obtain rfl := hnames q hq
    rintro (⟨tab, htab, hmem⟩ | hpend | ⟨pane, hpane, -⟩)
    · by_cases hc : c' = 1
      · subst hc
        obtain rfl := Option.some.inj htab
        exact absurd hmem (by decide)
      · change Function.update (Function.update (Function.update (fun _ => none) 1 _) 2 _) 1 _ c' =
          some tab at htab
        simp [hc, hne] at htab
    · exact hpend rfl
    · exact absurd hpane nofun
  obtain rfl := Option.some.inj h
  refine ⟨trivial, fun _ h => ?_⟩
  obtain rfl := Option.some.inj h
  refine ⟨trivial, fun _ h => ?_⟩
  obtain rfl := Option.some.inj h
  refine ⟨trivial, fun _ h => ?_⟩
  obtain rfl := Option.some.inj h
  refine ⟨trivial, fun _ h => ?_⟩
  obtain rfl := Option.some.inj h
  exact ⟨trivial, fun _ _ => trivial⟩

/-- Both tabs ask for the same pane id, and the second tab is closed. -/
def sameId : List BrowsingStep :=
  [.connect 1, .connect 2, .frame 1 (.text (openFrame "p1".toList)), .handle .started (.ok ()),
    .frame 2 (.text (openFrame "p1".toList)), .handle .started (.ok ()), .stop 2,
    .cleanUp 2 "p1".toList, .handle .started (.ok ()), .finish 2]

/-- The second tab is refused the pane, and its end closes that of the first. -/
theorem not_tidy : ¬ ∀ (setting : Setting) (steps : List BrowsingStep) (s : Browsing),
    (browsing setting).exec .init steps = some s → s.Tidy := by
  intro h
  have hclosed := (h twoPanes sameId _ rfl).2 2 1 (by decide)
  exact absurd hclosed (by decide)

end Browsing

end Goble.Gateway
