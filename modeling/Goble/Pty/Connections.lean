import Goble.Pty.ServerStep

/-!
# Subscriptions and connections

A subscription is filed under the name its connection went by when it attached, and
`remove_client` removes the subscriptions filed under the name of the connection that ends. So
subscriptions belong to names: a connection that has ended has left none under its name, and none
at all if it renamed itself only while it held none; and a connection that ends takes away none
that are filed under another name. Two connections of one name share their subscriptions
(`not_subscriptions_of_connections`).
-/

namespace Goble.Pty

/-- The connection renames itself only while it holds no subscription. -/
def keepsNameOf (c : ConnId) (d : ServerState) : ServerOp → Bool
  | .request c' (.hello _ clientId) _ =>
    decide (c' = c → clientId = (d.conns c).clientId ∨ d.Unsubscribed c)
  | _ => true

/-- The steps a connection comes to its end with. -/
def ServerOp.ends (c : ConnId) : ServerOp → Bool
  | .readError c' _ => c' = c
  | .send c' => c' = c
  | .writeFailed c' => c' = c
  | .disconnect c' => c' = c
  | .writerDone c' => c' = c
  | .join c' => c' = c
  | _ => false

/-- Subscribers are connections that were accepted, and one that is past `remove_client` is left
under other names only. -/
structure ConnectionInv (d : ServerState) : Prop where
  unborn : ∀ c, d.connCount ≤ c → (d.conns c).phase.stage = .unborn
  tx_lt : ∀ sid sub, d.Subscribed sid sub → sub.tx < d.connCount
  retired : ∀ sid sub, d.Subscribed sid sub → (d.conns sub.tx).phase.stage = .retired →
    sub.clientId ≠ (d.conns sub.tx).clientId

/-- The subscriptions of a connection are filed under the name it goes by. -/
def NamedBy (c : ConnId) (d : ServerState) : Prop :=
  ∀ sid sub, d.Subscribed sid sub → sub.tx = c → sub.clientId = (d.conns c).clientId

namespace ConnectionInv

variable {d d' : ServerState} {op : ServerOp} {c : ConnId}

theorem initial : ConnectionInv .init where
  unborn _ _ := rfl
  tx_lt := by
    rintro sid sub ⟨session, hs, -⟩
    cases hs
  retired := by
    rintro sid sub ⟨session, hs, -⟩
    cases hs

theorem lt_of_live (hI : ConnectionInv d) (hc : (d.conns c).phase.stage = .live) :
    c < d.connCount := by
  refine Nat.lt_of_not_le fun hle => ?_
  rw [hI.unborn c hle] at hc
  cases hc

theorem stays (hI : ConnectionInv d) (hd : ServerState.Stays d d')
    (hsubs : ∀ sid sub, d'.Subscribed sid sub →
      d.Subscribed sid sub ∨ (d.conns sub.tx).phase.stage = .live) : ConnectionInv d' where
  unborn c hc := by
    rw [hd.connCount] at hc
    rw [hd.stage, hI.unborn c hc]
  tx_lt sid sub hsub := by
    rw [hd.connCount]
    rcases hsubs sid sub hsub with hold | hlive
    · exact hI.tx_lt sid sub hold
    · exact hI.lt_of_live hlive
  retired sid sub hsub hret := by
    rw [hd.stage] at hret
    rw [hd.clientId]
    rcases hsubs sid sub hsub with hold | hlive
    · exact hI.retired sid sub hold hret
    · rw [hlive] at hret
      cases hret

theorem accept (hI : ConnectionInv d) : ConnectionInv d.accept where
  unborn c hc := by
    rw [ServerState.accept_conns, Function.update_of_ne (Nat.ne_of_gt hc)]
    exact hI.unborn c (Nat.le_of_succ_le hc)
  tx_lt sid sub hsub := Nat.lt_succ_of_lt (hI.tx_lt sid sub hsub)
  retired sid sub hsub := by
    rw [ServerState.accept_conns, Function.update_of_ne (Nat.ne_of_lt (hI.tx_lt sid sub hsub))]
    exact hI.retired sid sub hsub

theorem rename (hI : ConnectionInv d) (hlive : (d.conns c).phase.stage = .live)
    (clientId : String) : ConnectionInv (d.setConn c { d.conns c with clientId }) where
  unborn o ho := by
    rw [ServerState.setConn_conns,
      Function.update_of_ne (Nat.ne_of_gt (Nat.lt_of_lt_of_le (hI.lt_of_live hlive) ho))]
    exact hI.unborn o ho
  tx_lt := hI.tx_lt
  retired sid sub hsub hret := by
    rw [ServerState.setConn_conns] at hret ⊢
    by_cases htx : sub.tx = c
    · rw [htx, Function.update_self] at hret
      exact absurd (hlive.symm.trans hret) (by decide)
    · rw [Function.update_of_ne htx] at hret ⊢
      exact hI.retired sid sub hsub hret

/-- `remove_client` takes away what the connection holds under its name. -/
theorem disconnect (hI : ConnectionInv d) (hlive : (d.conns c).phase.stage = .live) :
    ConnectionInv (d.disconnect c) where
  unborn o ho := by
    rw [ServerState.disconnect, ServerState.setPhase, ServerState.setConn_conns,
      Function.update_of_ne (Nat.ne_of_gt (Nat.lt_of_lt_of_le (hI.lt_of_live hlive) ho))]
    exact hI.unborn o ho
  tx_lt sid sub hsub := hI.tx_lt sid sub (ServerState.subscribed_disconnect.mp hsub).1
  retired sid sub hsub hret := by
    obtain ⟨hold, hne⟩ := ServerState.subscribed_disconnect.mp hsub
    rw [ServerState.disconnect, ServerState.setPhase, ServerState.setConn_conns] at hret ⊢
    by_cases htx : sub.tx = c
    · rw [htx, Function.update_self]
      exact hne
    · rw [Function.update_of_ne htx] at hret ⊢
      exact hI.retired sid sub hold hret

/-- **Invariant preservation.** -/
theorem step (hI : ConnectionInv d) (hs : d.step op = some d') : ConnectionInv d' := by
  rcases ServerState.stays_cases hs with
    hd | rfl | ⟨c, id, clientId, answer, rfl, hlive, hsessions, hd⟩ | ⟨c, hlive, rfl⟩
  · exact hI.stays hd fun sid sub hsub =>
      (ServerState.subscribed_cases hs hsub).imp_right And.left
  · exact hI.accept
  · refine (hI.rename hlive clientId).stays hd fun sid sub hsub => .inl ?_
    exact (ServerState.Narrows.of_eq hsessions).subscribed hsub
  · exact hI.disconnect hlive

end ConnectionInv

namespace NamedBy

variable {d d' : ServerState} {op : ServerOp} {c : ConnId}

theorem rename (hN : NamedBy c d) {c' : ConnId} {clientId : String}
    (hname : c' = c → clientId = (d.conns c).clientId ∨ d.Unsubscribed c) :
    NamedBy c (d.setConn c' { d.conns c' with clientId }) := by
  intro sid sub hsub htx
  rw [ServerState.setConn_conns, Function.update_apply]
  split
  · next hc =>
    rcases hname hc.symm with rfl | hun
    · exact hN sid sub hsub htx
    · exact absurd htx (ServerState.unsubscribed_iff.mp hun sid sub hsub)
  · exact hN sid sub hsub htx

/-- **Invariant preservation.** -/
theorem step (hI : ConnectionInv d) (hN : NamedBy c d) (hkeep : keepsNameOf c d op = true)
    (hs : d.step op = some d') : NamedBy c d' := by
  intro sid sub hsub htx
  rcases ServerState.stays_cases hs with
    hd | rfl | ⟨c', id, clientId, answer, rfl, hlive, hsessions, hd⟩ | ⟨c', hlive, rfl⟩
  · rw [hd.clientId]
    rcases ServerState.subscribed_cases hs hsub with hold | ⟨-, hname⟩
    · exact hN sid sub hold htx
    · rw [hname, htx]
  · have hlt := hI.tx_lt sid sub hsub
    rw [htx] at hlt
    rw [ServerState.accept_conns, Function.update_of_ne (Nat.ne_of_lt hlt)]
    exact hN sid sub hsub htx
  · rw [hd.clientId]
    refine hN.rename (of_decide_eq_true hkeep) sid sub ?_ htx
    exact (ServerState.Narrows.of_eq hsessions).subscribed hsub
  · have hname : ((d.disconnect c').conns c).clientId = (d.conns c).clientId := by
      rw [ServerState.disconnect, ServerState.setPhase, ServerState.setConn_conns,
        Function.update_apply]
      split
      · next h => rw [h]; rfl
      · rfl
    rw [hname]
    exact hN sid sub (ServerState.subscribed_disconnect.mp hsub).1 htx

end NamedBy

/-- A connection that ends takes away no subscription filed under another name. -/
theorem subscribed_of_ends {d d' : ServerState} {op : ServerOp} {c : ConnId} {sid : String}
    {sub : Subscriber} (hends : op.ends c = true) (hs : d.step op = some d')
    (hsub : d.Subscribed sid sub) (hne : sub.clientId ≠ (d.conns c).clientId) :
    d'.Subscribed sid sub := by
  cases op with
  | readError c' error =>
    simp only [ServerState.step, Option.ite_none_right_eq_some] at hs
    obtain rfl := Option.some.inj hs.2
    cases error <;> exact hsub
  | send c' =>
    exact (ServerState.Narrows.of_eq (ServerState.sessions_send hs).symm).subscribed hsub
  | writeFailed c' =>
    simp only [ServerState.step, Option.ite_none_right_eq_some] at hs
    obtain rfl := Option.some.inj hs.2
    exact hsub
  | disconnect c' =>
    obtain rfl : c' = c := of_decide_eq_true hends
    simp only [ServerState.step, Option.ite_none_right_eq_some] at hs
    obtain rfl := Option.some.inj hs.2
    exact ServerState.subscribed_disconnect.mpr ⟨hsub, hne⟩
  | writerDone c' =>
    simp only [ServerState.step, Option.ite_none_right_eq_some] at hs
    obtain rfl := Option.some.inj hs.2
    exact hsub
  | join c' =>
    simp only [ServerState.step, Option.ite_none_right_eq_some] at hs
    obtain rfl := Option.some.inj hs.2
    exact hsub
  | _ => cases hends

/-- **Subscriptions belong to names.** In every run, a connection whose `handle_client` has
returned has left no subscription under its name, and none at all if it renamed itself only while
it held none; and a connection that ends takes away none that are filed under another name. -/
theorem subscriptions_of_names (ops : List ServerOp) (d : ServerState)
    (hrun : serverMachine.exec serverMachine.init ops = some d) (c : ConnId) :
    ((d.conns c).phase = .returned →
      (∀ sid sub, d.Subscribed sid sub → sub.tx = c → sub.clientId ≠ (d.conns c).clientId) ∧
      (serverMachine.Along (fun d op => keepsNameOf c d op = true) serverMachine.init ops →
        d.Unsubscribed c)) ∧
    ∀ op d', op.ends c = true → d.step op = some d' → ∀ sid sub, d.Subscribed sid sub →
      sub.clientId ≠ (d.conns c).clientId → d'.Subscribed sid sub := by
  have hI : ConnectionInv d :=
    Machine.invariant_of_step ConnectionInv.initial (fun _ _ _ hI hs => hI.step hs) hrun
  refine ⟨fun hret => ?_, fun op d' hends hs sid sub => subscribed_of_ends hends hs⟩
  have hother : ∀ sid sub, d.Subscribed sid sub → sub.tx = c →
      sub.clientId ≠ (d.conns c).clientId := by
    rintro sid sub hsub rfl
    exact hI.retired sid sub hsub (congrArg Phase.stage hret)
  refine ⟨hother, fun hname => ServerState.unsubscribed_iff.mpr fun sid sub hsub htx => ?_⟩
  have hN : ConnectionInv d ∧ NamedBy c d := by
    refine Machine.invariant (I := fun d => ConnectionInv d ∧ NamedBy c d) ?_ ?_ hname hrun
    · refine ⟨ConnectionInv.initial, ?_⟩
      rintro sid sub ⟨session, hs, -⟩
      cases hs
    · rintro d op d' ⟨hI, hN⟩ hkeep hs
      exact ⟨hI.step hs, NamedBy.step hI hN hkeep hs⟩
  exact hother sid sub hsub htx (hN.2 sid sub hsub htx)

/-- Two connections attach; the first one ends, and only the other one is left. -/
theorem subscriptions_after_end :
    ∃ d, serverMachine.exec serverMachine.init
        [.accept, .accept, .request 0 (.create 1 "p" "" 80 24 none [] []) (.done "s"), .send 0,
          .request 0 (.attach 2 "s" 0) (.done ""), .tryNext 0, .tryNext 0, .send 0,
          .request 1 (.attach 1 "s" 0) (.done ""), .tryNext 1, .tryNext 1, .send 1,
          .take 0, .take 0, .take 0, .readError 0 .ended, .disconnect 0, .writerDone 0,
          .join 0] = some d ∧
      d.Subscribed "s" ⟨"anon-2", 1⟩ ∧ d.Unsubscribed 0 := by
  obtain ⟨d, hrun, hfacts⟩ := Option.map_eq_some_iff.mp (show
    (serverMachine.exec serverMachine.init
      [.accept, .accept, .request 0 (.create 1 "p" "" 80 24 none [] []) (.done "s"), .send 0,
        .request 0 (.attach 2 "s" 0) (.done ""), .tryNext 0, .tryNext 0, .send 0,
        .request 1 (.attach 1 "s" 0) (.done ""), .tryNext 1, .tryNext 1, .send 1,
        .take 0, .take 0, .take 0, .readError 0 .ended, .disconnect 0, .writerDone 0,
        .join 0]).map (fun d => (decide (d.Subscribed "s" ⟨"anon-2", 1⟩), (d.conns 0).phase)) =
      some (true, .returned) by decide +kernel)
  obtain ⟨hsub, hphase⟩ := Prod.mk.inj hfacts
  exact ⟨d, hrun, of_decide_eq_true hsub,
    ((subscriptions_of_names _ d hrun 0).1 hphase).2 (by decide +kernel)⟩

/-- Subscriptions do not belong to connections. A connection that attaches, takes another name
and loses its socket has returned and is still on the list; and a connection that ends takes
away the subscription of another one that goes by the same name. -/
theorem not_subscriptions_of_connections :
    (¬ ∀ (ops : List ServerOp) (d : ServerState),
      serverMachine.exec serverMachine.init ops = some d → ∀ c,
        (d.conns c).phase = .returned → d.Unsubscribed c) ∧
    ¬ ∀ (ops : List ServerOp) (d : ServerState),
      serverMachine.exec serverMachine.init ops = some d → ∀ c op d', op.ends c = true →
        d.step op = some d' → ∀ sid sub, d.Subscribed sid sub → sub.tx ≠ c →
          (d.conns sub.tx).phase.stage = .live → d'.Subscribed sid sub := by
  constructor
  · intro hall
    obtain ⟨d, hrun, hfacts⟩ := Option.map_eq_some_iff.mp (show
      (serverMachine.exec serverMachine.init
        [.accept, .request 0 (.create 1 "p" "" 80 24 none [] []) (.done "s"), .send 0,
          .request 0 (.attach 2 "s" 0) (.done ""), .tryNext 0, .tryNext 0, .send 0,
          .request 0 (.hello 3 "b") (.done ""), .writeFailed 0, .send 0, .disconnect 0,
          .join 0]).map (fun d => ((d.conns 0).phase, decide (d.Unsubscribed 0))) =
        some (.returned, false) by decide +kernel)
    obtain ⟨hphase, hsub⟩ := Prod.mk.inj hfacts
    exact of_decide_eq_false hsub (hall _ d hrun 0 hphase)
  · intro hall
    obtain ⟨d, hrun, hfacts⟩ := Option.map_eq_some_iff.mp (show
      (serverMachine.exec serverMachine.init
        [.accept, .accept, .request 0 (.hello 0 "a") (.done ""), .send 0,
          .request 1 (.hello 0 "a") (.done ""), .send 1,
          .request 1 (.create 1 "p" "" 80 24 none [] []) (.done "s"), .send 1,
          .request 1 (.attach 2 "s" 0) (.done ""), .tryNext 1, .tryNext 1, .send 1,
          .readError 0 .ended]).map (fun d => ((d.conns 0).phase, d.lock, (d.conns 0).clientId,
            (d.conns 1).phase.stage, decide (d.Subscribed "s" ⟨"a", 1⟩))) =
        some (.closing, none, "a", .live, true) by decide +kernel)
    simp only [Prod.mk.injEq] at hfacts
    obtain ⟨hphase, hlock, hname, hstage, hsub⟩ := hfacts
    have hstep : d.step (.disconnect 0) = some (d.disconnect 0) := if_pos ⟨hphase, hlock⟩
    have hkept := hall _ d hrun 0 (.disconnect 0) _ rfl hstep "s" ⟨"a", 1⟩
      (of_decide_eq_true hsub) (by decide) hstage
    exact (ServerState.subscribed_disconnect.mp hkept).2 hname.symm

end Goble.Pty
