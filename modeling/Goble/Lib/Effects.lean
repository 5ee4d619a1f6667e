/-!
# Programs over operations

A program is a tree: at each node it performs one operation and goes on with the answer. What the
operations mean is said apart, by a `Handler` over a state. An operation may leave something open
(what a peer replies, whether a call fails); the handler is told this by a `Choice`.

* `Prog.run` — the run of a program in an environment, which makes the choices from all it has seen
  in the state;
* `Prog.wp` — what holds however a program ends, when every choice is one that `ok` admits; by the
  shape of the program (`wp_bind`), and sound for every run (`wp.run`);
* `Prog.Keeps` — the program keeps an invariant, part by part;
* `Prog.Uses`, `Prog.Returns` — which operations a program performs and what it ends with, whatever
  the answers.

`Prog.leave` is the return of the whole routine from within: what would follow is not run.
-/

namespace Goble

/-- A program over the operations `Op`, with answers `Ans`, that ends with an `α`. -/
inductive Prog (Op : Type) (Ans : Op → Type) (α : Type) where
  | done (a : α)
  | leave
  | perform (op : Op) (next : Ans op → Prog Op Ans α)

/-- What the operations do to a state `σ`, told what they leave open. -/
structure Handler (Op : Type) (Ans Choice : Op → Type) (σ : Type) where
  handle : (op : Op) → Choice op → σ → Ans op × σ

namespace Prog

variable {Op : Type} {Ans Choice : Op → Type} {α β σ : Type}

protected def bind : Prog Op Ans α → (α → Prog Op Ans β) → Prog Op Ans β
  | .done a, f => f a
  | .leave, _ => .leave
  | .perform op next, f => .perform op fun answer => (next answer).bind f

instance : Monad (Prog Op Ans) where
  pure := .done
  bind := Prog.bind

theorem bind_assoc {γ : Type} (p : Prog Op Ans α) (f : α → Prog Op Ans β)
    (g : β → Prog Op Ans γ) : (p >>= f) >>= g = p >>= fun a => f a >>= g := by
  induction p with
  | done a => rfl
  | leave => rfl
  | perform op next ih => exact congrArg (perform op) (funext fun answer => ih answer)

/-- The program of one operation. -/
def ofOp (op : Op) : Prog Op Ans (Ans op) := .perform op .done

variable {p : Prog Op Ans α} {post : α → σ → Prop} {f : α → Prog Op Ans β} {s : σ}

section Semantics

variable (H : Handler Op Ans Choice σ)

def run (env : σ → (op : Op) → Choice op) : Prog Op Ans α → σ → Option α × σ
  | .done a, s => (some a, s)
  | .leave, s => (none, s)
  | .perform op next, s =>
    (next (H.handle op (env s op) s).1).run env (H.handle op (env s op) s).2

/-- Every choice of the run is admitted in the state it is made in. -/
def Meets (ok : σ → (op : Op) → Choice op → Prop) (env : σ → (op : Op) → Choice op) :
    Prog Op Ans α → σ → Prop
  | .done _, _ => True
  | .leave, _ => True
  | .perform op next, s => ok s op (env s op) ∧
    (next (H.handle op (env s op) s).1).Meets ok env (H.handle op (env s op) s).2

/-- However the program ends from here by admitted choices, it ends with `post`, or is left with
`left`. -/
def wp (ok : σ → (op : Op) → Choice op → Prop) (left : σ → Prop) (post : α → σ → Prop) :
    Prog Op Ans α → σ → Prop
  | .done a, s => post a s
  | .leave, s => left s
  | .perform op next, s => ∀ choice, ok s op choice →
    (next (H.handle op choice s).1).wp ok left post (H.handle op choice s).2

variable {H} {ok : σ → (op : Op) → Choice op → Prop} {left : σ → Prop}

@[simp] theorem wp_pure {a : α} :
    (pure a : Prog Op Ans α).wp H ok left post s ↔ post a s := Iff.rfl

@[simp] theorem wp_leave :
    (leave : Prog Op Ans α).wp H ok left post s ↔ left s := Iff.rfl

@[simp] theorem wp_bind {post : β → σ → Prop} : (p >>= f).wp H ok left post s ↔
      p.wp H ok left (fun a t => (f a).wp H ok left post t) s := by
  induction p generalizing s with
  | done a => exact Iff.rfl
  | leave => exact Iff.rfl
  | perform op next ih =>
    change (∀ choice, _ → Prog.wp H ok left post (next _ >>= f) _) ↔ _
    exact forall_congr' fun choice => imp_congr_right fun _ => ih _

theorem wp.mono {post' : α → σ → Prop} (h : p.wp H ok left post s)
    (himp : ∀ a t, post a t → post' a t) :
    p.wp H ok left post' s := by
  induction p generalizing s with
  | done a => exact himp a s h
  | leave => exact h
  | perform op next ih => exact fun choice hok => ih _ (h choice hok)

variable {env : σ → (op : Op) → Choice op}

/-- **Soundness.** What holds however a program ends holds at the end of each of its runs. -/
theorem wp.run (h : p.wp H ok left post s) (hmeets : p.Meets H ok env s) :
    (p.run H env s).1.elim (left (p.run H env s).2) fun a => post a (p.run H env s).2 := by
  induction p generalizing s with
  | done a => exact h
  | leave => exact h
  | perform op next ih => exact ih _ (h _ hmeets.1) hmeets.2

theorem Meets.mono {ok' : σ → (op : Op) → Choice op → Prop} (h : p.Meets H ok env s)
    (himp : ∀ s op choice, ok s op choice → ok' s op choice) : p.Meets H ok' env s := by
  induction p generalizing s with
  | done a => trivial
  | leave => trivial
  | perform op next ih => exact ⟨himp _ _ _ h.1, ih _ h.2⟩

theorem Meets.and {ok' : σ → (op : Op) → Choice op → Prop} (h : p.Meets H ok env s)
    (h' : p.Meets H ok' env s) :
    p.Meets H (fun s op choice => ok s op choice ∧ ok' s op choice) env s := by
  induction p generalizing s with
  | done a => trivial
  | leave => trivial
  | perform op next ih => exact ⟨⟨h.1, h'.1⟩, ih _ h.2 h'.2⟩

/-- An environment that always makes admitted choices. -/
theorem meets_of_forall (h : ∀ s op, ok s op (env s op)) (p : Prog Op Ans α) (s : σ) :
    p.Meets H ok env s := by
  induction p generalizing s with
  | done a => trivial
  | leave => trivial
  | perform op next ih => exact ⟨h s op, ih _ _⟩

def Keeps (H : Handler Op Ans Choice σ) (ok : σ → (op : Op) → Choice op → Prop) (left I : σ → Prop)
    (p : Prog Op Ans α) : Prop :=
  ∀ s, I s → p.wp H ok left (fun _ => I) s

variable {I : σ → Prop}

theorem keeps_pure (a : α) : (pure a : Prog Op Ans α).Keeps H ok left I := fun _ h => h

theorem keeps_bind (hp : p.Keeps H ok left I) (hf : ∀ a, (f a).Keeps H ok left I) :
    (p >>= f).Keeps H ok left I := by
  intro s hI
  rw [wp_bind]
  exact (hp s hI).mono fun a t ht => hf a t ht

theorem keeps_ite {c : Prop} [Decidable c] {q : Prog Op Ans α} (hp : p.Keeps H ok left I)
    (hq : q.Keeps H ok left I) : (if c then p else q).Keeps H ok left I := by
  split
  · exact hp
  · exact hq

end Semantics

section Shape

/-- The program performs only operations that `allowed` has, whatever the answers. -/
def Uses (allowed : Op → Prop) : Prog Op Ans α → Prop
  | .done _ => True
  | .leave => True
  | .perform op next => allowed op ∧ ∀ answer, (next answer).Uses allowed

/-- What the program ends with has `P`, whatever the answers. -/
def Returns (P : α → Prop) : Prog Op Ans α → Prop
  | .done a => P a
  | .leave => True
  | .perform _ next => ∀ answer, (next answer).Returns P

variable {allowed : Op → Prop} {P : α → Prop} {R : β → Prop}

theorem Uses.mono {allowed' : Op → Prop} (hp : p.Uses allowed)
    (himp : ∀ op, allowed op → allowed' op) : p.Uses allowed' := by
  induction p with
  | done a => trivial
  | leave => trivial
  | perform op next ih => exact ⟨himp op hp.1, fun answer => ih answer (hp.2 answer)⟩

theorem uses_pure (a : α) : (pure a : Prog Op Ans α).Uses allowed := trivial

theorem uses_bind (hp : p.Uses allowed) (hf : ∀ a, (f a).Uses allowed) :
    (p >>= f).Uses allowed := by
  induction p with
  | done a => exact hf a
  | leave => trivial
  | perform op next ih => exact ⟨hp.1, fun answer => ih answer (hp.2 answer)⟩

theorem uses_ofOp {op : Op} (h : allowed op) : (ofOp op : Prog Op Ans (Ans op)).Uses allowed :=
  ⟨h, fun _ => trivial⟩

theorem uses_ite {c : Prop} [Decidable c] {q : Prog Op Ans α} (hp : p.Uses allowed)
    (hq : q.Uses allowed) : (if c then p else q).Uses allowed := by
  split
  · exact hp
  · exact hq

theorem returns_bind (hp : p.Returns P) (hf : ∀ a, P a → (f a).Returns R) :
    (p >>= f).Returns R := by
  induction p with
  | done a => exact hf a hp
  | leave => trivial
  | perform op next ih => exact fun answer => ih answer (hp answer)

theorem returns_true (p : Prog Op Ans α) : p.Returns fun _ => True := by
  induction p with
  | done a => trivial
  | leave => trivial
  | perform op next ih => exact ih

theorem returns_ite {c : Prop} [Decidable c] {q : Prog Op Ans α} (hp : c → p.Returns P)
    (hq : ¬ c → q.Returns P) : (if c then p else q).Returns P := by
  split
  · exact hp ‹_›
  · exact hq ‹_›

variable {H : Handler Op Ans Choice σ} {ok : σ → (op : Op) → Choice op → Prop} {left I : σ → Prop}

theorem Uses.keeps (hp : p.Uses allowed)
    (hop : ∀ op s choice, allowed op → I s → ok s op choice → I (H.handle op choice s).2)
    (hleft : ∀ s, I s → left s) : p.Keeps H ok left I := by
  induction p with
  | done a => exact fun s hI => hI
  | leave => exact hleft
  | perform op next ih =>
    exact fun s hI choice hok => ih _ (hp.2 _) _ (hop op s choice hp.1 hI hok)

/-- What a program ends with is known at its end. -/
theorem wp.returns (h : p.wp H ok left post s) (hp : p.Returns P) :
    p.wp H ok left (fun a t => P a ∧ post a t) s := by
  induction p generalizing s with
  | done a => exact ⟨hp, h⟩
  | leave => exact h
  | perform op next ih => exact fun choice hok => ih _ (h choice hok) (hp _)

end Shape

end Prog

end Goble
