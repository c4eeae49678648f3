import Msp432Newlib.Effects.Program

/-!
# Interleaved runs

A world says what the operations of a signature do to a state, and what the environment can do to
that state on its own account between any two operations.  Some operations are busy-wait loops:
while `blocked` holds the program looks at the state, finds that it cannot go on, and looks again.

`Runs W p s t q s'` says that, started as `p` in the state `s`, the program can have become `q` with
the state `s'` after the events `t`, in some interleaving with the environment.  Every finite run is
covered, also one that has not returned yet.  A program can run to its end when the environment can
end each of its waits (`Runs.exists_of_releases`).  `replay` runs a program along a given schedule,
so that a concrete run is found by evaluation.
-/

namespace Effects

/-- What operations and environment do to the states `σ`; `ε` lists the environment's moves. -/
structure World (S : Sig) (σ ε : Type) where
  /-- The effect of an operation that goes through. -/
  handle : (o : S.Op) → σ → S.Res o × σ
  /-- The operation is a busy-wait loop that has to go round once more. -/
  blocked : S.Op → σ → Bool
  /-- The effect of a move of the environment, if it can be made. -/
  env : ε → σ → Option σ

/-- Who takes a step: the program with an operation, or the environment with a move. -/
inductive Act (S : Sig) (ε : Type) where
  /-- The program performs an operation, or looks once more. -/
  | cpu (o : S.Op)
  /-- The environment moves. -/
  | env (e : ε)

/-- A step of a run, with the state it was taken in. -/
structure Event (S : Sig) (σ ε : Type) where
  /-- The state just before the step. -/
  pre : σ
  /-- The step. -/
  act : Act S ε

/-- The step was taken by the program. -/
def Event.IsCpu {S : Sig} {σ ε : Type} (e : Event S σ ε) : Prop := ∃ o, e.act = .cpu o

/-- Whose turn it is, in a schedule. -/
inductive Turn (ε : Type) where
  /-- The program's. -/
  | cpu
  /-- The environment's, with the move it makes. -/
  | env (e : ε)

variable {S : Sig} {σ ε α β : Type}

/-- `Runs W p s t q s'`: from `p` and `s` the events `t` can lead to `q` and `s'`. -/
inductive Runs (W : World S σ ε) : Prog S α → σ → List (Event S σ ε) → Prog S α → σ → Prop
  /-- Nothing has happened. -/
  | nil {p : Prog S α} {s : σ} : Runs W p s [] p s
  /-- The program performs its next operation. -/
  | done {o : S.Op} {k : S.Res o → Prog S α} {s s' : σ} {t : List (Event S σ ε)} {q : Prog S α} :
      W.blocked o s = false → Runs W (k (W.handle o s).1) (W.handle o s).2 t q s' →
        Runs W (.perform o k) s (⟨s, .cpu o⟩ :: t) q s'
  /-- The program's busy-wait loop goes round once more. -/
  | spin {o : S.Op} {k : S.Res o → Prog S α} {s s' : σ} {t : List (Event S σ ε)} {q : Prog S α} :
      W.blocked o s = true → Runs W (.perform o k) s t q s' →
        Runs W (.perform o k) s (⟨s, .cpu o⟩ :: t) q s'
  /-- The environment moves. -/
  | env {e : ε} {p q : Prog S α} {s s₁ s' : σ} {t : List (Event S σ ε)} :
      W.env e s = some s₁ → Runs W p s₁ t q s' → Runs W p s (⟨s, .env e⟩ :: t) q s'

namespace Runs

variable {W : World S σ ε} {p q : Prog S α} {s s' s'' : σ} {t : List (Event S σ ε)}

/-- Every run of a sequence that has returned consists of a run of its first part that has
returned, and a run of the rest. -/
theorem exists_of_bind {f : α → Prog S β} {b : β} (h : Runs W (p.bind f) s t (.ret b) s'') :
    ∃ a s' t₁ t₂, t = t₁ ++ t₂ ∧ Runs W p s t₁ (.ret a) s' ∧ Runs W (f a) s' t₂ (.ret b) s'' := by
  generalize hx : p.bind f = x at h
  generalize hy : Prog.ret b = y at h
  induction h generalizing p with
  | nil =>
    subst hy
    cases p with
    | ret a =>
      rw [Prog.ret_bind] at hx
      exact ⟨a, _, [], _, rfl, .nil, hx ▸ .nil⟩
    | perform o k => simp at hx
  | done hb hr ih =>
    subst hy
    cases p with
    | ret a =>
      rw [Prog.ret_bind] at hx
      exact ⟨a, _, [], _, rfl, .nil, hx ▸ .done hb hr⟩
    | perform o k =>
      rw [Prog.perform_bind] at hx
      cases hx
      obtain ⟨a, s₁, t₁, t₂, rfl, h₁, h₂⟩ := ih rfl rfl
      exact ⟨a, s₁, _ :: t₁, t₂, rfl, .done hb h₁, h₂⟩
  | spin hb hr ih =>
    subst hy
    cases p with
    | ret a =>
      rw [Prog.ret_bind] at hx
      exact ⟨a, _, [], _, rfl, .nil, hx ▸ .spin hb hr⟩
    | perform o k =>
      obtain ⟨a, s₁, t₁, t₂, rfl, h₁, h₂⟩ := ih hx rfl
      rw [Prog.perform_bind] at hx
      cases hx
      exact ⟨a, s₁, _ :: t₁, t₂, rfl, .spin hb h₁, h₂⟩
  | env he hr ih =>
    obtain ⟨a, s₁, t₁, t₂, rfl, h₁, h₂⟩ := ih hx hy
    exact ⟨a, s₁, _ :: t₁, t₂, rfl, .env he h₁, h₂⟩

/-- What neither the operations a program uses nor the environment can change, no run of the
program changes. -/
theorem invariant {P : S.Op → Prop} {τ : Type} (f : σ → τ)
    (hcpu : ∀ o s, P o → f (W.handle o s).2 = f s)
    (henv : ∀ e s s', W.env e s = some s' → f s' = f s)
    (h : Runs W p s t q s') (hp : p.Uses P) : f s' = f s := by
  induction h with
  | nil => rfl
  | done _ _ ih => rw [ih (hp.2 _), hcpu _ _ hp.1]
  | spin _ _ ih => exact ih hp
  | env he _ ih => rw [ih hp, henv _ _ _ he]

/-- Every operation performed in a run of a program is one the program uses. -/
theorem uses {P : S.Op → Prop} (h : Runs W p s t q s') (hp : p.Uses P) :
    ∀ e ∈ t, ∀ o, e.act = .cpu o → P o := by
  induction h with
  | nil => simp
  | done _ _ ih =>
    refine List.forall_mem_cons.2 ⟨?_, ih (hp.2 _)⟩
    rintro _ ⟨⟩
    exact hp.1
  | spin _ _ ih =>
    refine List.forall_mem_cons.2 ⟨?_, ih hp⟩
    rintro _ ⟨⟩
    exact hp.1
  | env _ _ ih =>
    refine List.forall_mem_cons.2 ⟨?_, ih hp⟩
    rintro _ ⟨⟩

/-! ## Undisturbed runs -/

/-- A run in which the environment makes no move is the evaluation of the program. -/
theorem eval_eq {a : α} (h : Runs W p s t (.ret a) s') (ht : ∀ e ∈ t, e.IsCpu) :
    p.eval W.handle s = (a, s') := by
  generalize hx : Prog.ret a = x at h
  induction h with
  | nil => subst hx; rfl
  | done _ _ ih => exact ih (List.forall_mem_cons.1 ht).2 hx
  | spin _ _ ih => exact ih (List.forall_mem_cons.1 ht).2 hx
  | env _ _ _ =>
    obtain ⟨o, ho⟩ := (List.forall_mem_cons.1 ht).1
    cases ho

/-- A program none of whose operations waits can run to its end without the environment. -/
theorem exists_of_uses {p : Prog S α} (hp : p.Uses fun o => ∀ s, W.blocked o s = false) (s : σ) :
    ∃ t, Runs W p s t (.ret (p.eval W.handle s).1) (p.eval W.handle s).2 ∧
      ∀ e ∈ t, e.IsCpu := by
  induction p generalizing s with
  | ret a => exact ⟨[], .nil, by simp⟩
  | perform o k ih =>
    obtain ⟨t, ht, hc⟩ := ih (W.handle o s).1 (hp.2 _) (W.handle o s).2
    refine ⟨⟨s, .cpu o⟩ :: t, .done (hp.1 s) ht, ?_⟩
    rw [List.forall_mem_cons]
    exact ⟨⟨o, rfl⟩, hc⟩

end Runs

/-! ## Runs to the end -/

/-- The state after the environment has made the moves one after another, if it can. -/
def World.moves (W : World S σ ε) : List ε → σ → Option σ
  | [], s => some s
  | e :: es, s => (W.env e s).bind (W.moves es)

/-- From every state the environment has moves after which the operation need not wait. -/
def World.Releases (W : World S σ ε) (o : S.Op) : Prop :=
  ∀ s, ∃ es s', W.moves es s = some s' ∧ W.blocked o s' = false

/-- An operation that never waits needs no moves. -/
lemma World.releases_of_unblocked {W : World S σ ε} {o : S.Op}
    (h : ∀ s, W.blocked o s = false) : W.Releases o :=
  fun s => ⟨[], s, rfl, h s⟩

namespace Runs

variable {W : World S σ ε} {p q : Prog S α} {s s₁ s' : σ} {t : List (Event S σ ε)}

/-- A run can begin with moves of the environment. -/
lemma exists_of_moves {es : List ε} (hes : W.moves es s = some s₁) (h : Runs W p s₁ t q s') :
    ∃ t', Runs W p s t' q s' := by
  induction es generalizing s with
  | nil =>
    obtain rfl := Option.some.inj hes
    exact ⟨t, h⟩
  | cons e es ih =>
    obtain ⟨s₂, he, hrest⟩ := Option.bind_eq_some_iff.1 hes
    obtain ⟨t', ht'⟩ := ih hrest
    exact ⟨_, .env he ht'⟩

/-- A program all of whose waits the environment can end can run to its end. -/
theorem exists_of_releases (hp : p.Uses W.Releases) (s : σ) :
    ∃ t a s', Runs W p s t (.ret a) s' := by
  induction p generalizing s with
  | ret a => exact ⟨[], a, s, .nil⟩
  | perform o k ih =>
    obtain ⟨es, s₁, hes, hb⟩ := hp.1 s
    obtain ⟨t, a, s', hrest⟩ := ih (W.handle o s₁).1 (hp.2 _) (W.handle o s₁).2
    obtain ⟨t', ht'⟩ := exists_of_moves hes (.done hb hrest)
    exact ⟨t', a, s', ht'⟩

/-- What is left of a program performs nothing that the program does not perform. -/
lemma uses_rest {P : S.Op → Prop} (h : Runs W p s t q s') (hp : p.Uses P) : q.Uses P := by
  induction h with
  | nil => exact hp
  | done _ _ ih => exact ih (hp.2 _)
  | spin _ _ ih => exact ih hp
  | env _ _ ih => exact ih hp

end Runs

/-! ## Replaying a schedule -/

/-- Run a program along a schedule, recording the events.  The result is `none` when the schedule
asks for a step that cannot be taken. -/
def replay (W : World S σ ε) :
    List (Turn ε) → Prog S α → σ → Option (List (Event S σ ε) × Prog S α × σ)
  | [], p, s => some ([], p, s)
  | .cpu :: _, .ret _, _ => none
  | .cpu :: ts, .perform o k, s =>
    (if W.blocked o s then replay W ts (.perform o k) s
      else replay W ts (k (W.handle o s).1) (W.handle o s).2).map
        fun x => (⟨s, .cpu o⟩ :: x.1, x.2)
  | .env e :: ts, p, s =>
    (W.env e s).bind fun s₁ => (replay W ts p s₁).map fun x => (⟨s, .env e⟩ :: x.1, x.2)

/-- What `replay` finds is a run. -/
theorem runs_of_replay {W : World S σ ε} (ts : List (Turn ε)) {p q : Prog S α} {s s' : σ}
    {t : List (Event S σ ε)} (h : replay W ts p s = some (t, q, s')) : Runs W p s t q s' := by
  induction ts generalizing p s t with
  | nil =>
    simp only [replay, Option.some.injEq, Prod.mk.injEq] at h
    obtain ⟨rfl, rfl, rfl⟩ := h
    exact .nil
  | cons turn ts ih =>
    cases turn with
    | cpu =>
      cases p with
      | ret a => simp [replay] at h
      | perform o k =>
        simp only [replay, Option.map_eq_some_iff] at h
        obtain ⟨⟨t', q', s₁⟩, hx, heq⟩ := h
        simp only [Prod.mk.injEq] at heq
        obtain ⟨rfl, rfl, rfl⟩ := heq
        cases hb : W.blocked o s with
        | true => exact .spin hb (ih (by simpa [hb] using hx))
        | false => exact .done hb (ih (by simpa [hb] using hx))
    | env e =>
      simp only [replay, Option.bind_eq_some_iff, Option.map_eq_some_iff] at h
      obtain ⟨s₁, he, ⟨t', q', s₂⟩, hx, heq⟩ := h
      simp only [Prod.mk.injEq] at heq
      obtain ⟨rfl, rfl, rfl⟩ := heq
      exact .env he (ih hx)

end Effects
