import Mathlib.Data.Nat.Notation
import Mathlib.Tactic.Lemma

/-!
# Programs over a signature of operations

A program is a tree: it either returns, or performs one operation of a signature and continues
with the answer.  The tree fixes what the program asks for and in which order, and leaves open
what the operations do, so that the same program can be run against several machines.

`Prog.bind` puts programs in sequence, `Prog.interp` replaces every operation by a program over
another signature, and `Prog.eval` runs a program against a total handler, with nothing else
happening in between.  `transcript` records a sequence of such runs, one after another.
-/

namespace Effects

/-- A signature: `Op` lists the operations and `Res o` is the type of the answers to `o`. -/
structure Sig where
  /-- The operations. -/
  Op : Type
  /-- The answers to each operation. -/
  Res : Op → Type

/-- A program over the signature `S` that returns a value of type `α`. -/
inductive Prog (S : Sig) (α : Type) : Type where
  /-- Return a value. -/
  | ret (a : α) : Prog S α
  /-- Perform an operation and continue with its answer. -/
  | perform (o : S.Op) (k : S.Res o → Prog S α) : Prog S α

namespace Prog

variable {S T : Sig} {α β γ σ : Type}

/-- Run `p`, then the program that `f` makes of its result. -/
def bind (p : Prog S α) (f : α → Prog S β) : Prog S β :=
  match p with
  | ret a => f a
  | perform o k => perform o fun r => (k r).bind f

/-- The program that performs one operation and returns its answer. -/
def op (o : S.Op) : Prog S (S.Res o) := perform o ret

instance : Monad (Prog S) where
  pure := ret
  bind := bind

/-- `pure` is written `ret` throughout. -/
@[simp] lemma pure_eq (a : α) : (pure a : Prog S α) = ret a := rfl

/-- `>>=` is written `bind` throughout. -/
@[simp] lemma bind_eq (p : Prog S α) (f : α → Prog S β) : p >>= f = p.bind f := rfl

/-- Returning and continuing is just continuing. -/
@[simp] lemma ret_bind (a : α) (f : α → Prog S β) : (ret a).bind f = f a := rfl

/-- An operation at the head stays at the head. -/
@[simp] lemma perform_bind (o : S.Op) (k : S.Res o → Prog S α) (f : α → Prog S β) :
    (perform o k).bind f = perform o fun r => (k r).bind f := rfl

/-- Sequencing is associative. -/
lemma bind_assoc (p : Prog S α) (f : α → Prog S β) (g : β → Prog S γ) :
    (p.bind f).bind g = p.bind fun a => (f a).bind g := by
  induction p with
  | ret a => rfl
  | perform o k ih => simp only [perform_bind, ih]

/-! ## Interpretation -/

/-- Replace every operation by a program over the signature `T`. -/
def interp (h : (o : S.Op) → Prog T (S.Res o)) : Prog S α → Prog T α
  | ret a => ret a
  | perform o k => (h o).bind fun r => interp h (k r)

variable {h : (o : S.Op) → Prog T (S.Res o)}

/-- The head operation is interpreted first. -/
@[simp] lemma interp_perform (o : S.Op) (k : S.Res o → Prog S α) :
    interp h (perform o k) = (h o).bind fun r => interp h (k r) := rfl

/-- Interpretation commutes with sequencing. -/
@[simp] lemma interp_bind (p : Prog S α) (f : α → Prog S β) :
    interp h (p.bind f) = (interp h p).bind fun a => interp h (f a) := by
  induction p with
  | ret a => rfl
  | perform o k ih => simp only [perform_bind, interp_perform, ih, bind_assoc]

/-! ## Evaluation -/

/-- Run a program against a total handler, threading the state. -/
def eval (h : (o : S.Op) → σ → S.Res o × σ) : Prog S α → σ → α × σ
  | ret a, s => (a, s)
  | perform o k, s => eval h (k (h o s).1) (h o s).2

variable {e : (o : S.Op) → σ → S.Res o × σ}

/-- Returning leaves the state alone. -/
@[simp] lemma eval_ret (a : α) (s : σ) : (ret a).eval e s = (a, s) := rfl

/-- One operation is run by the handler. -/
@[simp] lemma eval_perform (o : S.Op) (k : S.Res o → Prog S α) (s : σ) :
    (perform o k).eval e s = (k (e o s).1).eval e (e o s).2 := rfl

/-- The program of one operation is run by the handler. -/
@[simp] lemma eval_op (o : S.Op) (s : σ) : (op o).eval e s = e o s := rfl

/-- A sequence is run by running its parts in order. -/
@[simp] lemma eval_bind (p : Prog S α) (f : α → Prog S β) (s : σ) :
    (p.bind f).eval e s = (f (p.eval e s).1).eval e (p.eval e s).2 := by
  induction p generalizing s with
  | ret a => rfl
  | perform o k ih => simp only [perform_bind, eval_perform, ih]

/-- Running an interpreted program is running the program against the interpreted handler. -/
lemma eval_interp {d : (o : T.Op) → σ → T.Res o × σ} (p : Prog S α) (s : σ) :
    (interp h p).eval d s = p.eval (fun o s => (h o).eval d s) s := by
  induction p generalizing s with
  | ret a => rfl
  | perform o k ih => simp only [interp_perform, eval_bind, eval_perform, ih]

/-- The operations that a program performs in a run against a total handler, in order. -/
def trace (h : (o : S.Op) → σ → S.Res o × σ) : Prog S α → σ → List S.Op
  | ret _, _ => []
  | perform o k, s => o :: trace h (k (h o s).1) (h o s).2

@[simp] lemma trace_ret (a : α) (s : σ) : (ret a : Prog S α).trace e s = [] := rfl

@[simp] lemma trace_perform (o : S.Op) (k : S.Res o → Prog S α) (s : σ) :
    (perform o k).trace e s = o :: (k (e o s).1).trace e (e o s).2 := rfl

/-- A sequence performs what its parts perform, in order. -/
@[simp] lemma trace_bind (p : Prog S α) (f : α → Prog S β) (s : σ) :
    (p.bind f).trace e s = p.trace e s ++ (f (p.eval e s).1).trace e (p.eval e s).2 := by
  induction p generalizing s with
  | ret a => rfl
  | perform o k ih => simp only [perform_bind, trace_perform, eval_perform, ih, List.cons_append]

/-! ## The operations a program may perform -/

/-- Every operation that `p` can ever perform satisfies `P`. -/
def Uses (P : S.Op → Prop) : Prog S α → Prop
  | ret _ => True
  | perform o k => P o ∧ ∀ r, Uses P (k r)

variable {P : S.Op → Prop}

/-- A single operation performs itself. -/
@[simp] lemma uses_op (o : S.Op) : (op o).Uses P ↔ P o := by
  simp [op, Uses]

/-- A sequence performs what its parts perform. -/
lemma Uses.bind {p : Prog S α} {f : α → Prog S β} (hp : p.Uses P) (hf : ∀ a, (f a).Uses P) :
    (p.bind f).Uses P := by
  induction p with
  | ret a => exact hf a
  | perform o k ih => exact ⟨hp.1, fun r => ih r (hp.2 r)⟩

/-- A weaker property of the operations. -/
lemma Uses.imp {p : Prog S α} {Q : S.Op → Prop} (hp : p.Uses P) (hQ : ∀ o, P o → Q o) :
    p.Uses Q := by
  induction p with
  | ret a => trivial
  | perform o k ih => exact ⟨hQ o hp.1, fun r => ih r (hp.2 r)⟩

/-- What every operation of a program keeps, the program keeps. -/
lemma Uses.eval {p : Prog S α} {K : σ → Prop} {s : σ} (hp : p.Uses P)
    (hK : ∀ o s, P o → K s → K (e o s).2) (hs : K s) : K (p.eval e s).2 := by
  induction p generalizing s with
  | ret a => exact hs
  | perform o k ih => exact ih _ (hp.2 _) (hK o s hp.1 hs)

/-- An interpreted program performs what the programs of its operations perform. -/
lemma Uses.interp {p : Prog S α} {Q : T.Op → Prop} (hp : p.Uses P)
    (hQ : ∀ o, P o → (h o).Uses Q) : (p.interp h).Uses Q := by
  induction p with
  | ret a => trivial
  | perform o k ih => exact (hQ o hp.1).bind fun r => ih r (hp.2 r)

end Prog

/-! ## Sequences of runs -/

/-- One run in a sequence: the argument, the states before and after, and the result. -/
structure Call (ι σ α : Type) where
  /-- What the call was given. -/
  arg : ι
  /-- The state it started from. -/
  pre : σ
  /-- What it returned. -/
  ret : α
  /-- The state it left. -/
  post : σ

section Transcript

variable {S : Sig} {ι σ α : Type}
variable (h : (o : S.Op) → σ → S.Res o × σ) (f : ι → Prog S α)

/-- The record of the single call `f i` from the state `s`. -/
def call (i : ι) (s : σ) : Call ι σ α :=
  ⟨i, s, ((f i).eval h s).1, ((f i).eval h s).2⟩

/-- The records of the calls `f i`, made one after another from the state `s`. -/
def transcript : List ι → σ → List (Call ι σ α)
  | [], _ => []
  | i :: is, s => call h f i s :: transcript is (call h f i s).post

/-- The state that a sequence of calls leaves. -/
def final : List ι → σ → σ
  | [], s => s
  | i :: is, s => final is (call h f i s).post

variable {h f}

/-- No calls, no records. -/
@[simp] lemma transcript_nil (s : σ) : transcript h f [] s = [] := rfl

/-- The first call is recorded first. -/
@[simp] lemma transcript_cons (i : ι) (is : List ι) (s : σ) :
    transcript h f (i :: is) s = call h f i s :: transcript h f is (call h f i s).post := rfl

/-- No calls leave the state alone. -/
@[simp] lemma final_nil (s : σ) : final h f [] s = s := rfl

/-- The calls after the first start from the state it left. -/
@[simp] lemma final_cons (i : ι) (is : List ι) (s : σ) :
    final h f (i :: is) s = final h f is (call h f i s).post := rfl

/-- The records of a sequence made in two parts. -/
lemma transcript_append (is js : List ι) (s : σ) :
    transcript h f (is ++ js) s = transcript h f is s ++ transcript h f js (final h f is s) := by
  induction is generalizing s with
  | nil => rfl
  | cons i is ih => simp [ih]

/-- The run rule.  An invariant that every admissible call keeps holds before and after every
call of the sequence, and at its end. -/
theorem transcript_invariant {I : σ → Prop} {A : Call ι σ α → Prop}
    (hstep : ∀ i s, I s → A (call h f i s) → I (call h f i s).post) {is : List ι} {s : σ}
    (hs : I s) (hA : ∀ c ∈ transcript h f is s, A c) :
    (∀ c ∈ transcript h f is s, I c.pre ∧ I c.post) ∧ I (final h f is s) := by
  induction is generalizing s with
  | nil => exact ⟨by simp, hs⟩
  | cons i is ih =>
    rw [transcript_cons, List.forall_mem_cons] at hA
    have hpost : I (call h f i s).post := hstep i s hs hA.1
    obtain ⟨hall, hfin⟩ := ih hpost hA.2
    rw [transcript_cons, List.forall_mem_cons]
    exact ⟨⟨⟨hs, hpost⟩, hall⟩, hfin⟩

/-- Two families of programs that agree where `P` holds, and can be told apart by a single call from
any state where it does not, have the same records exactly on the sequences over `P`. -/
theorem transcript_eq_iff {g : ι → Prog S α} {P : ι → Prop} (heq : ∀ i, P i → f i = g i)
    (hne : ∀ i, ¬ P i → ∀ s, call h f i s ≠ call h g i s) (is : List ι) (s : σ) :
    transcript h f is s = transcript h g is s ↔ ∀ i ∈ is, P i := by
  induction is generalizing s with
  | nil => simp
  | cons i is ih =>
    rw [transcript_cons, transcript_cons, List.cons.injEq, List.forall_mem_cons]
    by_cases hi : P i
    · have hcall : call h f i s = call h g i s := by
        unfold call
        rw [heq i hi]
      rw [hcall, ih]
      exact and_congr_left fun _ => iff_of_true rfl hi
    · exact iff_of_false (fun hboth => hne i hi s hboth.1) fun hboth => hi hboth.1

/-- Every record is the record of a call from its own starting state. -/
lemma eq_call_of_mem {is : List ι} {s : σ} {c : Call ι σ α} (hc : c ∈ transcript h f is s) :
    c = call h f c.arg c.pre := by
  induction is generalizing s with
  | nil => simp at hc
  | cons i is ih =>
    rw [transcript_cons, List.mem_cons] at hc
    rcases hc with rfl | hc
    · rfl
    · exact ih hc

end Transcript

end Effects
