import Mathlib.Logic.Relation

/-!
# Programs that call

A `Prog S α` is a sequential program over a signature `S` of calls: it returns,
performs one call and goes on with its result, or runs a loop whose body says
with `Sum.inl` to go round again and with `Sum.inr` to leave.  The tree fixes
no meaning for the calls; that is the job of a `Semantics`
(`Machine.lean`).  A loop is a constructor of its own, so that a program that
never returns is still a finite tree and a definition by structural recursion
reaches every part of it.
-/

namespace Interaction

/-- The calls a program can make, each with the type of its result. -/
structure Signature where
  Op : Type
  Res : Op → Type

/-- A sequential program over the calls of `S` with a result in `α`: it returns, makes a call and
goes on with its result, or runs a loop. -/
inductive Prog (S : Signature) : Type → Type 1
  | ret {α : Type} (a : α) : Prog S α
  | call {α : Type} (o : S.Op) (k : S.Res o → Prog S α) : Prog S α
  | loop {α β σ : Type} (body : σ → Prog S (σ ⊕ β)) (s : σ) (k : β → Prog S α) :
      Prog S α

namespace Prog

variable {S : Signature} {α β γ σ : Type}

/-- Run `p`, then `f` on its result. -/
def bind {α β : Type} : Prog S α → (α → Prog S β) → Prog S β
  | ret a, f => f a
  | call o k, f => call o fun r => (k r).bind f
  | loop body s k, f => loop body s fun b => (k b).bind f

instance : Monad (Prog S) where
  pure := ret
  bind := bind

/-- The program that makes one call and returns its result. -/
def perform (o : S.Op) : Prog S (S.Res o) := call o ret

/-- The loop that runs `body` from `s` on, again and again with the state it comes to, until `body`
leaves it with a result. -/
def iterate (body : σ → Prog S (σ ⊕ β)) (s : σ) : Prog S β := loop body s ret

/-- What a loop does with the result of its body: go round again or leave. -/
def again (body : σ → Prog S (σ ⊕ β)) (k : β → Prog S α) : σ ⊕ β → Prog S α
  | .inl s => loop body s k
  | .inr b => k b

theorem pure_eq (a : α) : (pure a : Prog S α) = ret a := rfl

@[simp] theorem bind_eq (p : Prog S α) (f : α → Prog S β) : p >>= f = p.bind f := rfl

@[simp] theorem ret_bind (a : α) (f : α → Prog S β) : (ret a).bind f = f a := rfl

@[simp] theorem call_bind (o : S.Op) (k : S.Res o → Prog S α) (f : α → Prog S β) :
    (call o k).bind f = call o fun r => (k r).bind f := rfl

@[simp] theorem loop_bind (body : σ → Prog S (σ ⊕ γ)) (s : σ) (k : γ → Prog S α)
    (f : α → Prog S β) :
    (loop body s k).bind f = loop body s fun b => (k b).bind f := rfl

@[simp] theorem iterate_bind (body : σ → Prog S (σ ⊕ β)) (s : σ) (f : β → Prog S α) :
    (iterate body s).bind f = loop body s f := rfl

@[simp] theorem bind_ret (p : Prog S α) : p.bind ret = p := by
  induction p with
  | ret a => rfl
  | call o k ih => simp only [call_bind, ih]
  | loop body s k _ ih => simp only [loop_bind, ih]

theorem bind_assoc (p : Prog S α) (f : α → Prog S β) (g : β → Prog S γ) :
    (p.bind f).bind g = p.bind fun a => (f a).bind g := by
  induction p with
  | ret a => rfl
  | call o k ih => simp only [call_bind, ih]
  | loop body s k _ ih => simp only [loop_bind, ih]

instance : LawfulMonad (Prog S) :=
  LawfulMonad.mk' _ bind_ret (fun _ _ => rfl) bind_assoc

end Prog

end Interaction
