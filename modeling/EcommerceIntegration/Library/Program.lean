import Mathlib.Tactic.Common

/-!
# Programs that call an environment

A program is a tree: it returns, raises an exception, or performs an operation and
goes on with the reply. The operations are not interpreted here; an environment
answers each of them with a value or with an exception, and may do so whenever it
likes, which is what lets the same program text run alone or interleaved.
-/

set_option autoImplicit false

universe u

/-- `Op` are the operations, `Res o` the type of the answer to `o`, `ε` the exceptions. -/
inductive Program (Op : Type) (Res : Op → Type) (ε α : Type) : Type
  | done (a : α)
  | raise (e : ε)
  | call (o : Op) (k : Except ε (Res o) → Program Op Res ε α)

namespace Program

variable {Op : Type} {Res : Op → Type} {ε α β γ : Type}

/-- Go on with `f` after the value, pass an exception through. -/
def andThen : Program Op Res ε α → (α → Program Op Res ε β) → Program Op Res ε β
  | done a, f => f a
  | raise e, _ => raise e
  | call o k, f => call o fun r => (k r).andThen f

/-- Go on with `h` after an exception, pass a value through. -/
def handle : Program Op Res ε α → (ε → Program Op Res ε α) → Program Op Res ε α
  | done a, _ => done a
  | raise e, h => h e
  | call o k, h => call o fun r => (k r).handle h

def ofExcept : Except ε α → Program Op Res ε α
  | .ok a => done a
  | .error e => raise e

/-- Perform one operation; an exception of the environment is raised here. -/
def perform (o : Op) : Program Op Res ε (Res o) :=
  call o ofExcept

instance : Monad (Program Op Res ε) where
  pure := done
  bind := andThen

instance : MonadExceptOf ε (Program Op Res ε) where
  throw := raise
  tryCatch := handle

@[simp] theorem pure_eq (a : α) : (pure a : Program Op Res ε α) = done a := rfl

@[simp] theorem throw_eq (e : ε) : (throw e : Program Op Res ε α) = raise e := rfl

@[simp] theorem bind_eq (p : Program Op Res ε α) (f : α → Program Op Res ε β) :
    (p >>= f) = p.andThen f := rfl

@[simp] theorem tryCatch_eq (p : Program Op Res ε α) (h : ε → Program Op Res ε α) :
    tryCatch p h = p.handle h := rfl

@[simp] theorem done_andThen (a : α) (f : α → Program Op Res ε β) :
    (done a : Program Op Res ε α).andThen f = f a := rfl

@[simp] theorem raise_andThen (e : ε) (f : α → Program Op Res ε β) :
    (raise e : Program Op Res ε α).andThen f = raise e := rfl

@[simp] theorem call_andThen (o : Op) (k : Except ε (Res o) → Program Op Res ε α)
    (f : α → Program Op Res ε β) :
    (call o k).andThen f = call o fun r => (k r).andThen f := rfl

@[simp] theorem done_handle (a : α) (h : ε → Program Op Res ε α) :
    (done a).handle h = done a := rfl

@[simp] theorem raise_handle (e : ε) (h : ε → Program Op Res ε α) :
    (raise e).handle h = h e := rfl

@[simp] theorem call_handle (o : Op) (k : Except ε (Res o) → Program Op Res ε α)
    (h : ε → Program Op Res ε α) :
    (call o k).handle h = call o fun r => (k r).handle h := rfl

@[simp] theorem andThen_done (p : Program Op Res ε α) : p.andThen done = p := by
  induction p with
  | done a => rfl
  | raise e => rfl
  | call o k ih => exact congrArg (call o) (funext ih)

theorem andThen_assoc (p : Program Op Res ε α) (f : α → Program Op Res ε β)
    (g : β → Program Op Res ε γ) :
    (p.andThen f).andThen g = p.andThen fun a => (f a).andThen g := by
  induction p with
  | done a => rfl
  | raise e => rfl
  | call o k ih => exact congrArg (call o) (funext ih)

end Program
