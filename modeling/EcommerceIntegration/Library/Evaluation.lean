import EcommerceIntegration.Library.Program

/-!
# Programs that run alone

An environment with a state answers one operation after the other, with a value or with
an exception. Two environments that agree on the operations of a program cannot be told
apart by it.
-/

namespace Program

set_option autoImplicit false

variable {Op : Type} {Res : Op → Type} {ε α β S T : Type}

def eval (answer : (o : Op) → S → Except ε (Res o) × S) :
    Program Op Res ε α → S → Except ε α × S
  | done a, s => (.ok a, s)
  | raise e, s => (.error e, s)
  | call o k, s => (k (answer o s).1).eval answer (answer o s).2

section Eval
variable {answer : (o : Op) → S → Except ε (Res o) × S}

@[simp] theorem eval_done (a : α) (s : S) :
    (done a : Program Op Res ε α).eval answer s = (.ok a, s) := rfl

@[simp] theorem eval_raise (e : ε) (s : S) :
    (raise e : Program Op Res ε α).eval answer s = (.error e, s) := rfl

@[simp] theorem eval_call (o : Op) (k : Except ε (Res o) → Program Op Res ε α) (s : S) :
    (call o k).eval answer s = (k (answer o s).1).eval answer (answer o s).2 := rfl

theorem eval_andThen_ok {p : Program Op Res ε α} {f : α → Program Op Res ε β} {s t : S} {a : α}
    (h : p.eval answer s = (.ok a, t)) : (p.andThen f).eval answer s = (f a).eval answer t := by
  induction p generalizing s with
  | done b =>
    cases h
    rfl
  | raise e => cases h
  | call o k ih => exact ih _ h

theorem eval_handle_ok {p : Program Op Res ε α} {f : ε → Program Op Res ε α} {s t : S} {a : α}
    (h : p.eval answer s = (.ok a, t)) : (p.handle f).eval answer s = (.ok a, t) := by
  induction p generalizing s with
  | done b => exact h
  | raise e => cases h
  | call o k ih => exact ih _ h

theorem eval_handle_error {p : Program Op Res ε α} {f : ε → Program Op Res ε α} {s t : S} {e : ε}
    (h : p.eval answer s = (.error e, t)) : (p.handle f).eval answer s = (f e).eval answer t := by
  induction p generalizing s with
  | done b => cases h
  | raise e' =>
    cases h
    rfl
  | call o k ih => exact ih _ h

end Eval

/-! ## Which operations a program uses -/

/-- Whatever the answers are, every operation is in `P`. -/
def Uses (P : Op → Prop) : Program Op Res ε α → Prop
  | done _ => True
  | raise _ => True
  | call o k => P o ∧ ∀ r, (k r).Uses P

section Uses
variable {P Q : Op → Prop}

theorem Uses.mono (hPQ : ∀ o, P o → Q o) {p : Program Op Res ε α} (hp : p.Uses P) : p.Uses Q := by
  induction p with
  | done a => trivial
  | raise e => trivial
  | call o k ih => exact ⟨hPQ o hp.1, fun r => ih r (hp.2 r)⟩

theorem Uses.andThen {p : Program Op Res ε α} {f : α → Program Op Res ε β} (hp : p.Uses P)
    (hf : ∀ a, (f a).Uses P) : (p.andThen f).Uses P := by
  induction p with
  | done a => exact hf a
  | raise e => trivial
  | call o k ih => exact ⟨hp.1, fun r => ih r (hp.2 r)⟩

theorem Uses.handle {p : Program Op Res ε α} {f : ε → Program Op Res ε α} (hp : p.Uses P)
    (hf : ∀ e, (f e).Uses P) : (p.handle f).Uses P := by
  induction p with
  | done a => trivial
  | raise e => exact hf e
  | call o k ih => exact ⟨hp.1, fun r => ih r (hp.2 r)⟩

theorem Uses.perform {o : Op} (ho : P o) : (perform o : Program Op Res ε (Res o)).Uses P := by
  refine ⟨ho, fun r => ?_⟩
  cases r <;> trivial

/-- Related states that answer alike stay related, and the program ends alike. -/
theorem Uses.eval_simulates {answer : (o : Op) → S → Except ε (Res o) × S}
    {answer' : (o : Op) → T → Except ε (Res o) × T} (R : S → T → Prop)
    (hanswer : ∀ o s t, P o → R s t →
      (answer o s).1 = (answer' o t).1 ∧ R (answer o s).2 (answer' o t).2)
    {p : Program Op Res ε α} (hp : p.Uses P) {s : S} {t : T} (hR : R s t) :
    (p.eval answer s).1 = (p.eval answer' t).1 ∧ R (p.eval answer s).2 (p.eval answer' t).2 := by
  induction p generalizing s t with
  | done a => exact ⟨rfl, hR⟩
  | raise e => exact ⟨rfl, hR⟩
  | call o k ih =>
    obtain ⟨heq, hnext⟩ := hanswer o s t hp.1 hR
    rw [eval_call, eval_call, ← heq]
    exact ih _ (hp.2 _) hnext

theorem Uses.eval_keeps {answer : (o : Op) → S → Except ε (Res o) × S} {I : S → Prop}
    (hanswer : ∀ o s, P o → I s → I (answer o s).2) {p : Program Op Res ε α} (hp : p.Uses P)
    {s : S} (hs : I s) : I (p.eval answer s).2 := by
  induction p generalizing s with
  | done a => exact hs
  | raise e => exact hs
  | call o k ih => exact ih _ (hp.2 _) (hanswer o s hp.1 hs)

end Uses

end Program
