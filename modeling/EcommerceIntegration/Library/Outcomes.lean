import EcommerceIntegration.Library.Locking

/-!
# What a program can end with

`p.Ends A P Q` says that the values of `p` are in `P` and the exceptions it raises in
`Q`, as long as the environment raises only exceptions in `A`. It holds of every attempt
of a run when it holds of the program that the attempts start with.
-/

set_option autoImplicit false

namespace Program

variable {Op : Type} {Res : Op → Type} {ε α β : Type} {A Q Q' : ε → Prop}

def Ends (A : ε → Prop) (P : α → Prop) (Q : ε → Prop) : Program Op Res ε α → Prop
  | done a => P a
  | raise e => Q e
  | call _ k => (∀ a, (k (.ok a)).Ends A P Q) ∧ ∀ e, A e → (k (.error e)).Ends A P Q

theorem Ends.mono {P P' : α → Prop} (hP : ∀ a, P a → P' a) (hQ : ∀ e, Q e → Q' e)
    {p : Program Op Res ε α} (hp : p.Ends A P Q) : p.Ends A P' Q' := by
  induction p with
  | done a => exact hP a hp
  | raise e => exact hQ e hp
  | call o k ih => exact ⟨fun a => ih _ (hp.1 a), fun e he => ih _ (hp.2 e he)⟩

theorem Ends.andThen {P : α → Prop} {P' : β → Prop} {p : Program Op Res ε α}
    {f : α → Program Op Res ε β} (hp : p.Ends A P Q) (hf : ∀ a, P a → (f a).Ends A P' Q) :
    (p.andThen f).Ends A P' Q := by
  induction p with
  | done a => exact hf a hp
  | raise e => exact hp
  | call o k ih => exact ⟨fun a => ih _ (hp.1 a), fun e he => ih _ (hp.2 e he)⟩

theorem Ends.handle {P : α → Prop} {p : Program Op Res ε α} {f : ε → Program Op Res ε α}
    (hp : p.Ends A P Q) (hf : ∀ e, Q e → (f e).Ends A P Q') : (p.handle f).Ends A P Q' := by
  induction p with
  | done a => exact hp
  | raise e => exact hf e hp
  | call o k ih => exact ⟨fun a => ih _ (hp.1 a), fun e he => ih _ (hp.2 e he)⟩

theorem Ends.perform (hAQ : ∀ e, A e → Q e) (o : Op) :
    (perform o : Program Op Res ε (Res o)).Ends A (fun _ => True) Q :=
  ⟨fun _ => trivial, hAQ⟩

end Program

namespace Transaction

variable {σ : Signature} {I α : Type} {E : Engine σ} {prog : I → Session σ α}
  {A Q : Exn σ → Prop} {P : α → Prop} {J : I → Prop}

/-- The result is a value in `P` or an exception in `Q`. -/
def EndsIn (P : α → Prop) (Q : Exn σ → Prop) : Except (Exn σ) α → Prop
  | .ok a => P a
  | .error e => Q e

/-- An operation fails by a constraint or by a fault of the environment. -/
theorem respond_error {n : Nat} {i : I} {p p' : Progress σ} {sh sh' : Shared σ I} {o : Op σ}
    {choice : Choice} {e : Exn σ} (hr : E.respond n i p sh o choice = some (.error e, p', sh')) :
    (∃ c, e = .integrity c) ∨ ∃ m applied, choice = .fault m applied ∧ e = .fault m := by
  have hput : ∀ {c : Change σ} {p p' : Progress σ} {sh sh' : Shared σ I},
      E.put n c p sh = some (.error e, p', sh') → ∃ k, e = .integrity k := by
    intro c p p' sh sh' hput
    unfold Engine.put at hput
    split at hput
    · split at hput
      · cases hput
        exact ⟨_, rfl⟩
      · cases hput
    · cases hput
  cases choice with
  | ok =>
    cases o with
    | insert row =>
      obtain ⟨⟨r, p'', sh''⟩, hput', heq⟩ := Option.map_eq_some_iff.mp hr
      cases r with
      | ok => cases heq
      | error e' =>
        cases heq
        exact .inl (hput hput')
    | execute stmt => exact .inl (hput hr)
    | select | now | commit | rollback | request => cases hr
  | fault m applied =>
    cases o <;> cases hr <;> exact .inr ⟨m, applied, rfl, rfl⟩

/-- The attempts at inputs in `J` will end, or have ended, in `P` or `Q`. -/
structure State.Ends (A : Exn σ → Prop) (P : α → Prop) (Q : Exn σ → Prop) (J : I → Prop)
    (s : State σ I α) : Prop where
  active : ∀ n a, s.active n = some a → J a.input → a.program.Ends A P Q
  returned : ∀ r ∈ s.returned, J r.input → EndsIn P Q r.result

theorem State.Ends.leave {s : State σ I α} (hs : s.Ends A P Q J) (n : Nat) :
    (s.leave n).Ends A P Q J where
  active m a ha := by
    rcases update_eq_some ha with ⟨_, hv⟩ | ⟨_, ha⟩
    · cases hv
    · exact hs.active m a ha
  returned := hs.returned

theorem State.Ends.step {s t : State σ I α} {l : Label σ I} (hs : s.Ends A P Q J)
    (hprog : ∀ i, J i → (prog i).Ends A P Q) (hintegrity : ∀ c, A (.integrity c))
    (hfault : ∀ n m applied, l = .exec n (.fault m applied) → A (.fault m))
    (hst : Transaction.step E prog s l = some t) : t.Ends A P Q J := by
  cases l with
  | start i =>
    obtain rfl := step_start hst
    refine ⟨fun n a ha => ?_, hs.returned⟩
    rcases update_eq_some ha with ⟨_, hv⟩ | ⟨_, ha⟩
    · cases hv
      exact hprog i
    · exact hs.active n a ha
  | exec n choice =>
    obtain ⟨i, o, k, p, r, p', sh, hn, hr, rfl⟩ := step_exec hst
    refine ⟨fun m a ha hJ => ?_, hs.returned⟩
    rcases update_eq_some ha with ⟨_, hv⟩ | ⟨_, ha⟩
    · cases hv
      have hends := hs.active n _ hn hJ
      cases r with
      | ok v => exact hends.1 v
      | error e =>
        refine hends.2 e ?_
        rcases respond_error hr with ⟨c, rfl⟩ | ⟨m, applied, rfl, rfl⟩
        · exact hintegrity c
        · exact hfault n m applied rfl
    · exact hs.active m a ha hJ
  | finish n =>
    obtain ⟨i, q, p, r, hn, hq, rfl⟩ := step_finish hst
    refine ⟨(hs.leave n).active, fun ρ hρ hJ => ?_⟩
    rcases List.mem_append.mp hρ with hρ | hρ
    · exact hs.returned ρ hρ hJ
    · obtain rfl := List.mem_singleton.mp hρ
      have hends := hs.active n _ hn hJ
      subst hq
      cases r <;> exact hends
  | crash n =>
    obtain ⟨_, _, rfl⟩ := step_crash hst
    exact hs.leave n
  | tick d =>
    cases hst
    exact ⟨hs.active, hs.returned⟩
  | remote r =>
    cases hst
    exact ⟨hs.active, hs.returned⟩

/-- In every run whose faults are in `A`, the attempts at inputs in `J` return in `P` or
`Q`. -/
theorem run_ends {clock : Int} {remote : σ.Remote} {ls : List (Label σ I)} {s : State σ I α}
    (hprog : ∀ i, J i → (prog i).Ends A P Q) (hintegrity : ∀ c, A (.integrity c))
    (hfault : ∀ n m applied, .exec n (.fault m applied) ∈ ls → A (.fault m))
    (hrun : Transition.run (step E prog) (initial clock remote) ls = some s) :
    s.Ends A P Q J := by
  have halong : Transition.Along (Transaction.step E prog)
      (fun _ l => ∀ n m applied, l = .exec n (.fault m applied) → A (.fault m))
      (initial clock remote) ls := by
    refine Transition.along_iff.mpr fun ks l ms t hls _ n m applied hl => ?_
    exact hfault n m applied (by simp [hls, hl])
  have hinitial : (initial clock remote : State σ I α).Ends A P Q J :=
    ⟨fun n a ha => by simp [initial] at ha, fun r hr => by simp [initial] at hr⟩
  exact Transition.run_invariant_along
    (fun _ _ _ hs hl hst => hs.step hprog hintegrity hl hst) hinitial halong hrun

end Transaction
