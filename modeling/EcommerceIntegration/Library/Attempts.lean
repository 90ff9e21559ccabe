import EcommerceIntegration.Library.Commits

/-!
# What is true of every attempt

Attempts under way and attempts that returned have the same record: the writes that a
constraint refused and the requests with their replies. A step adds to the record of one
attempt at most.
-/

namespace Transaction

set_option autoImplicit false

variable {σ : Signature} {I α : Type}

/-- `P` holds of the input and the record of every attempt that has not crashed. -/
structure State.Each (P : I → Progress σ → Prop) (s : State σ I α) : Prop where
  active : ∀ n a, s.active n = some a → P a.input a.progress
  returned : ∀ r ∈ s.returned, P r.input r.progress

namespace State.Each
variable {E : Engine σ} {prog : I → Session σ α} {s t : State σ I α} {P Q : I → Progress σ → Prop}

theorem initial (clock : Int) (remote : σ.Remote) :
    (Transaction.initial clock remote : State σ I α).Each P := by
  constructor
  · intro n a ha
    cases ha
  · intro r hr
    cases hr

theorem mono (h : s.Each P) (hPQ : ∀ i p, P i p → Q i p) : s.Each Q where
  active n a ha := hPQ _ _ (h.active n a ha)
  returned r hr := hPQ _ _ (h.returned r hr)

theorem leave (h : s.Each P) (n : Nat) : (s.leave n).Each P := by
  refine ⟨fun m a ha => ?_, h.returned⟩
  rcases update_eq_some ha with ⟨_, hv⟩ | ⟨_, ha⟩
  · cases hv
  · exact h.active m a ha

/-- A step keeps what holds of every attempt, if the operation that it performs does. -/
theorem step {l : Label σ I} (h : s.Each P) (hst : Transaction.step E prog s l = some t)
    (hPQ : ∀ i p, P i p → Q i p) (hstart : ∀ i, l = .start i → Q i {})
    (hexec : ∀ n choice i o k p r p' sh, l = .exec n choice →
      s.active n = some ⟨i, .call o k, p⟩ → E.respond n i p s.shared o choice = some (r, p', sh) →
      t.shared = sh → Q i p') : t.Each Q := by
  have hold := h.mono hPQ
  cases l with
  | start i =>
    obtain rfl := step_start hst
    refine ⟨fun n a ha => ?_, hold.returned⟩
    rcases update_eq_some ha with ⟨_, hv⟩ | ⟨_, ha⟩
    · cases hv
      exact hstart i rfl
    · exact hold.active n a ha
  | exec n choice =>
    obtain ⟨i, o, k, p, r, p', sh, hn, hr, rfl⟩ := step_exec hst
    refine ⟨fun m a ha => ?_, hold.returned⟩
    rcases update_eq_some ha with ⟨_, hv⟩ | ⟨_, ha⟩
    · cases hv
      exact hexec n choice i o k p r p' sh rfl hn hr rfl
    · exact hold.active m a ha
  | finish n =>
    obtain ⟨i, q, p, r, hn, _, rfl⟩ := step_finish hst
    refine ⟨(hold.leave n).active, fun ρ hρ => ?_⟩
    rcases List.mem_append.mp hρ with hρ | hρ
    · exact hold.returned ρ hρ
    · obtain rfl := List.mem_singleton.mp hρ
      exact hold.active n _ hn
  | crash n =>
    obtain ⟨_, _, rfl⟩ := step_crash hst
    exact hold.leave n
  | tick d =>
    cases hst
    exact ⟨hold.active, hold.returned⟩
  | remote r =>
    cases hst
    exact ⟨hold.active, hold.returned⟩

end State.Each

/-! ## Attempts that a step leaves alone -/

/-- The attempt that the step goes on with. -/
def Label.attempt : Label σ I → Option Nat
  | .exec n _ | .finish n | .crash n => some n
  | .start _ | .tick _ | .remote _ => none

section Alone
variable {E : Engine σ} {prog : I → Session σ α} {s t : State σ I α} {n : Nat}

theorem step_active_of_ne {l : Label σ I} (hst : Transaction.step E prog s l = some t)
    (hne : l.attempt ≠ some n) (hlt : n < s.started) : t.active n = s.active n := by
  cases l with
  | start i =>
    obtain rfl := step_start hst
    exact Function.update_of_ne (Nat.ne_of_lt hlt) _ _
  | exec m choice =>
    obtain ⟨i, o, k, p, r, p', sh, _, _, rfl⟩ := step_exec hst
    exact Function.update_of_ne (fun heq => hne (congrArg some heq.symm)) _ _
  | finish m =>
    obtain ⟨i, q, p, r, _, _, rfl⟩ := step_finish hst
    exact Function.update_of_ne (fun heq => hne (congrArg some heq.symm)) _ _
  | crash m =>
    obtain ⟨_, _, rfl⟩ := step_crash hst
    exact Function.update_of_ne (fun heq => hne (congrArg some heq.symm)) _ _
  | tick d | remote r =>
    cases hst
    rfl

theorem step_active_exec {choice : Choice}
    (hst : Transaction.step E prog s (.exec n choice) = some t) :
    ∃ a b, s.active n = some a ∧ t.active n = some b ∧ b.input = a.input := by
  obtain ⟨i, o, k, p, r, p', sh, ha, _, rfl⟩ := step_exec hst
  exact ⟨_, ⟨i, k r, p'⟩, ha, by simp, rfl⟩

end Alone

/-! ## Refused writes -/

/-- A constraint has refused the write where the contract says it may. -/
def Contract.Refused (C : Contract σ I) (h : List (Commit σ I)) (i : I)
    (x : Change σ × σ.Constraint) : Prop :=
  ∃ h₀ p, h₀ <+: h ∧ C.refuses i h₀ p x.1 x.2

theorem Contract.Refused.later {C : Contract σ I} {h h' : List (Commit σ I)} {i : I}
    {x : Change σ × σ.Constraint} (hx : C.Refused h i x) (hle : h <+: h') : C.Refused h' i x := by
  obtain ⟨h₀, p, hpre, href⟩ := hx
  exact ⟨h₀, p, hpre.trans hle, href⟩

/-- Every refusal that an attempt has met is one of the contract. -/
structure Explained {E : Engine σ} (K : KeyLaws E) (C : Contract σ I) (post : I → Post σ I α)
    (s : State σ I α) : Prop where
  sound : Sound K C post s
  refusals : s.Each fun i p => ∀ x ∈ p.refusals, C.Refused s.shared.history i x

section Explained
variable {E : Engine σ} {K : KeyLaws E} {C : Contract σ I} {post : I → Post σ I α}
  {prog : I → Session σ α} {s t : State σ I α} {l : Label σ I}

theorem Sound.refusals_step (hs : Sound K C post s) (hst : Transaction.step E prog s l = some t)
    (h : s.Each fun i p => ∀ x ∈ p.refusals, C.Refused s.shared.history i x) :
    t.Each fun i p => ∀ x ∈ p.refusals, C.Refused t.shared.history i x := by
  have hle := step_history hst
  refine h.step hst ?_ ?_ ?_
  · intro i p hp x hx
    exact (hp x hx).later hle
  · intro i _ x hx
    cases hx
  · rintro n choice i o k p r p' sh rfl hn hr hsh x hx
    rcases respond_refusals_cases hr with heq | ⟨y, heq⟩
    · exact (h.active n _ hn x (heq ▸ hx)).later hle
    · rcases List.mem_append.mp (heq ▸ hx) with hold | hnew
      · exact (h.active n _ hn x hold).later hle
      · obtain rfl := List.mem_singleton.mp hnew
        refine ⟨s.shared.history, p, hle, respond_refused hr heq ?_ (hs.wp hn)⟩
        exact fun row j hj => hs.wellFormed.view_ids hn hj

/-- In every reachable state, if the contract relies on nothing. -/
theorem Reachable.explained (K : KeyLaws E) (C : Contract σ I)
    (hothers : ∀ h h', h <+: h' → C.rely.allows h h') (post : I → Post σ I α)
    (hprog : ∀ n i h, Safe K C n i (prog i) h {} (post i)) (h : Reachable E prog s) :
    Explained K C post s := by
  obtain ⟨clock, remote, h⟩ := h
  refine h.invariant ⟨Sound.initial clock remote, State.Each.initial clock remote⟩ ?_
  intro s l t hs hst
  refine ⟨hs.sound.step hprog hst fun _ _ _ _ _ _ _ => hothers _ _ (step_history hst), ?_⟩
  exact hs.sound.refusals_step hst hs.refusals

end Explained

/-! ## Requests -/

/-- What a step adds to the requests of the attempt that performs it. -/
theorem respond_requests {E : Engine σ} {n : Nat} {i : I} {p p' : Progress σ}
    {sh sh' : Shared σ I} {o : Op σ} {choice : Choice} {r : Except (Exn σ) o.Res}
    (h : E.respond n i p sh o choice = some (r, p', sh')) :
    p'.requests = p.requests ∨
      ∃ x, o = .request x ∧
        ((choice = .ok ∧ p'.requests = p.requests ++ [(x, some (E.perform sh.remote x).2)]) ∨
          p'.requests = p.requests ++ [(x, none)]) := by
  cases o with
  | insert row =>
    cases choice with
    | ok =>
      obtain ⟨⟨r', p'', sh''⟩, hput, heq⟩ := Option.map_eq_some_iff.mp h
      cases heq
      unfold Engine.put at hput
      split at hput
      · split at hput <;> cases hput <;> exact .inl rfl
      · cases hput
    | fault m applied =>
      cases h
      exact .inl rfl
  | execute stmt =>
    cases choice with
    | ok =>
      simp only [Engine.respond, Engine.put] at h
      split at h
      · split at h <;> cases h <;> exact .inl rfl
      · cases h
    | fault m applied =>
      cases h
      exact .inl rfl
  | request x =>
    cases choice with
    | ok =>
      cases h
      exact .inr ⟨x, rfl, .inl ⟨rfl, rfl⟩⟩
    | fault m applied =>
      cases h
      exact .inr ⟨x, rfl, .inr rfl⟩
  | select | now | commit | rollback => cases choice <;> cases h <;> exact .inl rfl

end Transaction
