import EcommerceIntegration.Library.Execution

/-!
# Times that a program has read

All attempts read one clock that never goes back. A program that writes no time but those
it has read commits nothing from the future.
-/

namespace Transaction

set_option autoImplicit false

variable {σ : Signature} {I α β : Type}

section Program
variable (stamps : Change σ → List Int)

/-- When the clock shows `T`, the operation writes no later time, and `Q` holds of every
answer to it. -/
def ReadsClock (T : Int) : (o : Op σ) → (Except (Exn σ) o.Res → Prop) → Prop
  | .now, Q => Q (.ok T)
  | .insert row, Q => (∀ id, ∀ t ∈ stamps (.inserted row id), t ≤ T) ∧ ∀ r, Q r
  | .execute stmt, Q => (∀ t ∈ stamps (.executed stmt), t ≤ T) ∧ ∀ r, Q r
  | .select, Q => ∀ r, Q r
  | .commit, Q => ∀ r, Q r
  | .rollback, Q => ∀ r, Q r
  | .request _, Q => ∀ r, Q r

/-- From the time `T` on the program writes no time that is still to come. -/
def Timely : Session σ α → Int → Prop
  | .done _, _ => True
  | .raise _, _ => True
  | .call o k, T => ∀ T', T ≤ T' → ReadsClock stamps T' o fun r => Timely (k r) T'

variable {stamps}

theorem ReadsClock.mono {T : Int} {o : Op σ} {Q Q' : Except (Exn σ) o.Res → Prop}
    (hQ : ∀ r, Q r → Q' r) (h : ReadsClock stamps T o Q) : ReadsClock stamps T o Q' := by
  cases o with
  | now => exact hQ _ h
  | insert row => exact ⟨h.1, fun r => hQ r (h.2 r)⟩
  | execute stmt => exact ⟨h.1, fun r => hQ r (h.2 r)⟩
  | select | commit | rollback | request => exact fun r => hQ r (h r)

theorem Timely.later {q : Session σ α} {T T' : Int} (h : Timely stamps q T) (hle : T ≤ T') :
    Timely stamps q T' := by
  cases q with
  | done a => trivial
  | raise e => trivial
  | call o k => exact fun T'' hle' => h T'' (Int.le_trans hle hle')

theorem Timely.andThen {q : Session σ α} {f : α → Session σ β} {T : Int}
    (hq : Timely stamps q T) (hf : ∀ a T', T ≤ T' → Timely stamps (f a) T') :
    Timely stamps (q.andThen f) T := by
  induction q generalizing T with
  | done a => exact hf a T (Int.le_refl T)
  | raise e => trivial
  | call o k ih =>
    intro T' hle
    exact (hq T' hle).mono fun r hr => ih r hr fun a T'' hle' => hf a T'' (Int.le_trans hle hle')

theorem Timely.handle {q : Session σ α} {g : Exn σ → Session σ α} {T : Int}
    (hq : Timely stamps q T) (hg : ∀ e T', T ≤ T' → Timely stamps (g e) T') :
    Timely stamps (q.handle g) T := by
  induction q generalizing T with
  | done a => trivial
  | raise e => exact hg e T (Int.le_refl T)
  | call o k ih =>
    intro T' hle
    exact (hq T' hle).mono fun r hr => ih r hr fun e T'' hle' => hg e T'' (Int.le_trans hle hle')

theorem Timely.ofExcept (r : Except (Exn σ) α) (T : Int) :
    Timely stamps (Program.ofExcept r) T := by
  cases r <;> trivial

/-- What follows the reading of the clock knows the time. -/
theorem Timely.now {f : Int → Session σ α} {T : Int}
    (hf : ∀ T', T ≤ T' → Timely stamps (f T') T') :
    Timely stamps ((Program.perform Op.now : Session σ Int).andThen f) T :=
  fun T' hle => hf T' hle

theorem Timely.perform {o : Op σ} {T : Int}
    (ho : ∀ T', T ≤ T' → ReadsClock stamps T' o fun _ => True) :
    Timely stamps (Program.perform o) T :=
  fun T' hle => (ho T' hle).mono fun r _ => Timely.ofExcept r T'

/-- A straight session whose writes have no time. -/
theorem Straight.timely {q : Session σ α} (hq : Straight (fun c => stamps c = []) q) (T : Int) :
    Timely stamps q T := by
  induction q generalizing T with
  | done a => trivial
  | raise e => trivial
  | call o k ih =>
    obtain ⟨ho, hk, herr⟩ := hq
    have hrest : ∀ T' r, Timely stamps (k r) T' := by
      intro T' r
      cases r with
      | ok a => exact ih _ (hk a) T'
      | error e =>
        rw [herr e]
        trivial
    intro T' _
    cases o with
    | now => exact hrest T' _
    | insert row => exact ⟨fun id t ht => by simp [ho id] at ht, hrest T'⟩
    | execute stmt =>
      have hnone : stamps (.executed stmt) = [] := ho
      exact ⟨fun t ht => by simp [hnone] at ht, hrest T'⟩
    | select | commit | rollback | request => exact hrest T'

end Program

/-- No pending write and no write of a commit has a time from its future. -/
structure Punctual (stamps : Change σ → List Int) (s : State σ I α) : Prop where
  program : ∀ n a, s.active n = some a → Timely stamps a.program s.shared.clock
  pending : ∀ n a, s.active n = some a →
    ∀ c ∈ a.progress.writes, ∀ t ∈ stamps c, t ≤ s.shared.clock
  committed : ∀ k ∈ s.shared.history, ∀ c ∈ k.writes, ∀ t ∈ stamps c, t ≤ k.time

section Machine
variable {E : Engine σ} {stamps : Change σ → List Int} {prog : I → Session σ α}
  {s t : State σ I α}

theorem respond_clock {n : Nat} {i : I} {p p' : Progress σ} {sh sh' : Shared σ I} {o : Op σ}
    {choice : Choice} {r : Except (Exn σ) o.Res} {Q : Except (Exn σ) o.Res → Prop}
    (hr : E.respond n i p sh o choice = some (r, p', sh'))
    (hQ : ReadsClock stamps sh.clock o Q) : Q r := by
  cases o with
  | now =>
    cases choice <;> cases hr
    exact hQ
  | insert row => exact hQ.2 r
  | execute stmt => exact hQ.2 r
  | select | commit | rollback | request => exact hQ r

theorem put_writes {n : Nat} {p p' : Progress σ} {sh sh' : Shared σ I} {c : Change σ}
    {r : Except (Exn σ) Unit} (h : E.put n c p sh = some (r, p', sh')) :
    p'.writes = p.writes ∨ p'.writes = p.writes ++ [c] := by
  unfold Engine.put at h
  split at h
  · split at h
    · cases h
      exact .inl rfl
    · cases h
      exact .inr rfl
  · cases h

/-- A new write is one of the operation, and has no time from its future. -/
theorem respond_pending {n : Nat} {i : I} {p p' : Progress σ} {sh sh' : Shared σ I} {o : Op σ}
    {choice : Choice} {r : Except (Exn σ) o.Res} {Q : Except (Exn σ) o.Res → Prop}
    (hr : E.respond n i p sh o choice = some (r, p', sh'))
    (hQ : ReadsClock stamps sh.clock o Q)
    (hp : ∀ c ∈ p.writes, ∀ t ∈ stamps c, t ≤ sh.clock) :
    ∀ c ∈ p'.writes, ∀ t ∈ stamps c, t ≤ sh.clock := by
  have wrote : ∀ c, p'.writes = p.writes ∨ p'.writes = p.writes ++ [c] →
      (∀ t ∈ stamps c, t ≤ sh.clock) → ∀ c ∈ p'.writes, ∀ t ∈ stamps c, t ≤ sh.clock := by
    rintro c (heq | heq) hc c' hc'
    · exact hp c' (heq ▸ hc')
    · rcases List.mem_append.mp (heq ▸ hc') with hold | hnew
      · exact hp c' hold
      · exact List.mem_singleton.mp hnew ▸ hc
  cases o with
  | insert row =>
    cases choice with
    | ok =>
      obtain ⟨⟨r', p'', sh''⟩, hput, heq⟩ := Option.map_eq_some_iff.mp hr
      cases heq
      exact wrote _ (put_writes hput) (hQ.1 _)
    | fault m applied =>
      cases hr
      exact hp
  | execute stmt =>
    cases choice with
    | ok => exact wrote _ (put_writes hr) hQ.1
    | fault m applied =>
      cases hr
      exact hp
  | commit | rollback =>
    cases choice <;> cases hr
    all_goals exact fun c hc => by simp [Progress.commit, Progress.rollback] at hc
  | select | now => cases choice <;> cases hr <;> exact hp
  | request x => cases choice <;> cases hr <;> exact hp

end Machine

namespace Punctual
variable {E : Engine σ} {stamps : Change σ → List Int} {prog : I → Session σ α}
  {s t : State σ I α}

theorem initial (clock : Int) (remote : σ.Remote) :
    Punctual stamps (Transaction.initial clock remote : State σ I α) := by
  constructor <;> simp [Transaction.initial]

theorem leave (hs : Punctual stamps s) (n : Nat) : Punctual stamps (s.leave n) := by
  refine ⟨fun m a hm => ?_, fun m a hm => ?_, hs.committed⟩
  all_goals rcases update_eq_some hm with ⟨_, hv⟩ | ⟨_, hm⟩
  · cases hv
  · exact hs.program m a hm
  · cases hv
  · exact hs.pending m a hm

theorem exec (hs : Punctual stamps s) {n : Nat} {choice : Choice}
    (hst : Transaction.step E prog s (.exec n choice) = some t) : Punctual stamps t := by
  obtain ⟨i, o, k, p, r, p', sh, ha, hr, rfl⟩ := step_exec hst
  have hreads := hs.program n _ ha _ (Int.le_refl _)
  have hclock : sh.clock = s.shared.clock := by
    cases respond_effect hr <;> assumption
  refine ⟨fun m a hm => ?_, fun m a hm => ?_, fun c hc => ?_⟩
  · change Timely stamps a.program sh.clock
    rw [hclock]
    rcases update_eq_some hm with ⟨rfl, hv⟩ | ⟨_, hm⟩
    · cases hv
      exact respond_clock (Q := fun r => Timely stamps (k r) s.shared.clock) hr hreads
    · exact hs.program m a hm
  · change ∀ c ∈ a.progress.writes, ∀ t ∈ stamps c, t ≤ sh.clock
    rw [hclock]
    rcases update_eq_some hm with ⟨rfl, hv⟩ | ⟨_, hm⟩
    · cases hv
      exact respond_pending hr hreads (hs.pending m _ ha)
    · exact hs.pending m a hm
  · rcases respond_history hr with heq | ⟨_, heq⟩
    · exact hs.committed c (heq ▸ hc)
    · rcases List.mem_append.mp (heq ▸ hc) with hc | hc
      · exact hs.committed c hc
      · obtain rfl := List.mem_singleton.mp hc
        exact hs.pending n _ ha

theorem step (hprog : ∀ i T, Timely stamps (prog i) T) {l : Label σ I} (hs : Punctual stamps s)
    (hst : Transaction.step E prog s l = some t) : Punctual stamps t := by
  cases l with
  | start i =>
    obtain rfl := step_start hst
    refine ⟨fun n a ha => ?_, fun n a ha => ?_, hs.committed⟩
    all_goals rcases update_eq_some ha with ⟨rfl, hv⟩ | ⟨_, ha⟩
    · cases hv
      exact hprog i _
    · exact hs.program n a ha
    · cases hv
      simp
    · exact hs.pending n a ha
  | exec n choice => exact hs.exec hst
  | finish n =>
    obtain ⟨i, q, p, r, _, _, rfl⟩ := step_finish hst
    exact ⟨(hs.leave n).program, (hs.leave n).pending, hs.committed⟩
  | crash n =>
    obtain ⟨_, _, rfl⟩ := step_crash hst
    exact hs.leave n
  | tick d =>
    cases hst
    have hle : s.shared.clock ≤ s.shared.clock + d := by omega
    exact ⟨fun n a ha => (hs.program n a ha).later hle,
      fun n a ha c hc t ht => Int.le_trans (hs.pending n a ha c hc t ht) hle, hs.committed⟩
  | remote r =>
    cases hst
    exact ⟨hs.program, hs.pending, hs.committed⟩

end Punctual

/-- No commit has a time from its future. -/
theorem Reachable.punctual {E : Engine σ} {stamps : Change σ → List Int}
    {prog : I → Session σ α} (hprog : ∀ i T, Timely stamps (prog i) T) {s : State σ I α}
    (hs : Reachable E prog s) : Punctual stamps s := by
  obtain ⟨clock, remote, hs⟩ := hs
  exact hs.invariant (Punctual.initial clock remote) fun _ _ _ hs hst => hs.step hprog hst

end Transaction
