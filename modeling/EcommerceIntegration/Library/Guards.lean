import EcommerceIntegration.Library.Execution
import EcommerceIntegration.Library.LockOrder

/-!
# Guards that a program never trips

A guard may throw at a write, which then fails. `Issues P q ws Q` says of a program `q` with
the pending writes `ws`: whatever the answers are, every write it makes satisfies `P` after
those that are pending then, and `Q` holds at its end. Where `P` keeps the guard silent, the
system with the guard has the same runs as the one without.
-/

namespace Transaction

set_option autoImplicit false

variable {σ : Signature} {I α β : Type}

abbrev IssuePost (σ : Signature) (α : Type) := List (Change σ) → Except (Exn σ) α → Prop

section Issues
variable (P : List (Change σ) → Change σ → Prop)

/-- The operation may be performed, and `Q` holds after it whatever the answer is. -/
def Issue (ws : List (Change σ)) : (o : Op σ) → IssuePost σ o.Res → Prop
  | .select, Q => ∀ r, Q ws r
  | .insert row, Q =>
    (∀ id, P ws (.inserted row id) ∧ Q (ws ++ [.inserted row id]) (.ok id)) ∧
      ∀ e, Q ws (.error e)
  | .execute stmt, Q =>
    (P ws (.executed stmt) ∧ Q (ws ++ [.executed stmt]) (.ok ())) ∧ ∀ e, Q ws (.error e)
  | .now, Q => ∀ r, Q ws r
  | .commit, Q => ∀ r, Q [] r
  | .rollback, Q => ∀ r, Q [] r
  | .request _, Q => ∀ r, Q ws r

def Issues : Session σ α → List (Change σ) → IssuePost σ α → Prop
  | .done a, ws, Q => Q ws (.ok a)
  | .raise e, ws, Q => Q ws (.error e)
  | .call o k, ws, Q => Issue P ws o fun ws' r => Issues (k r) ws' Q

/-- From any pending writes on, and whatever the end is. -/
def Keeps (q : Session σ α) : Prop := ∀ ws, Issues P q ws fun _ _ => True

variable {P} {ws : List (Change σ)}

theorem issue_mono {o : Op σ} {Q Q' : IssuePost σ o.Res} (hQ : ∀ ws r, Q ws r → Q' ws r)
    (h : Issue P ws o Q) : Issue P ws o Q' := by
  cases o with
  | select | now | commit | rollback | request => exact fun r => hQ _ _ (h r)
  | insert row => exact ⟨fun id => ⟨(h.1 id).1, hQ _ _ (h.1 id).2⟩, fun e => hQ _ _ (h.2 e)⟩
  | execute stmt => exact ⟨⟨h.1.1, hQ _ _ h.1.2⟩, fun e => hQ _ _ (h.2 e)⟩

theorem Issues.mono {q : Session σ α} {Q Q' : IssuePost σ α} (hQ : ∀ ws r, Q ws r → Q' ws r)
    (hq : Issues P q ws Q) : Issues P q ws Q' := by
  induction q generalizing ws with
  | done a => exact hQ _ _ hq
  | raise e => exact hQ _ _ hq
  | call o k ih => exact issue_mono (fun _ r => ih r) hq

theorem Issues.andThen {q : Session σ α} {f : α → Session σ β} {Q : IssuePost σ β}
    (hq : Issues P q ws fun ws' r =>
      match r with
      | .ok a => Issues P (f a) ws' Q
      | .error e => Q ws' (.error e)) :
    Issues P (q.andThen f) ws Q := by
  induction q generalizing ws with
  | done a => exact hq
  | raise e => exact hq
  | call o k ih => exact issue_mono (fun _ r => ih r) hq

theorem Issues.handle {q : Session σ α} {g : Exn σ → Session σ α} {Q : IssuePost σ α}
    (hq : Issues P q ws fun ws' r =>
      match r with
      | .ok a => Q ws' (.ok a)
      | .error e => Issues P (g e) ws' Q) :
    Issues P (q.handle g) ws Q := by
  induction q generalizing ws with
  | done a => exact hq
  | raise e => exact hq
  | call o k ih => exact issue_mono (fun _ r => ih r) hq

theorem Issues.perform {o : Op σ} {Q : IssuePost σ o.Res} (h : Issue P ws o Q) :
    Issues P (Program.perform o) ws Q := by
  refine issue_mono (fun _ r hr => ?_) h
  cases r <;> exact hr

/-- Sequencing, where only the values of the first part matter to the rest. -/
theorem Issues.seq {q : Session σ α} {f : α → Session σ β} {R : List (Change σ) → α → Prop}
    (hq : Issues P q ws fun ws' r => ∀ a, r = .ok a → R ws' a)
    (hf : ∀ ws' a, R ws' a → Issues P (f a) ws' fun _ _ => True) :
    Issues P (q.andThen f) ws fun _ _ => True := by
  refine Issues.andThen (hq.mono fun ws' r hr => ?_)
  cases r with
  | ok a => exact hf ws' a (hr a rfl)
  | error e => trivial

theorem Issues.andThen_keeps {q : Session σ α} {f : α → Session σ β}
    (hq : Issues P q ws fun _ _ => True) (hf : ∀ a, Keeps P (f a)) :
    Issues P (q.andThen f) ws fun _ _ => True :=
  Issues.seq (hq.mono fun _ _ _ _ _ => trivial) fun ws' a (_ : True) => hf a ws'

/-- A straight session issues its writes one after the other. -/
theorem Straight.issues {W : Change σ → Prop} {q : Session σ α} {Q : IssuePost σ α}
    (hq : Straight W q) (hW : ∀ ws c, W c → P ws c)
    (hQ : ∀ new r, (∀ c ∈ new, W c) → Q (ws ++ new) r) : Issues P q ws Q := by
  induction q generalizing ws with
  | done a => simpa [Issues] using hQ [] (.ok a) (fun c hc => by cases hc)
  | raise e => simpa [Issues] using hQ [] (.error e) (fun c hc => by cases hc)
  | call o k ih =>
    obtain ⟨ho, hk, herr⟩ := hq
    have herror : ∀ e, Issues P (k (.error e)) ws Q := by
      intro e
      rw [herr e]
      simpa [Issues] using hQ [] (.error e) (fun c hc => by cases hc)
    have hrest : ∀ new a, (∀ c ∈ new, W c) → Issues P (k (.ok a)) (ws ++ new) Q := by
      intro new a hnew
      refine ih _ (hk a) fun new' r hnew' => ?_
      rw [List.append_assoc]
      refine hQ _ r fun c hc => ?_
      rcases List.mem_append.mp hc with hc | hc
      · exact hnew c hc
      · exact hnew' c hc
    have hsame : ∀ r, Issues P (k r) ws Q := by
      intro r
      cases r with
      | ok a => simpa using hrest [] a (fun c hc => by cases hc)
      | error e => exact herror e
    cases o with
    | select | now => exact hsame
    | insert row =>
      refine ⟨fun id => ⟨hW ws _ (ho id), hrest _ id fun c hc => ?_⟩, herror⟩
      exact List.mem_singleton.mp hc ▸ ho id
    | execute stmt =>
      refine ⟨⟨hW ws _ ho, hrest _ () fun c hc => ?_⟩, herror⟩
      exact List.mem_singleton.mp hc ▸ ho
    | commit | rollback | request => exact ho.elim

theorem Straight.keeps {W : Change σ → Prop} {q : Session σ α} (hq : Straight W q)
    (hW : ∀ ws c, W c → P ws c) : Keeps P q :=
  fun _ => hq.issues hW fun _ _ _ => trivial

/-- What only reads leaves the pending writes as they are. -/
theorem Issues.after_reads {q : Session σ α} {f : α → Session σ β}
    (hq : Straight (fun _ => False) q) (hf : ∀ a, Issues P (f a) ws fun _ _ => True) :
    Issues P (q.andThen f) ws fun _ _ => True := by
  have hreads : Issues P q ws fun ws' r => ∀ a, r = .ok a → ws' = ws := by
    refine hq.issues (fun _ _ h => h.elim) fun new r hnew a _ => ?_
    rw [List.eq_nil_iff_forall_not_mem.mpr hnew, List.append_nil]
  refine hreads.seq fun ws' a heq => ?_
  rw [heq]
  exact hf a

theorem Keeps.andThen {q : Session σ α} {f : α → Session σ β} (hq : Keeps P q)
    (hf : ∀ a, Keeps P (f a)) : Keeps P (q.andThen f) :=
  fun ws => (hq ws).andThen_keeps hf

theorem Keeps.handle {q : Session σ α} {g : Exn σ → Session σ α} (hq : Keeps P q)
    (hg : ∀ e, Keeps P (g e)) : Keeps P (q.handle g) := by
  intro ws
  refine Issues.handle ((hq ws).mono fun ws' r _ => ?_)
  cases r with
  | ok a => trivial
  | error e => exact hg e ws'

/-- A program without writes. -/
theorem Keeps.of_lockless {q : Session σ α} (hq : q.Uses Lockless) : Keeps P q := by
  induction q with
  | done a => exact fun _ => trivial
  | raise e => exact fun _ => trivial
  | call o k ih =>
    intro ws
    have hnext := fun r => ih r (hq.2 r)
    cases o with
    | insert row => exact hq.1.elim
    | execute stmt => exact hq.1.elim
    | select | now | commit | rollback | request => exact fun r => hnext r _

end Issues

/-! ## Whole runs -/

section Machine
variable {E : Engine σ} {P : List (Change σ) → Change σ → Prop} {prog : I → Session σ α}
  {s t : State σ I α} {l : Label σ I}

theorem put_answer {n : Nat} {p p' : Progress σ} {sh sh' : Shared σ I} {c : Change σ}
    {r : Except (Exn σ) Unit} (h : E.put n c p sh = some (r, p', sh')) :
    (r = .ok () ∧ p'.writes = p.writes ++ [c]) ∨ ∃ e, r = .error e ∧ p'.writes = p.writes := by
  unfold Engine.put at h
  split at h
  · split at h
    · cases h
      exact .inr ⟨_, rfl, rfl⟩
    · cases h
      exact .inl ⟨rfl, rfl⟩
  · cases h

/-- The machine answers within what `Issue` allows for. -/
theorem respond_issue {n : Nat} {i : I} {p p' : Progress σ} {sh sh' : Shared σ I} {o : Op σ}
    {choice : Choice} {r : Except (Exn σ) o.Res} {Q : IssuePost σ o.Res}
    (hr : E.respond n i p sh o choice = some (r, p', sh')) (h : Issue P p.writes o Q) :
    Q p'.writes r := by
  cases o with
  | select | now | commit | rollback =>
    cases choice <;> cases hr
    all_goals exact h _
  | insert row =>
    cases choice with
    | ok =>
      obtain ⟨⟨r', p'', sh''⟩, hput, heq⟩ := Option.map_eq_some_iff.mp hr
      cases heq
      rcases put_answer hput with ⟨rfl, hwrites⟩ | ⟨e, rfl, hwrites⟩
      · exact hwrites ▸ (h.1 _).2
      · exact hwrites ▸ h.2 e
    | fault m applied =>
      cases hr
      exact h.2 _
  | execute stmt =>
    cases choice with
    | ok =>
      rcases put_answer hr with ⟨rfl, hwrites⟩ | ⟨e, rfl, hwrites⟩
      · exact hwrites ▸ h.1.2
      · exact hwrites ▸ h.2 e
    | fault m applied =>
      cases hr
      exact h.2 _
  | request x =>
    cases choice <;> cases hr
    all_goals exact h _

/-- Every attempt under way has only writes before it that satisfy `P`. -/
def State.Issuing (P : List (Change σ) → Change σ → Prop) (s : State σ I α) : Prop :=
  ∀ n a, s.active n = some a → Issues P a.program a.progress.writes fun _ _ => True

theorem State.Issuing.leave (hs : s.Issuing P) (n : Nat) : (s.leave n).Issuing P := by
  intro m a ha
  rcases update_eq_some ha with ⟨_, hv⟩ | ⟨_, ha⟩
  · cases hv
  · exact hs m a ha

theorem State.Issuing.step (hs : s.Issuing P) (hprog : ∀ i, Keeps P (prog i))
    (hst : Transaction.step E prog s l = some t) : t.Issuing P := by
  cases l with
  | start i =>
    obtain rfl := step_start hst
    intro n a ha
    rcases update_eq_some ha with ⟨_, hv⟩ | ⟨_, ha⟩
    · cases hv
      exact hprog i []
    · exact hs n a ha
  | exec n choice =>
    obtain ⟨i, o, k, p, r, p', sh, hn, hr, rfl⟩ := step_exec hst
    intro m a ha
    rcases update_eq_some ha with ⟨_, hv⟩ | ⟨_, ha⟩
    · cases hv
      exact respond_issue (Q := fun ws r => Issues P (k r) ws fun _ _ => True) hr (hs n _ hn)
    · exact hs m a ha
  | finish n =>
    obtain ⟨i, q, p, r, _, _, rfl⟩ := step_finish hst
    exact hs.leave n
  | crash n =>
    obtain ⟨_, _, rfl⟩ := step_crash hst
    exact hs.leave n
  | tick d =>
    cases hst
    exact hs
  | remote r =>
    cases hst
    exact hs

/-- The write that the program makes next. -/
def nextWrite (E : Engine σ) (sh : Shared σ I) : Session σ α → Option (Change σ)
  | .call (.insert row) _ => some (.inserted row (sh.identity (E.table row)))
  | .call (.execute stmt) _ => some (.executed stmt)
  | _ => none

/-- What the guard throws at the next write of the attempt, unless a constraint refuses it. -/
def State.thrown (E : Engine σ) (guard : σ.Db → Change σ → Option String) (s : State σ I α)
    (n : Nat) : Option String :=
  (s.active n).bind fun a => (nextWrite E s.shared a.program).bind fun c =>
    match E.violated (E.view s.shared.history a.progress.writes) c with
    | some _ => none
    | none => guard (E.view s.shared.history a.progress.writes) c

/-- A write at which the guard throws fails with what it throws. -/
def guardedStep (E : Engine σ) (guard : σ.Db → Change σ → Option String)
    (prog : I → Session σ α) (s : State σ I α) : Label σ I → Option (State σ I α)
  | .exec n .ok =>
    (step E prog s (.exec n .ok)).bind fun t =>
      match s.thrown E guard n with
      | some message => step E prog s (.exec n (.fault message false))
      | none => some t
  | l => step E prog s l

variable {K : KeyLaws E} {guard : σ.Db → Change σ → Option String}

theorem State.Issuing.silent (hs : s.Issuing P) (hwf : WellFormed K s)
    (hguard : ∀ (h : List (Commit σ I)) ws c, Known K h ws → P ws c → guard (E.view h ws) c = none)
    (n : Nat) : s.thrown E guard n = none := by
  unfold State.thrown
  refine Option.bind_eq_none_iff.mpr fun a ha => Option.bind_eq_none_iff.mpr fun c hc => ?_
  have hallowed : P a.progress.writes c := by
    have hissues := hs n a ha
    unfold nextWrite at hc
    split at hc
    · rename_i heq
      cases hc
      rw [heq] at hissues
      exact (hissues.1 _).1
    · rename_i heq
      cases hc
      rw [heq] at hissues
      exact hissues.1.1
    · cases hc
  split
  · rfl
  · exact hguard _ _ _ (hwf.view_keys ha) hallowed

theorem guardedStep_eq (hsilent : ∀ n, s.thrown E guard n = none) (l : Label σ I) :
    guardedStep E guard prog s l = step E prog s l := by
  cases l with
  | exec n choice =>
    cases choice with
    | ok => simp [guardedStep, hsilent n]
    | fault m applied => rfl
  | start | finish | crash | tick | remote => rfl

/-- The system with the guard does on every run what the one without it does. -/
theorem guarded_run (K : KeyLaws E) (hprog : ∀ i, Keeps P (prog i))
    (hguard : ∀ (h : List (Commit σ I)) ws c, Known K h ws → P ws c → guard (E.view h ws) c = none)
    (hwf : WellFormed K s) (hs : s.Issuing P) (ls : List (Label σ I)) :
    Transition.run (guardedStep E guard prog) s ls = Transition.run (step E prog) s ls := by
  induction ls generalizing s with
  | nil => rfl
  | cons l ls ih =>
    simp only [Transition.run, guardedStep_eq (hs.silent hwf hguard)]
    refine Option.bind_congr fun t hst => ?_
    exact ih (hwf.step hst) (hs.step hprog hst)

end Machine

end Transaction
