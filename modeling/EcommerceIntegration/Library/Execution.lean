import EcommerceIntegration.Library.Contract

/-!
# Sequential executions of a straight session

A straight session reads and writes and lets every exception through; it neither
commits nor talks to the remote store. An execution of it, seen from inside, is a
sequence of operations answered at later and later histories. Its ends are a value
or a write that a constraint refused. An interleaved run of a straight session is
safe as soon as its sequential executions are as the contract says.
-/

namespace Transaction

set_option autoImplicit false

variable {σ : Signature} {I α β : Type}

/-- The operations of a straight session, whose writes are in `W`. -/
def Plain (W : Change σ → Prop) : Op σ → Prop
  | .select => True
  | .insert row => ∀ id, W (.inserted row id)
  | .execute stmt => W (.executed stmt)
  | .now => True
  | .commit => False
  | .rollback => False
  | .request _ => False

/-- All operations are plain and no exception is caught. -/
def Straight (W : Change σ → Prop) : Session σ α → Prop
  | .done _ => True
  | .raise e => ∀ c, e ≠ .integrity c
  | .call o k => Plain W o ∧ (∀ a, Straight W (k (.ok a))) ∧ ∀ e, k (.error e) = .raise e

section Straight
variable {W : Change σ → Prop}

theorem Straight.andThen {q : Session σ α} {f : α → Session σ β} (hq : Straight W q)
    (hf : ∀ a, Straight W (f a)) : Straight W (q.andThen f) := by
  induction q with
  | done a => exact hf a
  | raise e => exact hq
  | call o k ih =>
    obtain ⟨ho, hk, herr⟩ := hq
    exact ⟨ho, fun a => ih _ (hk a), fun e => by simp [herr e]⟩

theorem Straight.mono {W' : Change σ → Prop} (hW : ∀ c, W c → W' c) {q : Session σ α}
    (hq : Straight W q) : Straight W' q := by
  induction q with
  | done a => trivial
  | raise e => exact hq
  | call o k ih =>
    obtain ⟨ho, hk, herr⟩ := hq
    refine ⟨?_, fun a => ih _ (hk a), herr⟩
    cases o with
    | insert row => exact fun id => hW _ (ho id)
    | execute stmt => exact hW _ ho
    | select | now => trivial
    | commit | rollback | request => exact ho.elim

theorem Straight.perform {o : Op σ} (ho : Plain W o) : Straight W (Program.perform o) :=
  ⟨ho, fun _ => trivial, fun _ => rfl⟩

end Straight

inductive Ending (σ : Signature) (α : Type)
  | value (a : α)
  | refused (c : Change σ) (k : σ.Constraint)

section Executions
variable {E : Engine σ} (K : KeyLaws E) (R : Rely σ I)

/-- `Answered o h ws h' ws' r`: after the history `h` and the pending writes `ws` the
operation `o` is answered by `r` at the history `h'` and leaves the writes `ws'`. -/
inductive Answered : (o : Op σ) → List (Commit σ I) → List (Change σ) →
    List (Commit σ I) → List (Change σ) → Ending σ o.Res → Prop
  | select {h h' ws} (later : R.allows h h') (known : Known K h' ws) :
    Answered .select h ws h' ws (.value (E.view h' ws))
  | inserted {h h' ws row id} (later : R.allows h h') (known : Known K h' ws)
      (new : NewId K h' ws row id)
      (allowed : E.violated (E.view h' ws) (.inserted row id) = none) :
    Answered (.insert row) h ws h' (ws ++ [.inserted row id]) (.value id)
  | notInserted {h h' ws row id k} (later : R.allows h h') (known : Known K h' ws)
      (new : NewId K h' ws row id)
      (violated : E.violated (E.view h' ws) (.inserted row id) = some k) :
    Answered (.insert row) h ws h' ws (.refused (.inserted row id) k)
  | executed {h h' ws stmt} (later : R.allows h h') (known : Known K h' ws)
      (allowed : E.violated (E.view h' ws) (.executed stmt) = none) :
    Answered (.execute stmt) h ws h' (ws ++ [.executed stmt]) (.value ())
  | notExecuted {h h' ws stmt k} (later : R.allows h h') (known : Known K h' ws)
      (violated : E.violated (E.view h' ws) (.executed stmt) = some k) :
    Answered (.execute stmt) h ws h' ws (.refused (.executed stmt) k)
  | now {h h' ws t} (later : R.allows h h') (clock : Later h' t) :
    Answered .now h ws h' ws (.value t)

/-- `Runs q h ws h' ws' e`: from the history `h` and the pending writes `ws` the
session `q` can come to the ending `e` at the history `h'` with the writes `ws'`. -/
def Runs : Session σ α → List (Commit σ I) → List (Change σ) →
    List (Commit σ I) → List (Change σ) → Ending σ α → Prop
  | .done a, h, ws, h', ws', e => R.allows h h' ∧ ws' = ws ∧ e = .value a
  | .raise _, _, _, _, _, _ => False
  | .call o k, h, ws, h', ws', e =>
    (∃ h₁ ws₁ a, Answered K R o h ws h₁ ws₁ (.value a) ∧
      Runs (k (.ok a)) h₁ ws₁ h' ws' e) ∨
    ∃ c j, e = .refused c j ∧ Answered K R o h ws h' ws' (.refused c j)

variable {K R}

theorem Answered.later {o : Op σ} {h h' : List (Commit σ I)} {ws ws' : List (Change σ)}
    {r : Ending σ o.Res} (ha : Answered K R o h ws h' ws' r) : R.allows h h' := by
  cases ha <;> assumption

theorem Answered.writes {o : Op σ} {h h' : List (Commit σ I)} {ws ws' : List (Change σ)}
    {r : Ending σ o.Res} {W : Change σ → Prop} (ho : Plain W o)
    (ha : Answered K R o h ws h' ws' r) : ∃ new, ws' = ws ++ new ∧ ∀ c ∈ new, W c := by
  cases ha with
  | select | notInserted | notExecuted | now => exact ⟨[], by simp, by simp⟩
  | inserted => exact ⟨_, rfl, by simpa using ho _⟩
  | executed => exact ⟨_, rfl, by simpa [Plain] using ho⟩

theorem Runs.later {q : Session σ α} {h h' : List (Commit σ I)} {ws ws' : List (Change σ)}
    {e : Ending σ α} (hr : Runs K R q h ws h' ws' e) : R.allows h h' := by
  induction q generalizing h ws with
  | done a => exact hr.1
  | raise e => exact hr.elim
  | call o k ih =>
    rcases hr with ⟨h₁, ws₁, a, ha, hr⟩ | ⟨c, j, _, ha⟩
    · exact R.trans ha.later (ih _ hr)
    · exact ha.later

theorem Runs.writes {W : Change σ → Prop} {q : Session σ α} (hq : Straight W q)
    {h h' : List (Commit σ I)} {ws ws' : List (Change σ)} {e : Ending σ α}
    (hr : Runs K R q h ws h' ws' e) : ∃ new, ws' = ws ++ new ∧ ∀ c ∈ new, W c := by
  induction q generalizing h ws with
  | done a => exact ⟨[], by simp [hr.2.1], by simp⟩
  | raise e => exact hr.elim
  | call o k ih =>
    rcases hr with ⟨h₁, ws₁, a, ha, hr⟩ | ⟨c, j, _, ha⟩
    · obtain ⟨new₁, rfl, hnew₁⟩ := ha.writes hq.1
      obtain ⟨new₂, rfl, hnew₂⟩ := ih _ (hq.2.1 a) hr
      refine ⟨new₁ ++ new₂, by simp, fun c hc => ?_⟩
      rcases List.mem_append.mp hc with hc | hc
      · exact hnew₁ c hc
      · exact hnew₂ c hc
    · exact ha.writes hq.1

/-- The write that ends an execution is one of the session's. -/
theorem Runs.refused {W : Change σ → Prop} {q : Session σ α} (hq : Straight W q)
    {h h' : List (Commit σ I)} {ws ws' : List (Change σ)} {c : Change σ} {j : σ.Constraint}
    (hr : Runs K R q h ws h' ws' (.refused c j)) : W c := by
  induction q generalizing h ws with
  | done a => cases hr.2.2
  | raise e => exact hr.elim
  | call o k ih =>
    rcases hr with ⟨h₁, ws₁, a, ha, hr⟩ | ⟨c', j', he, ha⟩
    · exact ih _ (hq.2.1 a) hr
    · cases he
      have ho := hq.1
      cases ha
      · exact ho _
      · exact ho

theorem Answered.earlier {o : Op σ} {h₀ h h' : List (Commit σ I)} {ws ws' : List (Change σ)}
    {r : Ending σ o.Res} (hle : R.allows h₀ h) (ha : Answered K R o h ws h' ws' r) :
    Answered K R o h₀ ws h' ws' r := by
  cases ha with
  | select later known => exact .select (R.trans hle later) known
  | inserted later known new allowed => exact .inserted (R.trans hle later) known new allowed
  | notInserted later known new violated =>
    exact .notInserted (R.trans hle later) known new violated
  | executed later known allowed => exact .executed (R.trans hle later) known allowed
  | notExecuted later known violated => exact .notExecuted (R.trans hle later) known violated
  | now later clock => exact .now (R.trans hle later) clock

theorem Runs.earlier {q : Session σ α} {h₀ h h' : List (Commit σ I)} {ws ws' : List (Change σ)}
    {e : Ending σ α} (hle : R.allows h₀ h) (hr : Runs K R q h ws h' ws' e) :
    Runs K R q h₀ ws h' ws' e := by
  cases q with
  | done a => exact ⟨R.trans hle hr.1, hr.2⟩
  | raise e => exact hr
  | call o k =>
    rcases hr with ⟨h₁, ws₁, a, ha, hr⟩ | ⟨c, j, he, ha⟩
    · exact .inl ⟨h₁, ws₁, a, ha.earlier hle, hr⟩
    · exact .inr ⟨c, j, he, ha.earlier hle⟩

/-- An execution of a sequence is one of its first part, followed by one of the rest
unless a constraint ended the first. -/
theorem Runs.andThen {q : Session σ α} {f : α → Session σ β} {h h' : List (Commit σ I)}
    {ws ws' : List (Change σ)} {e : Ending σ β} (hr : Runs K R (q.andThen f) h ws h' ws' e) :
    (∃ h₁ ws₁ a, Runs K R q h ws h₁ ws₁ (.value a) ∧ Runs K R (f a) h₁ ws₁ h' ws' e) ∨
      ∃ c k, e = .refused c k ∧ Runs K R q h ws h' ws' (.refused c k) := by
  induction q generalizing h ws with
  | done a => exact .inl ⟨h, ws, a, ⟨R.refl h, rfl, rfl⟩, hr⟩
  | raise e => exact hr.elim
  | call o k ih =>
    rcases hr with ⟨h₁, ws₁, a, ha, hr⟩ | ⟨c, j, rfl, ha⟩
    · rcases ih _ hr with ⟨h₂, ws₂, b, hq, hf⟩ | ⟨c, j, rfl, hq⟩
      · exact .inl ⟨h₂, ws₂, b, .inl ⟨h₁, ws₁, a, ha, hq⟩, hf⟩
      · exact .inr ⟨c, j, rfl, .inl ⟨h₁, ws₁, a, ha, hq⟩⟩
    · exact .inr ⟨c, j, rfl, .inr ⟨c, j, rfl, ha⟩⟩

theorem Runs.perform {o : Op σ} {h h' : List (Commit σ I)} {ws ws' : List (Change σ)}
    {e : Ending σ o.Res} (hr : Runs K R (Program.perform o) h ws h' ws' e) :
    ∃ h₁, R.allows h₁ h' ∧ Answered K R o h ws h₁ ws' e := by
  rcases hr with ⟨h₁, ws₁, a, ha, hle, rfl, rfl⟩ | ⟨c, j, rfl, ha⟩
  · exact ⟨h₁, hle, ha⟩
  · exact ⟨h', R.refl h', ha⟩

theorem Runs.extend {q : Session σ α} {h h' h'' : List (Commit σ I)} {ws ws' : List (Change σ)}
    {a : α} (hr : Runs K R q h ws h' ws' (.value a)) (hle : R.allows h' h'') :
    Runs K R q h ws h'' ws' (.value a) := by
  induction q generalizing h ws with
  | done b => exact ⟨R.trans hr.1 hle, hr.2⟩
  | raise e => exact hr.elim
  | call o k ih =>
    rcases hr with ⟨h₁, ws₁, b, ha, hr⟩ | ⟨c, j, he, _⟩
    · exact .inl ⟨h₁, ws₁, b, ha, ih _ hr⟩
    · cases he

end Executions

section Safety
variable {E : Engine σ} {K : KeyLaws E} {C : Contract σ I} {n : Nat} {i : I}

/-- The answer to a plain operation is as its sequential executions have it, or the
operation failed. -/
theorem Plain.wp {W : Change σ → Prop} {o : Op σ} (ho : Plain W o) {h h₁ : List (Commit σ I)}
    {p : Progress σ} {Q : Post σ I o.Res} (hle : C.rely.allows h h₁) (hk : Known K h₁ p.writes)
    (hvalue : ∀ ws a, Answered K C.rely o h p.writes h₁ ws (.value a) →
      Q h₁ { p with writes := ws } (.ok a))
    (hrefused : ∀ c k, Answered K C.rely o h p.writes h₁ p.writes (.refused c k) →
      C.refuses i h₁ p c k ∧ Q h₁ (p.refuse c k) (.error (.integrity k)))
    (hfault : ∀ m, Q h₁ p (.error (.fault m))) : Wp K C n i h₁ p o Q := by
  cases o with
  | select => exact ⟨hvalue _ _ (.select hle hk), hfault⟩
  | insert row =>
    refine ⟨fun id hid => ?_, hfault⟩
    unfold WpPut
    split
    · rename_i k hviol
      exact hrefused _ k (.notInserted hle hk hid hviol)
    · rename_i hok
      exact hvalue _ id (.inserted hle hk hid hok)
  | execute stmt =>
    refine ⟨?_, hfault⟩
    unfold WpPut
    split
    · rename_i k hviol
      exact hrefused _ k (.notExecuted hle hk hviol)
    · rename_i hok
      exact hvalue _ () (.executed hle hk hok)
  | now => exact fun t ht => hvalue _ t (.now hle ht)
  | commit => exact ho.elim
  | rollback => exact ho.elim
  | request x => exact ho.elim

/-- How an interleaved run of the straight session `q` ends: its progress is what it
was, with the writes, or the refusal, of one sequential execution. -/
def Ran (K : KeyLaws E) (R : Rely σ I) (q : Session σ α) (h : List (Commit σ I))
    (p : Progress σ) : Post σ I α := fun h' p' r =>
  match r with
  | .ok a => ∃ ws, p' = { p with writes := ws } ∧ Runs K R q h p.writes h' ws (.value a)
  | .error (.integrity k) => ∃ h₁ ws c, R.allows h₁ h' ∧
      p' = ({ p with writes := ws } : Progress σ).refuse c k ∧
      Runs K R q h p.writes h₁ ws (.refused c k)
  | .error _ => ∃ ws, p' = { p with writes := ws }

theorem Ran.call {R : Rely σ I} {o : Op σ} {k : Except (Exn σ) o.Res → Session σ α}
    {h h₁ h' : List (Commit σ I)} {p p' : Progress σ} {ws : List (Change σ)} {a : o.Res}
    {r : Except (Exn σ) α} (ha : Answered K R o h p.writes h₁ ws (.value a))
    (hr : Ran K R (k (.ok a)) h₁ { p with writes := ws } h' p' r) :
    Ran K R (.call o k) h p h' p' r := by
  match r, hr with
  | .ok b, ⟨ws', hp, hr⟩ => exact ⟨ws', hp, .inl ⟨h₁, ws, a, ha, hr⟩⟩
  | .error (.integrity j), ⟨h₂, ws', c, hle, hp, hr⟩ =>
    exact ⟨h₂, ws', c, hle, hp, .inl ⟨h₁, ws, a, ha, hr⟩⟩
  | .error (.fault m), hr => exact hr
  | .error (.app e), hr => exact hr

/-- A straight session is safe in any interleaving when every refusal that ends one
of its sequential executions is as the contract says. -/
theorem Straight.safe {W : Change σ → Prop} {q : Session σ α} (hq : Straight W q)
    {h : List (Commit σ I)} {p : Progress σ}
    (hrefuse : ∀ h' ws c k, Runs K C.rely q h p.writes h' ws (.refused c k) →
      C.refuses i h' { p with writes := ws } c k) :
    Safe K C n i q h p (Ran K C.rely q h p) := by
  induction q generalizing h p with
  | done a => exact fun h' hle => ⟨p.writes, rfl, hle, rfl, rfl⟩
  | raise e =>
    intro h' hle
    cases e with
    | integrity c => exact absurd rfl (hq c)
    | fault m => exact ⟨p.writes, rfl⟩
    | app e => exact ⟨p.writes, rfl⟩
  | call o k ih =>
    obtain ⟨ho, hk, herr⟩ := hq
    intro h₁ hle _ hknown
    refine ho.wp hle hknown ?_ ?_ ?_
    · intro ws a ha
      refine (ih _ (hk a) fun h' ws' c j hr => ?_).mono fun h' p' r hr => Ran.call ha hr
      exact hrefuse h' ws' c j (.inl ⟨h₁, ws, a, ha, hr⟩)
    · intro c j ha
      have hrun : Runs K C.rely (.call o k) h p.writes h₁ p.writes (.refused c j) :=
        .inr ⟨c, j, rfl, ha⟩
      refine ⟨hrefuse _ _ _ _ hrun, ?_⟩
      simp only [herr]
      exact fun h' hle' => ⟨h₁, p.writes, c, hle', rfl, hrun⟩
    · intro m
      rw [herr]
      exact fun h' _ => ⟨p.writes, rfl⟩

end Safety

end Transaction
