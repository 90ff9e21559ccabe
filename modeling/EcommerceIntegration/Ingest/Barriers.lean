import EcommerceIntegration.Ingest.Writes

/-!
# What an attempt to process an event can do

Every commit of the processor is the ledger row of its event followed by all writes
of one execution of the handler. How the call ends says what has been committed,
what a constraint refused and what was asked of Redis.
-/

namespace EcommerceIntegration

set_option autoImplicit false

open Transaction

abbrev History := List (Commit store EventEnvelope)

def ledgerRow (i : EventEnvelope) : Change := .executed (.registerEvent ⟨i.eventId, i.eventType⟩)

def InLedger (d : Database) (eventId : String) : Prop :=
  ∃ e ∈ d.processedEvents, e.eventId = eventId

instance (d : Database) (eventId : String) : Decidable (InLedger d eventId) :=
  inferInstanceAs (Decidable (∃ e ∈ d.processedEvents, e.eventId = eventId))

theorem inLedger_iff {d : Database} {eventId : String} :
    InLedger d eventId ↔ .event eventId ∈ d.keys := mem_keys_event.symm

/-- Nothing is ever taken out of the ledger. -/
theorem InLedger.later {h h' : History} {eventId : String}
    (hin : InLedger (engine.state h) eventId) (hle : h <+: h') :
    InLedger (engine.state h') eventId :=
  inLedger_iff.mpr (keyLaws.mem_keys_state hle (inLedger_iff.mp hin))

theorem violated_ledgerRow {d : Database} {i : EventEnvelope} :
    d.violated (ledgerRow i) = none ↔ ¬ InLedger d i.eventId := by
  simp [Database.violated, ledgerRow, firstViolated_eq_none, InLedger]

theorem pkProcessedEvents_of_violated {d : Database} {i : EventEnvelope} {k : Constraint}
    (h : d.violated (ledgerRow i) = some k) :
    k = .pkProcessedEvents ∧ InLedger d i.eventId := by
  have hk := firstViolated_eq_some h
  simp only [List.mem_singleton, Prod.mk.injEq] at hk
  refine ⟨hk.2, ?_⟩
  simpa [InLedger] using hk.1.symm

/-- `ws` is the whole effect of the event at the history `h`. -/
def CompleteEffect (R : Rely store EventEnvelope) (i : EventEnvelope) (h : History)
    (ws : List Change) : Prop :=
  ∃ h₀, ¬ InLedger (engine.state h₀) i.eventId ∧
    Runs keyLaws R (handlerOf i.eventType i) h₀ [ledgerRow i] h ws (.value ())

/-- The pending writes `ws` are a part of the effect, and `c` is refused after them. -/
def HandlerRefused (R : Rely store EventEnvelope) (i : EventEnvelope) (h : History)
    (ws : List Change) (c : Change) (k : Constraint) : Prop :=
  ∃ h₀, Runs keyLaws R (handlerOf i.eventType i) h₀ [ledgerRow i] h ws (.refused c k)

def effectContract (R : Rely store EventEnvelope) : Contract store EventEnvelope where
  rely := R
  commits := CompleteEffect R
  refuses i h p c k := (p.writes = [] ∧ c = ledgerRow i) ∨ HandlerRefused R i h p.writes c k

namespace EventProcessor

def reserve (i : EventEnvelope) : RedisRequest := .setNx (RedisDeduplicator.key i.eventId)

def giveBack (i : EventEnvelope) : RedisRequest := .delete (RedisDeduplicator.key i.eventId)

/-- The ways in which `process` ends. `x` is the answer to the reservation, `none` when
Redis is not available. -/
inductive Concluded (i : EventEnvelope) (h : History) :
    Progress store → Except Exn Result → Prop
  | discarded :
    Concluded i h ⟨[], [], [], [(reserve i, some false)]⟩ (.ok ⟨.duplicate, discardedByRedis⟩)
  | processed {x ws} (admitted : x ≠ some false) :
    Concluded i h ⟨[], [ws], [], [(reserve i, x)]⟩ (.ok ⟨.processed, ""⟩)
  | registered {x} (admitted : x ≠ some false) (ledger : InLedger (engine.state h) i.eventId) :
    Concluded i h ⟨[], [], [(ledgerRow i, .pkProcessedEvents)], [(reserve i, x)]⟩
      (.ok ⟨.duplicate, alreadyInLedger⟩)
  | barred {x c k} (admitted : x ≠ some false) (refused : HandlerWrite i.eventType c) :
    Concluded i h ⟨[], [], [(c, k)], [(reserve i, x)]⟩ (.ok ⟨.duplicate, barredByConstraint⟩)
  | retried {x y detail} (admitted : x ≠ some false) :
    Concluded i h ⟨[], [], [], [(reserve i, x), (giveBack i, y)]⟩ (.ok ⟨.retry, detail⟩)
  | raised {x y e} (admitted : x ≠ some false) :
    Concluded i h ⟨[], [], [], [(reserve i, x), (giveBack i, y)]⟩ (.error e)

section Safety
variable {R : Rely store EventEnvelope} {n : Nat} {i : EventEnvelope} {h : History}
  {p : Progress store} {α : Type}

/-- Redis answers or is not available; then the event is admitted. -/
theorem claim_safe {Q : Post store EventEnvelope Bool}
    (hin : ∀ h' x, R.allows h h' → x ≠ some false → Q h' (p.request (reserve i) x) (.ok true))
    (hout : ∀ h', R.allows h h' → Q h' (p.request (reserve i) (some false)) (.ok false)) :
    Safe keyLaws (effectContract R) n i (RedisDeduplicator.claim i.eventId) h p Q := by
  refine Safe.handle (Safe.perform fun h' hle _ _ => ⟨fun b h₂ hle₂ => ?_, fun m h₂ hle₂ => ?_⟩)
  · cases b with
    | true => exact hin h₂ _ (R.trans hle hle₂) (by simp)
    | false => exact hout h₂ (R.trans hle hle₂)
  · exact fun h₃ hle₃ => hin h₃ _ (R.trans hle (R.trans hle₂ hle₃)) (by simp)

theorem release_safe {Q : Post store EventEnvelope Unit}
    (hQ : ∀ h' y, R.allows h h' → Q h' (p.request (giveBack i) y) (.ok ())) :
    Safe keyLaws (effectContract R) n i (RedisDeduplicator.release i.eventId) h p Q := by
  refine Safe.handle (Safe.andThen (Safe.perform fun h' hle _ _ =>
    ⟨fun b h₂ hle₂ => ?_, fun m h₂ hle₂ => ?_⟩))
  · exact fun h₃ hle₃ => hQ h₃ _ (R.trans hle (R.trans hle₂ hle₃))
  · exact fun h₃ hle₃ => hQ h₃ _ (R.trans hle (R.trans hle₂ hle₃))

theorem rollback_safe {Q : Post store EventEnvelope Unit}
    (hQ : ∀ h', R.allows h h' → Q h' p.rollback (.ok ())) :
    Safe keyLaws (effectContract R) n i UnitOfWork.rollback h p Q :=
  Safe.perform fun _ hle _ _ _ hle₂ => hQ _ (R.trans hle hle₂)

/-- However the body ends, nothing stays pending. -/
theorem scope_safe {body : Session α} {Q : Post store EventEnvelope α}
    (hbody : Safe keyLaws (effectContract R) n i body h p fun h' p' r =>
      ∀ h'', R.allows h' h'' → Q h'' p'.rollback r) :
    Safe keyLaws (effectContract R) n i (UnitOfWork.scope body) h p Q := by
  refine Safe.andThen (Safe.handle (Safe.andThen (hbody.mono fun h' p' r hQ => ?_)))
  cases r with
  | ok a =>
    exact fun h₂ hle₂ => Safe.andThen (rollback_safe fun h₃ hle₃ h₄ hle₄ =>
      hQ h₄ (R.trans hle₂ (R.trans hle₃ hle₄)))
  | error e =>
    refine Safe.andThen (rollback_safe fun h₂ hle₂ h₃ hle₃ => ?_)
    exact Safe.andThen (rollback_safe fun h₄ hle₄ h₅ hle₅ =>
      hQ h₅ (R.trans hle₂ (R.trans hle₃ (R.trans hle₄ hle₅))))

theorem claimInLedger_safe {Q : Post store EventEnvelope Bool} (hp : p.writes = [])
    (hin : ∀ h₀ h', R.allows h h₀ → R.allows h₀ h' → ¬ InLedger (engine.state h₀) i.eventId →
      Q h' (p.write (ledgerRow i)) (.ok true))
    (hout : ∀ h', R.allows h h' → InLedger (engine.state h') i.eventId →
      Q h' (p.refuse (ledgerRow i) .pkProcessedEvents).rollback (.ok false))
    (hfault : ∀ h' m, Q h' p (.error (.fault m))) :
    Safe keyLaws (effectContract R) n i (claimInLedger i) h p Q := by
  refine Safe.handle (Safe.andThen (Safe.perform fun h₁ hle _ _ => ⟨?_, fun m => ?_⟩))
  · unfold WpPut
    split
    · rename_i k hviol
      rw [hp, Engine.view_nil] at hviol
      obtain ⟨rfl, hledger⟩ := pkProcessedEvents_of_violated hviol
      refine ⟨.inl ⟨hp, rfl⟩, fun h₂ hle₂ => Safe.andThen (rollback_safe fun h₃ hle₃ => ?_)⟩
      intro h₄ hle₄
      have hle' := R.trans hle₂ (R.trans hle₃ hle₄)
      exact hout h₄ (R.trans hle hle') (hledger.later (R.prefix_of hle'))
    · rename_i hok
      rw [hp, Engine.view_nil] at hok
      exact fun h₂ hle₂ h₃ hle₃ =>
        hin h₁ h₃ hle (R.trans hle₂ hle₃) (violated_ledgerRow.mp hok)
  · exact fun h₂ hle₂ h₃ _ => hfault h₃ m

/-- The handler runs to its end and is committed as a whole, or a constraint bars it, or
it fails and its writes are still pending. -/
theorem applyHandler_safe {Q : Post store EventEnvelope Result} {h₀ : History}
    (hnew : ¬ InLedger (engine.state h₀) i.eventId) (hle₀ : R.allows h₀ h)
    (hp : p.writes = [ledgerRow i])
    (hdone : ∀ h' ws, R.allows h h' →
      ∀ t h'', R.allows (h' ++ [⟨n, i, t, ws⟩]) h'' →
      Q h'' { p with writes := [], committed := p.committed ++ [ws] } (.ok ⟨.processed, ""⟩))
    (hbarred : ∀ h' c k, R.allows h h' → HandlerWrite i.eventType c →
      Q h' { p with writes := [], refusals := p.refusals ++ [(c, k)] }
        (.ok ⟨.duplicate, barredByConstraint⟩))
    (hfailed : ∀ h' ws e, Q h' { p with writes := ws } (.error e)) :
    Safe keyLaws (effectContract R) n i (applyHandler (handlerOf i.eventType) i) h p Q := by
  have hstraight := handler_straight i.eventType i
  refine Safe.handle (Safe.andThen ((hstraight.safe fun h' ws c k hr => ?_).mono ?_))
  · exact .inr ⟨h₀, hp ▸ hr.earlier hle₀⟩
  · intro h₁ p' r hran
    match r, hran with
    | .ok (), ⟨ws, hp', hr⟩ =>
      subst hp'
      refine Safe.andThen (Safe.perform fun h₂ hle₂ _ _ => ⟨?_, fun t _ => ?_, fun m => ?_⟩)
      · exact ⟨h₀, hnew, hp ▸ (hr.earlier hle₀).extend hle₂⟩
      · intro h₃ hle₃ h₄ hle₄
        exact hdone h₂ ws (R.trans hr.later hle₂) t h₄ (R.trans hle₃ hle₄)
      · exact fun h₃ _ h₄ _ => hfailed h₄ [] _
    | .error (.integrity k), ⟨h₂, ws, c, hle₂, hp', hr⟩ =>
      subst hp'
      refine Safe.andThen (rollback_safe fun h₃ hle₃ => ?_)
      exact fun h₄ hle₄ => hbarred h₄ c k
        (R.trans hr.later (R.trans hle₂ (R.trans hle₃ hle₄))) (hr.refused hstraight)
    | .error (.fault m), ⟨ws, hp'⟩ =>
      subst hp'
      exact fun h₂ _ => hfailed h₂ ws _
    | .error (.app e), ⟨ws, hp'⟩ =>
      subst hp'
      exact fun h₂ _ => hfailed h₂ ws _

/-- The transaction of an admitted event: it ends in one of the ways above, or raises
with nothing committed. -/
theorem apply_safe {x : Option Bool} (hx : x ≠ some false)
    (hp : p = ⟨[], [], [], [(reserve i, x)]⟩) :
    Safe keyLaws (effectContract R) n i (apply buildRegistry i) h p fun h' p' r =>
      match r with
      | .ok ρ => Concluded i h' p' (.ok ρ)
      | .error _ => p' = p := by
  have hget : buildRegistry.get i.eventType = .done (handlerOf i.eventType) := by
    simp [HandlerRegistry.get]
  simp only [apply, hget, Program.bind_eq, Program.done_andThen]
  refine scope_safe (Safe.andThen (claimInLedger_safe (by rw [hp]) ?_ ?_ ?_))
  · intro h₀ h₁ _ hle₁ hnew
    refine applyHandler_safe hnew hle₁ (by rw [hp]; rfl) ?_ ?_ ?_
    · intro h₂ ws _ t h₃ _ h₄ _
      subst hp
      exact .processed hx
    · intro h₂ c k _ hc h₃ _
      subst hp
      exact .barred hx hc
    · intro h₂ ws e h₃ _
      subst hp
      rfl
  · intro h₁ hle₁ hledger h₂ hle₂ h₃ hle₃
    subst hp
    exact .registered hx (hledger.later (R.prefix_of (R.trans hle₂ hle₃)))
  · intro h₁ m h₂ _
    subst hp
    rfl

/-- Whatever was raised, the reservation is given back first. -/
theorem failed_safe {x : Option Bool} (hx : x ≠ some false)
    (hp : p = ⟨[], [], [], [(reserve i, x)]⟩) (e : Exn) :
    Safe keyLaws (effectContract R) n i (failed i e) h p (Concluded i) := by
  refine Safe.andThen (release_safe fun h₁ y _ => ?_)
  subst hp
  have hsummarize : Safe keyLaws (effectContract R) n i
      ((summarize e).andThen fun detail => .done ⟨.retry, detail⟩) h₁
      (Progress.request ⟨[], [], [], [(reserve i, x)]⟩ (giveBack i) y) (Concluded i) := by
    unfold summarize
    split
    · exact fun h₂ _ => .raised hx
    · exact fun h₂ _ => .retried hx
  change Safe keyLaws (effectContract R) n i _ h₁ _ (Concluded i)
  split
  · exact fun h₂ _ => .retried hx
  · exact hsummarize

end Safety

/-- Whatever happens around it, a call of `process` keeps the contract and ends in one
of the ways above. -/
theorem process_safe (R : Rely store EventEnvelope) (n : Nat) (i : EventEnvelope) (h : History) :
    Safe keyLaws (effectContract R) n i (process buildRegistry i) h {} (Concluded i) := by
  have hsupports : buildRegistry.supports i.eventType = true := by
    simp [HandlerRegistry.supports]
  simp only [process, hsupports, if_true]
  refine Safe.andThen (claim_safe (fun h₁ x _ hx => ?_) fun h₁ _ => ?_)
  · refine Safe.handle ((apply_safe hx rfl).mono fun h₂ p r hr => ?_)
    match r, hr with
    | .ok ρ, hr => exact hr
    | .error e, hr => exact failed_safe hx hr e
  · exact fun h₂ _ => .discarded

end EventProcessor

end EcommerceIntegration
