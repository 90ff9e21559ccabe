import EcommerceIntegration.Ingest.Worker
import EcommerceIntegration.Ingest.Writes
import EcommerceIntegration.Library.Evaluation

/-!
# One message, processed alone

What `process` does when the database and Redis answer it in a given way, whatever that is.
Of the reservations it looks at one only, that of its own event.
-/

namespace EcommerceIntegration

set_option autoImplicit false

open Transaction EventProcessor IngestWorker

/-- A call to Redis that raises, possibly after the request was carried out. -/
structure RedisFailure where
  exn : Exn
  carriedOut : Bool

/-- The answers to the calls of one message, counted from 0. -/
structure Answers where
  database : Nat → (o : Op store) → Except Exn o.Res
  failures : Nat → Option RedisFailure

structure Ambient where
  queries : Nat := 0
  requests : Nat := 0
  reserved : List String

namespace Answers

def answer (a : Answers) : (o : Op store) → Ambient → Except Exn o.Res × Ambient
  | .request x, s =>
    match a.failures s.requests with
    | none =>
      (.ok (engine.perform s.reserved x).2,
        { s with requests := s.requests + 1, reserved := (engine.perform s.reserved x).1 })
    | some failure =>
      (.error failure.exn,
        { s with
          requests := s.requests + 1
          reserved :=
            if failure.carriedOut then (engine.perform s.reserved x).1 else s.reserved })
  | o, s => (a.database s.queries o, { s with queries := s.queries + 1 })

variable (registry : HandlerRegistry) (a : Answers) (envelope : EventEnvelope)

/-- `process`, and the reservations after it. -/
def process (reserved : List String) : Except Exn Result × List String :=
  let (result, s) := (EventProcessor.process registry envelope).eval a.answer { reserved }
  (result, s.reserved)

/-- What comes of the transaction of `_apply`. -/
def transaction : Except Exn Result :=
  ((apply registry envelope).eval a.answer { reserved := [] }).1

/-- What `claim` answers. -/
def claims (reserved : List String) : Bool :=
  match a.failures 0 with
  | none => decide (RedisDeduplicator.key envelope.eventId ∉ reserved)
  | some _ => RedisDeduplicator.claimWhenRedisUnavailable

end Answers

/-! ## Which calls the program makes -/

/-- A handler gets the unit of work and the envelope, nothing of Redis. -/
def HandlerRegistry.DatabaseOnly (registry : HandlerRegistry) : Prop :=
  ∀ eventType handler, registry.find eventType = some handler → ∀ envelope,
    (handler envelope).Uses fun o => ∀ x, o ≠ .request x

theorem straight_databaseOnly {α : Type} {W : Change → Prop} {q : Session α} (hq : Straight W q) :
    q.Uses fun o => ∀ x, o ≠ .request x := by
  induction q with
  | done a => trivial
  | raise e => trivial
  | call o k ih =>
    obtain ⟨ho, hk, herr⟩ := hq
    refine ⟨?_, fun r => ?_⟩
    · rintro x rfl
      exact ho
    · cases r with
      | ok v => exact ih _ (hk v)
      | error e =>
        rw [herr e]
        trivial

theorem buildRegistry_databaseOnly : buildRegistry.DatabaseOnly := by
  intro t handler hfind envelope
  obtain rfl : handlerOf t = handler :=
    Option.some.inj ((find_buildRegistry t).symm.trans hfind)
  exact straight_databaseOnly (handler_straight t envelope)

/-- A request to Redis is about the key of the event. -/
def OwnKey (envelope : EventEnvelope) (o : Op store) : Prop :=
  ∀ x, o = .request x → x = .setNx (RedisDeduplicator.key envelope.eventId) ∨
    x = .delete (RedisDeduplicator.key envelope.eventId)

section Calls
variable {registry : HandlerRegistry} {envelope : EventEnvelope}

theorem perform_databaseOnly {o : Op store} (ho : ∀ x, o ≠ .request x) :
    (perform o).Uses fun o => ∀ x, o ≠ .request x :=
  Program.Uses.perform ho

theorem scope_databaseOnly {α : Type} {body : Session α}
    (hbody : body.Uses fun o => ∀ x, o ≠ .request x) :
    (UnitOfWork.scope body).Uses fun o => ∀ x, o ≠ .request x := by
  have hrollback : UnitOfWork.rollback.Uses fun o => ∀ x, o ≠ .request x :=
    perform_databaseOnly (by simp)
  refine Program.Uses.andThen (Program.Uses.handle ?_ fun e => ?_) fun result => ?_
  · exact hbody.andThen fun a => trivial
  · exact hrollback.andThen fun _ => trivial
  · refine hrollback.andThen fun _ => ?_
    cases result <;> trivial

theorem claimInLedger_databaseOnly :
    (claimInLedger envelope).Uses fun o => ∀ x, o ≠ .request x := by
  refine Program.Uses.handle ?_ fun e => ?_
  · exact (perform_databaseOnly (by simp)).andThen fun _ => trivial
  · cases e with
    | integrity c => exact (perform_databaseOnly (by simp)).andThen fun _ => trivial
    | fault | app => trivial

theorem applyHandler_databaseOnly {handler : EventHandler}
    (hhandler : (handler envelope).Uses fun o => ∀ x, o ≠ .request x) :
    (applyHandler handler envelope).Uses fun o => ∀ x, o ≠ .request x := by
  refine Program.Uses.handle (hhandler.andThen fun _ => ?_) fun e => ?_
  · exact (perform_databaseOnly (by simp)).andThen fun _ => trivial
  · cases e with
    | integrity c => exact (perform_databaseOnly (by simp)).andThen fun _ => trivial
    | fault | app => trivial

theorem apply_databaseOnly (hreg : registry.DatabaseOnly) :
    (apply registry envelope).Uses fun o => ∀ x, o ≠ .request x := by
  unfold EventProcessor.apply HandlerRegistry.get
  cases hfind : registry.find envelope.eventType with
  | none => trivial
  | some handler =>
    refine scope_databaseOnly (claimInLedger_databaseOnly.andThen fun registered => ?_)
    split
    · exact applyHandler_databaseOnly (hreg _ _ hfind envelope)
    · trivial

theorem release_ownKey : (RedisDeduplicator.release envelope.eventId).Uses (OwnKey envelope) := by
  refine Program.Uses.handle (Program.Uses.andThen (Program.Uses.perform ?_) fun _ => trivial)
    fun _ => trivial
  intro x hx
  cases hx
  exact .inr rfl

theorem claim_ownKey : (RedisDeduplicator.claim envelope.eventId).Uses (OwnKey envelope) := by
  refine Program.Uses.handle (Program.Uses.perform ?_) fun _ => trivial
  intro x hx
  cases hx
  exact .inl rfl

theorem failed_ownKey (e : Exn) : (failed envelope e).Uses (OwnKey envelope) := by
  refine release_ownKey.andThen fun _ => ?_
  have hsummary : ((summarize e).andThen fun detail => (pure ⟨.retry, detail⟩ : Session Result)).Uses
      (OwnKey envelope) := by
    unfold summarize
    split <;> trivial
  split
  · trivial
  · exact hsummary

theorem process_ownKey (hreg : registry.DatabaseOnly) :
    (EventProcessor.process registry envelope).Uses (OwnKey envelope) := by
  unfold EventProcessor.process
  split
  · refine claim_ownKey.andThen fun claimed => ?_
    split
    · exact Program.Uses.handle ((apply_databaseOnly hreg).mono fun o ho x hx => absurd hx (ho x))
        failed_ownKey
    · trivial
  · trivial

end Calls

/-! ## Processing one message -/

/-- `_summarize` finds no line in the text. -/
def Blank : Exn → Prop
  | .app (.dependencyNotReady _) => False
  | e => exnText e = ""

namespace Answers
variable {registry : HandlerRegistry} {a : Answers} {envelope : EventEnvelope}
  {reserved reserved' : List String}

theorem answer_database {o : Op store} (ho : ∀ x, o ≠ .request x) (s : Ambient) :
    a.answer o s = (a.database s.queries o, { s with queries := s.queries + 1 }) := by
  cases o with
  | request x => exact absurd rfl (ho x)
  | select | insert | execute | now | commit | rollback => rfl

/-- The transaction does not depend on the reservations and leaves them alone. -/
theorem eval_apply (a : Answers) (envelope : EventEnvelope) (hreg : registry.DatabaseOnly)
    {s : Ambient} (hs : s.queries = 0) :
    ((apply registry envelope).eval a.answer s).1 = a.transaction registry envelope ∧
      ((apply registry envelope).eval a.answer s).2.reserved = s.reserved := by
  constructor
  · refine (Program.Uses.eval_simulates (fun s t => s.queries = t.queries) ?_
      (apply_databaseOnly hreg) hs).1
    intro o s t ho hst
    rw [answer_database ho, answer_database ho, hst]
    exact ⟨rfl, rfl⟩
  · refine (apply_databaseOnly hreg).eval_keeps (I := fun t : Ambient => t.reserved = s.reserved) ?_ rfl
    intro o t ho ht
    rw [answer_database ho]
    exact ht

theorem eval_claim (a : Answers) (envelope : EventEnvelope) (reserved : List String) :
    ∃ taken, (RedisDeduplicator.claim envelope.eventId).eval a.answer { reserved } =
      (.ok (a.claims envelope reserved), { requests := 1, reserved := taken }) := by
  simp only [RedisDeduplicator.claim, perform, Program.perform, Program.tryCatch_eq,
    Program.call_handle, Program.eval_call, answer, claims]
  cases a.failures 0 with
  | none =>
    refine ⟨(redis reserved (.setNx (RedisDeduplicator.key envelope.eventId))).1, ?_⟩
    by_cases htaken : RedisDeduplicator.key envelope.eventId ∈ reserved
    · simp [engine, redis, htaken, Program.ofExcept]
    · simp [engine, redis, htaken, Program.ofExcept]
  | some failure => exact ⟨_, rfl⟩

theorem eval_release (a : Answers) (envelope : EventEnvelope) (s : Ambient) :
    ∃ t, (RedisDeduplicator.release envelope.eventId).eval a.answer s = (.ok (), t) := by
  simp only [RedisDeduplicator.release, perform, Program.perform, Program.tryCatch_eq,
    Program.bind_eq, Program.call_andThen, Program.call_handle, Program.eval_call, answer]
  cases a.failures s.requests with
  | none => exact ⟨_, rfl⟩
  | some failure => exact ⟨_, rfl⟩

/-- The `except` clauses raise in turn exactly when the text of the exception is empty. -/
theorem eval_failed (e : Exn) (s : Ambient) :
    (∃ e', ((failed envelope e).eval a.answer s).1 = .error e') ↔ Blank e := by
  obtain ⟨t, ht⟩ := eval_release a envelope s
  have hsummary : (∃ e', (((summarize e).andThen fun detail =>
      (pure ⟨.retry, detail⟩ : Session Result)).eval a.answer t).1 = .error e') ↔
      exnText e = "" := by
    unfold summarize
    split
    · rename_i hnil
      exact ⟨fun _ => String.toList_eq_nil_iff.mp hnil, fun _ => ⟨_, rfl⟩⟩
    · rename_i hne
      refine ⟨fun ⟨_, h⟩ => (by cases h), fun h => (hne ?_).elim⟩
      exact String.toList_eq_nil_iff.mpr h
  unfold failed
  rw [Program.bind_eq, Program.eval_andThen_ok ht]
  cases e with
  | integrity c => exact hsummary
  | fault message => exact hsummary
  | app e =>
    cases e with
    | dependencyNotReady message => exact ⟨fun ⟨_, h⟩ => (by cases h), False.elim⟩
    | validation | keyError | attributeError | indexError => exact hsummary

theorem process_error_iff (a : Answers) (envelope : EventEnvelope) (reserved : List String)
    (hreg : registry.DatabaseOnly) :
    (∃ e, (a.process registry envelope reserved).1 = .error e) ↔
      registry.supports envelope.eventType = true ∧ a.claims envelope reserved = true ∧
        ∃ e, a.transaction registry envelope = .error e ∧ Blank e := by
  unfold Answers.process EventProcessor.process
  dsimp only
  cases registry.supports envelope.eventType with
  | false => exact ⟨fun ⟨_, h⟩ => (by cases h), fun h => (by cases h.1)⟩
  | true =>
    obtain ⟨taken, hclaim⟩ := eval_claim a envelope reserved
    rw [if_pos rfl, Program.bind_eq, Program.eval_andThen_ok hclaim]
    cases a.claims envelope reserved with
    | false => exact ⟨fun ⟨_, h⟩ => (by cases h), fun h => (by cases h.2.1)⟩
    | true =>
      have htx := (eval_apply a envelope hreg (s := { requests := 1, reserved := taken }) rfl).1
      rw [if_pos rfl, Program.tryCatch_eq]
      cases heval : (apply registry envelope).eval a.answer { requests := 1, reserved := taken } with
      | mk result t =>
        rw [heval] at htx
        rw [← htx]
        cases result with
        | ok r =>
          rw [Program.eval_handle_ok heval]
          exact ⟨fun ⟨_, h⟩ => (by cases h), fun ⟨_, _, _, h, _⟩ => (by cases h)⟩
        | error e =>
          rw [Program.eval_handle_error heval]
          refine (eval_failed e t).trans ⟨fun he => ⟨rfl, rfl, e, rfl, he⟩, ?_⟩
          rintro ⟨_, _, e', heq, he'⟩
          cases heq
          exact he'

theorem mem_redis_of_ne (reserved : List String) {key k : String} (hk : k ≠ key) {x : RedisRequest}
    (hx : x = .setNx key ∨ x = .delete key) :
    k ∈ (redis reserved x).1 ↔ k ∈ reserved := by
  rcases hx with rfl | rfl
  · simp only [redis]
    split
    · rfl
    · simp [hk]
  · simp [redis, hk]

theorem redis_congr {key : String} (h : key ∈ reserved ↔ key ∈ reserved') {x : RedisRequest}
    (hx : x = .setNx key ∨ x = .delete key) :
    (redis reserved x).2 = (redis reserved' x).2 ∧
      (key ∈ (redis reserved x).1 ↔ key ∈ (redis reserved' x).1) := by
  rcases hx with rfl | rfl
  · by_cases hmem : key ∈ reserved
    · simp [redis, hmem, h.mp hmem]
    · simp [redis, hmem, mt h.mpr hmem]
  · simp [redis, h]

/-- The reservations of other events are left as they are. -/
theorem process_frame (hreg : registry.DatabaseOnly) {k : String}
    (hk : k ≠ RedisDeduplicator.key envelope.eventId) :
    k ∈ (a.process registry envelope reserved).2 ↔ k ∈ reserved := by
  refine (process_ownKey hreg).eval_keeps (I := fun s : Ambient => k ∈ s.reserved ↔ k ∈ reserved)
    ?_ Iff.rfl
  intro o s ho hs
  cases o with
  | request x =>
    have hmem := (mem_redis_of_ne s.reserved hk (ho x rfl)).trans hs
    simp only [answer]
    cases a.failures s.requests with
    | none => exact hmem
    | some failure =>
      dsimp only
      split
      · exact hmem
      · exact hs
  | select | insert | execute | now | commit | rollback => exact hs

/-- The same calls have been made, and the same reservation is held. -/
def Alike (key : String) (s t : Ambient) : Prop :=
  s.queries = t.queries ∧ s.requests = t.requests ∧ (key ∈ s.reserved ↔ key ∈ t.reserved)

theorem answer_alike (o : Op store) (s t : Ambient) (ho : OwnKey envelope o)
    (h : Alike (RedisDeduplicator.key envelope.eventId) s t) :
    (a.answer o s).1 = (a.answer o t).1 ∧
      Alike (RedisDeduplicator.key envelope.eventId) (a.answer o s).2 (a.answer o t).2 := by
  obtain ⟨hqueries, hrequests, hmem⟩ := h
  cases o with
  | request x =>
    obtain ⟨hreply, hafter⟩ := redis_congr hmem (ho x rfl)
    simp only [answer, ← hrequests]
    cases a.failures s.requests with
    | none => exact ⟨congrArg Except.ok hreply, hqueries, rfl, hafter⟩
    | some failure =>
      refine ⟨rfl, hqueries, rfl, ?_⟩
      dsimp only
      split
      · exact hafter
      · exact hmem
  | select | insert | execute | now | commit | rollback =>
    simp only [answer, hqueries]
    exact ⟨trivial, rfl, hrequests, hmem⟩

/-- Only the reservation of the own event matters. -/
theorem process_congr (hreg : registry.DatabaseOnly)
    (h : RedisDeduplicator.key envelope.eventId ∈ reserved ↔
      RedisDeduplicator.key envelope.eventId ∈ reserved') :
    (a.process registry envelope reserved).1 = (a.process registry envelope reserved').1 ∧
      (RedisDeduplicator.key envelope.eventId ∈ (a.process registry envelope reserved).2 ↔
        RedisDeduplicator.key envelope.eventId ∈ (a.process registry envelope reserved').2) := by
  have huses : (EventProcessor.process registry envelope).Uses (OwnKey envelope) :=
    process_ownKey hreg
  have hstart : Alike (RedisDeduplicator.key envelope.eventId) { reserved } { reserved := reserved' } :=
    ⟨rfl, rfl, h⟩
  obtain ⟨hresult, _, _, hmem⟩ := huses.eval_simulates _ (answer_alike (a := a)) hstart
  exact ⟨hresult, hmem⟩

end Answers

theorem key_injective {id id' : String}
    (h : RedisDeduplicator.key id = RedisDeduplicator.key id') : id = id' :=
  String.append_right_inj _ |>.mp h

end EcommerceIntegration
