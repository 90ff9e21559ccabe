import EcommerceIntegration.Ingest.System
import EcommerceIntegration.Library.Clock

/-!
# The times of an address version

The handler reads the clock right before it opens a version, so no version is valid from
a time that is still to come when it is committed.
-/

namespace EcommerceIntegration

set_option autoImplicit false

open Transaction

def addressTimes : Change → List Time
  | .inserted (.address r) _ => [r.validFrom]
  | _ => []

theorem addressTimes_of_write {t : EventType} (ht : t ≠ .clientUpserted) {c : Change}
    (hc : HandlerWrite t c) : addressTimes c = [] := by
  cases c with
  | inserted row id =>
    cases row with
    | address r => cases t <;> first | exact hc.elim | exact absurd rfl ht
    | client | order | orderItem | payment | invoice | outbox => rfl
  | executed stmt => rfl

section Timely
variable {T : Time} {α : Type}

theorem openVersion_timely {t : Time} (ht : t ≤ T) (clientId : Nat) (payload : AddressPayload) :
    Timely addressTimes (AddressRepository.openVersion clientId payload t) T := by
  refine Timely.andThen (Timely.perform fun T' hle => ⟨fun id t' ht' => ?_, fun _ => trivial⟩) ?_
  · obtain rfl := List.mem_singleton.mp ht'
    exact Int.le_trans ht hle
  · exact fun _ _ _ => trivial

theorem upsertVersion_timely (clientId : Nat) (payload : AddressPayload) :
    Timely addressTimes (AddressRepository.upsertVersion clientId payload) T := by
  refine Timely.andThen (Straight.timely (select_straight _) T) fun found T' _ => ?_
  cases found with
  | none => exact Timely.now fun T'' _ => openVersion_timely (Int.le_refl _) clientId payload
  | some current =>
    dsimp only
    split
    · refine Timely.now fun T'' _ => ?_
      refine Timely.andThen (Straight.timely (execute_straight rfl) T'') fun _ T₃ hle => ?_
      exact openVersion_timely hle clientId payload
    · trivial

theorem handler_timely (t : EventType) (i : EventEnvelope) (T : Time) :
    Timely addressTimes (handlerOf t i) T := by
  by_cases ht : t = .clientUpserted
  · subst ht
    refine Timely.andThen (Straight.timely (validate_straight _) T) fun data T₁ _ => ?_
    refine Timely.andThen (Straight.timely (clientUpsert_straight ?_ ?_ ..) T₁) fun c T₂ _ => ?_
    · exact fun _ _ => rfl
    · exact fun _ _ _ _ _ => rfl
    · exact Timely.andThen (upsertVersion_timely _ _) fun _ _ _ => trivial
  · exact Straight.timely
      ((handler_straight t i).mono fun c hc => addressTimes_of_write ht hc) T

theorem rollback_timely : Timely addressTimes UnitOfWork.rollback T :=
  Timely.perform fun _ _ _ => trivial

theorem scope_timely {body : Session α} (hbody : Timely addressTimes body T) :
    Timely addressTimes (UnitOfWork.scope body) T := by
  refine Timely.andThen (Timely.handle (Timely.andThen hbody fun _ _ _ => trivial) ?_) ?_
  · exact fun _ _ _ => Timely.andThen rollback_timely fun _ _ _ => trivial
  · intro r T' _
    refine Timely.andThen rollback_timely fun _ _ _ => ?_
    cases r <;> trivial

theorem claim_timely (eventId : String) :
    Timely addressTimes (RedisDeduplicator.claim eventId) T :=
  Timely.handle (Timely.perform fun _ _ _ => trivial) fun _ _ _ => trivial

theorem release_timely (eventId : String) :
    Timely addressTimes (RedisDeduplicator.release eventId) T :=
  Timely.handle (Timely.andThen (Timely.perform fun _ _ _ => trivial) fun _ _ _ => trivial)
    fun _ _ _ => trivial

theorem claimInLedger_timely (i : EventEnvelope) :
    Timely addressTimes (EventProcessor.claimInLedger i) T := by
  refine Timely.handle (Timely.andThen (Straight.timely (execute_straight rfl) T) ?_) ?_
  · exact fun _ _ _ => trivial
  · intro e T' _
    cases e with
    | integrity c => exact Timely.andThen rollback_timely fun _ _ _ => trivial
    | fault m => trivial
    | app e => trivial

theorem applyHandler_timely {handler : EventHandler} {i : EventEnvelope}
    (hhandler : Timely addressTimes (handler i) T) :
    Timely addressTimes (EventProcessor.applyHandler handler i) T := by
  refine Timely.handle (Timely.andThen hhandler fun _ T₁ _ => ?_) ?_
  · exact Timely.andThen (Timely.perform fun _ _ _ => trivial) fun _ _ _ => trivial
  · intro e T' _
    cases e with
    | integrity c => exact Timely.andThen rollback_timely fun _ _ _ => trivial
    | fault m => trivial
    | app e => trivial

theorem failed_timely (i : EventEnvelope) (e : Exn) :
    Timely addressTimes (EventProcessor.failed i e) T := by
  refine Timely.andThen (release_timely _) fun _ T₁ _ => ?_
  have hsummarize : Timely addressTimes
      ((summarize e).andThen fun detail => .done (⟨.retry, detail⟩ : Result)) T₁ := by
    unfold summarize
    split <;> trivial
  change Timely addressTimes _ T₁
  split
  · trivial
  · exact hsummarize

end Timely

theorem ingest_timely (i : EventEnvelope) (T : Time) : Timely addressTimes (ingest i) T := by
  have hsupports : buildRegistry.supports i.eventType = true := by
    simp [HandlerRegistry.supports]
  have hget : buildRegistry.get i.eventType = .done (handlerOf i.eventType) := by
    simp [HandlerRegistry.get]
  simp only [ingest, EventProcessor.process, hsupports, if_true]
  refine Timely.andThen (claim_timely _) fun admitted T₁ _ => ?_
  split
  · refine Timely.handle ?_ fun e _ _ => failed_timely i e
    simp only [EventProcessor.apply, hget, Program.bind_eq, Program.done_andThen]
    refine scope_timely (Timely.andThen (claimInLedger_timely i) fun claimed T₂ _ => ?_)
    split
    · exact applyHandler_timely (handler_timely _ i T₂)
    · trivial
  · trivial

/-- A version is valid from a time that is not after the commit which opened it. -/
theorem IngestReachable.punctual {s : IngestState} (hs : IngestReachable s) :
    Punctual addressTimes s :=
  Reachable.punctual ingest_timely hs

end EcommerceIntegration
