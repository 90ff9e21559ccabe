import EcommerceIntegration.Ingest.System
import EcommerceIntegration.Library.Attempts

/-!
# Deliveries that the reservation discards

An attempt that finds the key of its event set answers DUPLICATE without looking at the
ledger. What is true of an event when that happens, and stays true, is true of the events
of all discarded deliveries.
-/

namespace EcommerceIntegration

set_option autoImplicit false

open Transaction EventProcessor

/-- The event whose delivery the step discards. -/
def discarding (s : IngestState) : IngestLabel → Option EventEnvelope
  | .exec n .ok =>
    match s.active n with
    | some ⟨i, .call (.request (.setNx key)) _, _⟩ => if key ∈ s.shared.remote then some i else none
    | _ => none
  | _ => none

/-- The attempt has found the reservation of its event taken. -/
def Discarded (i : EventEnvelope) (p : Progress store) : Prop :=
  (reserve i, some false) ∈ p.requests

theorem discarding_of_respond {s : IngestState} {n : Nat} {i : EventEnvelope} {o : Op store}
    {k : Except Exn o.Res → Session Result} {p p' : Progress store} {sh : Shared store EventEnvelope}
    {choice : Choice} {r : Except Exn o.Res} (ha : s.active n = some ⟨i, .call o k, p⟩)
    (hr : engine.respond n i p s.shared o choice = some (r, p', sh)) (hnot : ¬ Discarded i p)
    (hdis : Discarded i p') : discarding s (.exec n choice) = some i := by
  unfold Discarded at hnot hdis
  rcases respond_requests hr with heq | ⟨x, rfl, ⟨rfl, heq⟩ | heq⟩
  · exact absurd (heq ▸ hdis) hnot
  · rcases List.mem_append.mp (heq ▸ hdis) with hold | hnew
    · exact absurd hold hnot
    · obtain ⟨rfl, hreply⟩ := Prod.mk.inj (List.mem_singleton.mp hnew)
      have htaken : RedisDeduplicator.key i.eventId ∈ s.shared.remote := by
        by_contra hfree
        simp [reserve, engine, redis, hfree] at hreply
      simp [discarding, ha, reserve, htaken]
  · rcases List.mem_append.mp (heq ▸ hdis) with hold | hnew
    · exact absurd hold hnot
    · cases List.mem_singleton.mp hnew

theorem IngestReachable.explained {s : IngestState} (hs : IngestReachable s) :
    Explained keyLaws (effectContract others) EventProcessor.Concluded s :=
  Reachable.explained keyLaws (effectContract others) (fun _ _ hle => hle) Concluded
    (fun n i h => process_safe others n i h) hs

/-- A write of a handler that a constraint refused was refused where it stood in the way
of what had been committed. -/
theorem IngestReachable.handlerRefused {s : IngestState} (hs : IngestReachable s) :
    s.Each fun i p => ∀ c k, (c, k) ∈ p.refusals → HandlerWrite i.eventType c →
      ∃ h ws, h <+: s.shared.history ∧ HandlerRefused others i h ws c k := by
  refine hs.explained.refusals.mono fun i p hrefusals c k hmem hc => ?_
  obtain ⟨h, p₀, hpre, ⟨_, hledger⟩ | hhandler⟩ := hrefusals _ hmem
  · obtain rfl : c = ledgerRow i := hledger
    cases ht : i.eventType <;> rw [ht] at hc <;> exact hc.elim
  · exact ⟨h, p₀.writes, hpre, hhandler⟩

/-- What holds of an event whenever a delivery of it is discarded, and is kept by every
step, holds of the event of every discarded delivery. -/
theorem discarded_along {P : IngestState → IngestLabel → Prop}
    {F : IngestState → EventEnvelope → Prop}
    (hkeep : ∀ s l t i, P s l → step engine ingest s l = some t → F s i → F t i)
    (hdiscard : ∀ s l t i, P s l → step engine ingest s l = some t → discarding s l = some i →
      F t i)
    {clock : Time} {reserved : List String} {ls : List IngestLabel} {s : IngestState}
    (hP : Transition.Along (step engine ingest) P (initial clock reserved) ls)
    (hrun : ingestRun (initial clock reserved) ls = some s) :
    s.Each fun i p => Discarded i p → F s i := by
  unfold ingestRun at hrun
  have hstep : ∀ (s : IngestState) l t, (s.Each fun i p => Discarded i p → F s i) → P s l →
      step engine ingest s l = some t → t.Each fun i p => Discarded i p → F t i := by
    intro s l t hs hl hst
    refine hs.step hst ?_ ?_ ?_
    · intro i p hp hdis
      exact hkeep s l t i hl hst (hp hdis)
    · intro i _ hdis
      cases hdis
    · rintro n choice i o k p r p' sh rfl hn hr _ hdis
      by_cases hold : Discarded i p
      · exact hkeep _ _ _ _ hl hst (hs.active n _ hn hold)
      · exact hdiscard _ _ _ _ hl hst (discarding_of_respond hn hr hold hdis)
  exact Transition.run_invariant_along hstep (State.Each.initial clock reserved) hP hrun

end EcommerceIntegration
