import EcommerceIntegration.Dispatch.Worker
import EcommerceIntegration.Ingest.OrderStatus

/-!
# Ingest and dispatch on one outbox

The ingest workers insert into the outbox and never read it; the table that the dispatch
workers claim from and mark has the same rows. Together they keep the orders and their
notifications in step.
-/

namespace EcommerceIntegration

set_option autoImplicit false

structure Pipeline where
  ingest : IngestState
  dispatch : DispatchState

inductive PipelineLabel
  | ingest (l : IngestLabel)
  | dispatch (l : DispatchLabel)

namespace Pipeline

/-- Only the ingest workers insert. -/
def inserts : DispatchLabel → Bool
  | .enqueue _ => true
  | _ => false

/-- The rows that the step commits to the outbox. -/
def arriving (s : IngestState) (l : IngestLabel) : List OutboxMessage :=
  (s.committing l).toList.flatMap fun c => newMessages c.writes

def arrive (s : DispatchState) (rows : List OutboxMessage) : DispatchState :=
  { s with board := { s.board with outbox := s.board.outbox ++ rows } }

def step (settings : Settings) (s : Pipeline) : PipelineLabel → Option Pipeline
  | .ingest l =>
    (Transaction.step engine EcommerceIntegration.ingest s.ingest l).map fun ingest =>
      ⟨ingest, arrive s.dispatch (arriving s.ingest l)⟩
  | .dispatch l =>
    if inserts l then none else (s.dispatch.step settings l).map fun dispatch => { s with dispatch }

def initial (clock : Time) (reserved : List String) : Pipeline :=
  ⟨Transaction.initial clock reserved, DispatchState.initial clock⟩

def run (settings : Settings) (s : Pipeline) (ls : List PipelineLabel) : Option Pipeline :=
  Transition.run (step settings) s ls

/-- What no mark and no claim changes in a row. -/
def address (m : OutboxMessage) : Nat × String × String := (m.outboxId, m.eventType, m.aggregateId)

theorem address_act {b b' : Board} {a : Action} (h : b.act a = some b')
    (hnot : ∀ m, a ≠ .enqueue m) : b'.outbox.map address = b.outbox.map address := by
  rcases Board.columns_act address (fun _ _ _ => rfl) (fun _ => rfl)
    (fun verdict now delay m => by cases verdict <;> rfl) h with heq | ⟨m, heq, _⟩
  · exact heq
  · exact absurd heq (hnot m)

theorem address_dispatch {settings : Settings} {s t : DispatchState} {l : DispatchLabel}
    (hnot : inserts l = false) (h : s.step settings l = some t) :
    t.board.outbox.map address = s.board.outbox.map address := by
  rcases DispatchState.step_board h with ⟨a, ha, hact⟩ | ⟨_, heq⟩
  · refine address_act hact fun m hm => ?_
    subst hm
    obtain rfl := DispatchState.enqueue_of_action ha
    cases hnot
  · rw [heq]

theorem address_arriving (s : IngestState) (l : IngestLabel) {t : IngestState}
    (h : Transaction.step engine EcommerceIntegration.ingest s l = some t) :
    (committed t).outbox = (committed s).outbox ++ arriving s l := by
  unfold committed arriving
  rw [Transaction.step_committing h]
  cases s.committing l with
  | none => simp
  | some c => simp [outbox_replay]

/-- The two views of the outbox have the same rows, but for what dispatch has marked. -/
structure InStep (s : Pipeline) : Prop where
  reachable : IngestReachable s.ingest
  rows : s.dispatch.board.outbox.map address = (committed s.ingest).outbox.map address

variable {settings : Settings} {clock : Time} {reserved : List String} {ls : List PipelineLabel}
  {s t : Pipeline} {l : PipelineLabel}

theorem InStep.step (hs : InStep s) (hst : s.step settings l = some t) : InStep t := by
  cases l with
  | ingest l =>
    obtain ⟨ingest, hingest, rfl⟩ := Option.map_eq_some_iff.mp hst
    obtain ⟨clock, reserved, hreach⟩ := hs.reachable
    refine ⟨⟨clock, reserved, hreach.tail hingest⟩, ?_⟩
    dsimp only
    rw [address_arriving s.ingest l hingest, List.map_append, ← hs.rows, ← List.map_append]
    rfl
  | dispatch l =>
    simp only [Pipeline.step] at hst
    split at hst
    · cases hst
    · rename_i hnot
      obtain ⟨dispatch, hdispatch, rfl⟩ := Option.map_eq_some_iff.mp hst
      exact ⟨hs.reachable, (address_dispatch (by simpa using hnot) hdispatch).trans hs.rows⟩

theorem inStep_run (hrun : (initial clock reserved).run settings ls = some s) : InStep s :=
  Transition.run_invariant (fun _ _ _ hs hst => hs.step hst)
    ⟨⟨clock, reserved, Transition.Reachable.refl _⟩, rfl⟩ hrun

/-- A row of the outbox that notifies about the order. -/
def Notified (s : Pipeline) (orderUid : String) : Prop :=
  ∃ m ∈ s.dispatch.board.outbox,
    m.eventType = PaymentUpdatedHandler.orderApprovedEvent ∧ m.aggregateId = orderUid

theorem InStep.notified_iff (hs : InStep s) (orderUid : String) :
    Notified s orderUid ↔ 1 ≤ notifications (committed s.ingest) orderUid := by
  have same : ∀ rows : List OutboxMessage,
      (∃ m ∈ rows, m.eventType = PaymentUpdatedHandler.orderApprovedEvent ∧
          m.aggregateId = orderUid) ↔
        ∃ a ∈ rows.map address, a.2.1 = PaymentUpdatedHandler.orderApprovedEvent ∧
          a.2.2 = orderUid := by
    intro rows
    simp [address]
  rw [Notified, same, hs.rows, ← same, notifications]
  rw [Nat.one_le_iff_ne_zero, ← Nat.pos_iff_ne_zero, List.countP_pos_iff]
  simp [OutboxMessage.notifies]

/-- In every state, with dispatch workers at work on the outbox, the orders that are
APPROVED or INVOICED are the ones it has a notification of. -/
theorem notified_iff_closed (hrun : (initial clock reserved).run settings ls = some s) :
    ∀ o ∈ (committed s.ingest).orders,
      (o.status = .approved ∨ o.status = .invoiced) ↔ Notified s o.orderUid := by
  intro o ho
  have hs := inStep_run hrun
  have hh := hs.reachable.consistent
  rw [hs.notified_iff]
  constructor
  · intro hclosed
    refine notified_of_closed hh _ (List.prefix_refl _) o ho ?_
    rcases hclosed with h | h <;> simp [h]
  · intro hnotified
    obtain ⟨o', ho', huid, hclosed⟩ := closed_of_notified hh hnotified
    obtain rfl := order_unique hh.keys ho' ho huid
    have hnot := not_cancelled hh o' ho
    cases hstatus : o'.status <;> simp_all

namespace Sample

open EcommerceIntegration.Sample

/-- The order is approved, and its notification is claimed. -/
def approvedAndClaimed : List PipelineLabel :=
  (catalog ++ attempt 3 approval1 15).map .ingest ++
    [.dispatch (.start "a"), .dispatch (.poll 0), .dispatch (.claim 0 [1])]

def after (ls : List PipelineLabel) : Option Pipeline := (initial 0 []).run {} ls

theorem after_run {ls : List PipelineLabel} (h : (after ls).isSome = true) :
    (initial 0 []).run {} ls = some ((after ls).get h) :=
  (Option.some_get h).symm

end Sample

theorem notified_iff_closed_claimed :
    (committed ((Sample.after Sample.approvedAndClaimed).get (by decide +kernel)).ingest).orders ≠ [] ∧
    ∀ o ∈ (committed ((Sample.after Sample.approvedAndClaimed).get (by decide +kernel)).ingest).orders,
      (o.status = .approved ∨ o.status = .invoiced) ↔
        Notified ((Sample.after Sample.approvedAndClaimed).get (by decide +kernel)) o.orderUid :=
  ⟨by decide +kernel, notified_iff_closed (Sample.after_run _)⟩

end Pipeline

end EcommerceIntegration
