import EcommerceIntegration.Db.Triggers
import EcommerceIntegration.Ingest.NoDeadlock
import EcommerceIntegration.Library.Guards

/-!
# The triggers and the ingest workers

The triggers guard the closed orders against every client of the database. The ingest
workers never make one of them throw: they update only columns that the trigger does not
compare, and they insert items only for an order that is new in the same transaction. So the
database of the other modules, which has no triggers, has the same runs.
-/

namespace EcommerceIntegration

set_option autoImplicit false

open Transaction

/-- What a trigger throws at the statement. -/
def Database.thrown (collate : String → String) (d : Database) : Change → Option String
  | .executed (.updateOrder id status closedAt) =>
    let deleted := d.orders.filter (·.orderId == id)
    if OrdersTrigger.throws collate deleted (deleted.map (Order.set status closedAt)) then
      some "Pedido fechado e imutavel: alteracao retroativa bloqueada."
    else none
  | .inserted (.orderItem r) id =>
    if ItemsTrigger.throws d.orders [] [{ r with orderItemId := id }] then
      some "Itens de pedido fechado sao imutaveis."
    else none
  | _ => none

/-- An item for an approved order, from a client that is no worker. -/
example : ({ orders := [⟨1, "o-1", 1, 1, 1, .approved, "BRL", 100, 0, some 0, "e-1"⟩] } :
    Database).thrown id (.inserted (.orderItem ⟨0, 1, "sku", "item", 1, 100, 100⟩) 1) =
      some "Itens de pedido fechado sao imutaveis." := by
  decide

/-- A step of the ingest workers on the database with its triggers. -/
def triggeredStep (collate : String → String) (s : IngestState) (l : IngestLabel) :
    Option IngestState :=
  guardedStep engine (Database.thrown collate) ingest s l

/-! ## Items of a new order -/

/-- The transaction has inserted the order as PENDING and since then only items. -/
def NewOrder (orderId : Nat) (ws : List Change) : Prop :=
  ∃ us o vs, ws = us ++ .inserted (.order o) orderId :: vs ∧ o.status = .pending ∧
    ∀ c ∈ vs, ∃ r id, c = .inserted (.orderItem r) id

/-- Items are inserted for a new order only. -/
def ForNewOrder (ws : List Change) : Change → Prop
  | .inserted (.orderItem r) _ => NewOrder r.orderId ws
  | _ => True

theorem NewOrder.item {orderId id : Nat} {ws : List Change} (h : NewOrder orderId ws)
    (r : OrderItem) : NewOrder orderId (ws ++ [.inserted (.orderItem r) id]) := by
  obtain ⟨us, o, vs, rfl, hstatus, hitems⟩ := h
  refine ⟨us, o, vs ++ [.inserted (.orderItem r) id], by simp, hstatus, fun c hc => ?_⟩
  rcases List.mem_append.mp hc with hc | hc
  · exact hitems c hc
  · exact ⟨r, id, List.mem_singleton.mp hc⟩

/-- The transaction sees its new order as it has inserted it. -/
theorem NewOrder.visible {orderId : Nat} {ws : List Change} (h : NewOrder orderId ws)
    (h₀ : History) :
    ∃ o ∈ (engine.view h₀ ws).orders, o.orderId = orderId ∧ o.status = .pending := by
  obtain ⟨us, o, vs, rfl, hstatus, hitems⟩ := h
  have hspares : ∀ c ∈ vs, engine.Spares Database.orders c := by
    intro c hc d
    obtain ⟨r, id, rfl⟩ := hitems c hc
    rfl
  refine ⟨{ o with orderId }, ?_, rfl, hstatus⟩
  have horders : (engine.view h₀ (us ++ .inserted (.order o) orderId :: vs)).orders =
      (engine.view h₀ us).orders ++ [{ o with orderId }] := by
    simp only [Engine.view, Engine.replay_append, Engine.replay_cons]
    rw [Engine.replay_spares hspares]
    rfl
  rw [horders]
  exact List.mem_append_right _ (List.mem_singleton_self _)

section Silent
variable {h : History} {ws : List Change} {collate : String → String}

theorem ordersTrigger_silent (hknown : Known keyLaws h ws) (id : Nat) (status : OrderStatus)
    (closedAt : Option Time) :
    (engine.view h ws).thrown collate (.executed (.updateOrder id status closedAt)) = none := by
  refine if_neg fun hthrows => ?_
  obtain ⟨o, ho, hthrows⟩ := List.any_eq_true.mp hthrows
  obtain ⟨_, hjoin⟩ := Bool.and_eq_true_iff.mp hthrows
  have hmem := (List.mem_filter.mp ho).1
  split at hjoin
  · -- the updated row is among the inserted ones
    rename_i hnone
    refine List.find?_eq_none.mp hnone (o.set status closedAt) (List.mem_map_of_mem ho) ?_
    simp [Order.set]
  · rename_i i hfind
    have hid := List.find?_some hfind
    obtain ⟨o', ho', rfl⟩ := List.mem_map.mp (List.mem_of_find?_eq_some hfind)
    have heq : o' = o := order_unique_id hknown (List.mem_filter.mp ho').1 hmem
      (by simpa [Order.set] using hid)
    rw [heq] at hjoin
    simp [OrdersTrigger.differs, textDiffers, Order.set] at hjoin

theorem itemsTrigger_silent (hknown : Known keyLaws h ws) {r : OrderItem}
    (hnew : NewOrder r.orderId ws) (id : Nat) :
    (engine.view h ws).thrown collate (.inserted (.orderItem r) id) = none := by
  refine if_neg fun hthrows => ?_
  obtain ⟨o, ho, hthrows⟩ := List.any_eq_true.mp hthrows
  obtain ⟨hclosed, hitem⟩ := Bool.and_eq_true_iff.mp hthrows
  obtain ⟨o', ho', hid, hpending⟩ := hnew.visible h
  have heq : o = o' := order_unique_id hknown ho ho' (by simpa [hid] using hitem)
  rw [heq, hpending] at hclosed
  cases hclosed

/-- No trigger throws at a write for which `ForNewOrder` holds. -/
theorem thrown_none (hknown : Known keyLaws h ws) {c : Change} (hc : ForNewOrder ws c) :
    (engine.view h ws).thrown collate c = none := by
  cases c with
  | executed stmt =>
    cases stmt with
    | updateOrder id status closedAt => exact ordersTrigger_silent hknown id status closedAt
    | registerEvent | updateClient | closeAddress | updatePayment => rfl
  | inserted row id =>
    cases row with
    | orderItem r => exact itemsTrigger_silent hknown hc id
    | client | address | order | payment | invoice | outbox => rfl

end Silent

/-! ## What the workers write -/

section Handlers
variable {ws : List Change}

theorem requireFits_straight {W : Change → Prop} (fits : Bool) :
    Straight W (requireFits fits) := by
  cases fits with
  | true => trivial
  | false => exact fun c hc => by cases hc

theorem insertOrder_issues {o : Order} (ho : o.status = .pending) :
    Issues ForNewOrder (insert (.order o)) ws fun ws' r =>
      ∀ orderId, r = .ok orderId → NewOrder orderId ws' := by
  refine Issues.perform ⟨fun id => ⟨trivial, fun orderId heq => ?_⟩, fun e orderId heq => ?_⟩
  · cases heq
    exact ⟨ws, o, [], rfl, ho, fun c hc => by cases hc⟩
  · cases heq

theorem insertItem_issues {r : OrderItem} (hnew : NewOrder r.orderId ws) :
    Issues ForNewOrder (insert (.orderItem r)) ws fun ws' a =>
      ∀ id, a = .ok id → NewOrder r.orderId ws' := by
  refine Issues.perform ⟨fun id => ⟨hnew, fun _ _ => hnew.item r⟩, fun e id heq => ?_⟩
  cases heq

theorem addItems_issues {orderId : Nat} (items : List OrderItemPayload)
    (hnew : NewOrder orderId ws) :
    Issues ForNewOrder (OrderRepository.addItems orderId items) ws fun _ _ => True := by
  induction items generalizing ws with
  | nil => trivial
  | cons item items ih =>
    refine Issues.after_reads (requireFits_straight _) fun _ => ?_
    exact (insertItem_issues (r := OrderRepository.newItem orderId item) hnew).seq
      fun ws' _ hnew' => ih hnew'

theorem create_issues (orderUid : String) (clientId shippingId billingId : Nat)
    (currency : String) (totalAmount : Nat) (placedAt : Time) (sourceEventId : String)
    (items : List OrderItemPayload) :
    Issues ForNewOrder (OrderRepository.create orderUid clientId shippingId billingId currency
      totalAmount placedAt sourceEventId items) ws fun _ _ => True := by
  refine Issues.after_reads (requireFits_straight _) fun _ => ?_
  refine (insertOrder_issues rfl).seq fun ws' orderId hnew => ?_
  exact (addItems_issues items hnew).andThen_keeps fun _ _ => trivial

theorem orderHandler_keeps (i : EventEnvelope) :
    Keeps ForNewOrder (OrderCreatedHandler.handle i) := by
  intro ws
  refine Issues.after_reads (validate_straight _) fun data =>
    Issues.after_reads (select_straight _) fun found => ?_
  split
  · trivial
  · refine Issues.after_reads (select_straight _) fun client =>
      Issues.after_reads (requireDependency_straight _ _) fun _ =>
        Issues.after_reads (requireCurrentAddress_straight _) fun shipping =>
          Issues.after_reads (resolveBillingAddress_straight _ _) fun billing => ?_
    exact (create_issues _ _ _ _ _ _ _ _ _).andThen_keeps fun _ _ => trivial

/-- The other handlers insert no items. -/
theorem forNewOrder_of_write {t : EventType} (ht : t ≠ .orderCreated) {c : Change}
    (hc : HandlerWrite t c) (ws : List Change) : ForNewOrder ws c := by
  cases c with
  | executed stmt => trivial
  | inserted row id =>
    cases row with
    | orderItem r => cases t <;> first | exact hc.elim | exact absurd rfl ht
    | client | address | order | payment | invoice | outbox => trivial

theorem handler_keeps (t : EventType) (i : EventEnvelope) :
    Keeps ForNewOrder (handlerOf t i) := by
  by_cases ht : t = .orderCreated
  · subst ht
    exact orderHandler_keeps i
  · exact (handler_straight t i).keeps fun ws c hc => forNewOrder_of_write ht hc ws

end Handlers

theorem claimInLedger_keeps (i : EventEnvelope) :
    Keeps ForNewOrder (EventProcessor.claimInLedger i) := by
  refine Keeps.handle (Keeps.andThen (fun ws => ?_) fun _ => fun _ => trivial) fun e => ?_
  · exact Issues.perform ⟨⟨trivial, trivial⟩, fun _ => trivial⟩
  · cases e with
    | integrity c => exact Keeps.of_lockless (rollback_lockless.andThen fun _ => trivial)
    | fault | app => exact fun _ => trivial

theorem applyHandler_keeps (t : EventType) (i : EventEnvelope) :
    Keeps ForNewOrder (EventProcessor.applyHandler (handlerOf t) i) := by
  refine Keeps.handle ((handler_keeps t i).andThen fun _ => Keeps.of_lockless ?_) fun e => ?_
  · exact (Program.Uses.perform trivial).andThen fun _ => trivial
  · cases e with
    | integrity c => exact Keeps.of_lockless (rollback_lockless.andThen fun _ => trivial)
    | fault | app => exact fun _ => trivial

theorem scope_keeps {α : Type} {body : Session α} (hbody : Keeps ForNewOrder body) :
    Keeps ForNewOrder (UnitOfWork.scope body) := by
  refine Keeps.andThen (Keeps.handle (hbody.andThen fun _ _ => trivial) fun e => ?_)
    fun result => Keeps.of_lockless ?_
  · exact Keeps.of_lockless (rollback_lockless.andThen fun _ => trivial)
  · refine rollback_lockless.andThen fun _ => ?_
    cases result <;> trivial

theorem apply_keeps (i : EventEnvelope) :
    Keeps ForNewOrder (EventProcessor.apply buildRegistry i) := by
  have hget : buildRegistry.get i.eventType = .done (handlerOf i.eventType) := by
    simp [HandlerRegistry.get]
  unfold EventProcessor.apply
  rw [hget]
  refine scope_keeps (Keeps.andThen (claimInLedger_keeps i) fun registered => ?_)
  cases registered with
  | true => exact applyHandler_keeps i.eventType i
  | false => exact fun _ => trivial

theorem ingest_keeps (i : EventEnvelope) : Keeps ForNewOrder (ingest i) := by
  unfold ingest EventProcessor.process
  split
  · refine Keeps.andThen (Keeps.of_lockless ?_) fun claimed => ?_
    · exact Program.Uses.handle (Program.Uses.perform trivial) fun _ => trivial
    · cases claimed with
      | true => exact (apply_keeps i).handle fun e => Keeps.of_lockless (failed_lockless i e)
      | false => exact fun _ => trivial
  · exact fun _ => trivial

/-- With its triggers the database does on every run of the workers what it does without
them, so no statement of a worker is ever refused by a trigger. -/
theorem triggers_transparent (collate : String → String) (clock : Time) (reserved : List String)
    (ls : List IngestLabel) :
    Transition.run (triggeredStep collate) (initial clock reserved) ls =
      ingestRun (initial clock reserved) ls := by
  refine guarded_run keyLaws ingest_keeps (fun h ws c hknown hc => thrown_none hknown hc)
    (WellFormed.initial clock reserved) (fun n a ha => ?_) ls
  cases ha

end EcommerceIntegration
