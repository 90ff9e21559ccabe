import EcommerceIntegration.Library.LockOrder
import EcommerceIntegration.Ingest.Writes
import EcommerceIntegration.Ingest.System

/-!
# The workers do not deadlock

Every handler takes its locks in one order: the event, the client, the version of the
address that is closed and the one that is opened, the payment or the invoice, the order.
The rows of order items and of the outbox are new whenever they are locked.
-/

namespace EcommerceIntegration

set_option autoImplicit false

open Transaction

def lockRank : Lock → Nat
  | .event _ => 0
  | .row .clients _ | .clientUid _ => 1
  | .row .address _ => 2
  | .currentAddress _ => 3
  | .row .payment _ | .providerTx .. => 4
  | .row .invoices _ | .invoiceOrder _ | .invoiceNumber .. => 4
  | .row .orders _ | .orderUid _ => 5
  | .row .orderItems _ => 6
  | .row .outbox _ => 7

def lockOrder : LockOrder engine where
  row := .row
  rank := lockRank
  row_inserted t j r id h := by
    change t = r.table ∧ j = id
    cases r with
    | address a =>
      simp only [engine, locks] at h
      split at h <;> simpa [NewRow.table] using h
    | _ => simpa [engine, locks, NewRow.keys, NewRow.table] using h

/-- The step of the order at which a change is made. -/
def lockStage : Change → Nat
  | .executed (.registerEvent _) => 0
  | .inserted (.client _) _ | .executed (.updateClient ..) => 1
  | .executed (.closeAddress ..) => 2
  | .inserted (.address _) _ => 3
  | .inserted (.payment _) _ | .executed (.updatePayment ..) => 4
  | .inserted (.invoice _) _ => 4
  | .inserted (.order _) _ | .executed (.updateOrder ..) => 5
  | .inserted (.orderItem _) _ => 6
  | .inserted (.outbox _) _ => 7

/-- Every lock of a change is its own new row or belongs to its step of the order. -/
theorem mem_locks {c : Change} {l : Lock} (hl : l ∈ engine.locks c) :
    lockRank l ≤ lockStage c ∧
      ((∃ r id, c = .inserted r id ∧ l = .row r.table id) ∨ lockRank l = lockStage c) := by
  cases c with
  | inserted r id =>
    cases r with
    | address a =>
      have hl : l = .row .address id ∨ l = .currentAddress a.addressUid := by
        simp only [engine, locks] at hl
        split at hl
        · simpa using hl
        · simp_all
      rcases hl with rfl | rfl
      · exact ⟨Nat.le_succ _, .inl ⟨_, _, rfl, rfl⟩⟩
      · exact ⟨Nat.le_refl _, .inr rfl⟩
    | client r | order r | payment r =>
      rcases List.mem_pair.mp hl with rfl | rfl
      · exact ⟨Nat.le_refl _, .inl ⟨_, _, rfl, rfl⟩⟩
      · exact ⟨Nat.le_refl _, .inr rfl⟩
    | orderItem r | outbox r =>
      obtain rfl := List.mem_singleton.mp hl
      exact ⟨Nat.le_refl _, .inl ⟨_, _, rfl, rfl⟩⟩
    | invoice r =>
      simp only [engine, locks, NewRow.keys, List.mem_cons, List.not_mem_nil, or_false] at hl
      rcases hl with rfl | rfl | rfl
      · exact ⟨Nat.le_refl _, .inl ⟨_, _, rfl, rfl⟩⟩
      · exact ⟨Nat.le_refl _, .inr rfl⟩
      · exact ⟨Nat.le_refl _, .inr rfl⟩
  | executed stmt =>
    cases stmt <;> obtain rfl := List.mem_singleton.mp hl <;> exact ⟨Nat.le_refl _, .inr rfl⟩

theorem clears_of_le {height : Nat} {c : Change} (h : height ≤ lockStage c) :
    lockOrder.Clears height c := by
  intro l hl
  rcases (mem_locks hl).2 with hnew | hrank
  · exact .inl hnew
  · exact .inr (Nat.le_trans h (Nat.le_of_eq hrank.symm))

/-- A row that has no lock but its own is never waited for. -/
theorem clears_of_own {height id : Nat} {r : NewRow}
    (h : locks (.inserted r id) = [.row r.table id]) :
    lockOrder.Clears height (.inserted r id) := by
  intro l hl
  exact .inl ⟨r, id, rfl, List.mem_singleton.mp (h ▸ hl)⟩

theorem above_le {height top : Nat} {c : Change} (hheight : height ≤ top)
    (hstage : lockStage c < top) : lockOrder.above height c ≤ top := by
  have hranks : ∀ l ∈ engine.locks c, lockRank l + 1 ≤ top := fun l hl =>
    Nat.lt_of_le_of_lt (mem_locks hl).1 hstage
  unfold LockOrder.above
  revert hranks
  induction engine.locks c with
  | nil =>
    intro _
    exact hheight
  | cons l ls ih =>
    intro hranks
    refine Nat.max_le.mpr ⟨hranks l List.mem_cons_self, ih fun l' hl' => ?_⟩
    exact hranks l' (List.mem_cons_of_mem l hl')

abbrev Climbs {α : Type} (q : Session α) (height : Nat) (known : Rows store)
    (R : Nat → Rows store → α → Prop) : Prop :=
  Ascends keyLaws lockOrder q height known (Returns R)

section Steps
variable {α : Type} {height : Nat} {known : Rows store}

theorem select_climbs (query : Database → α) :
    Climbs (select query) height known fun h kn a =>
      h = height ∧ ∃ d, kn = known.seen keyLaws d ∧ a = query d := by
  refine Ascends.andThen (Ascends.perform ⟨fun d => ?_, fun m => ?_⟩)
  · exact Ascends.pure ⟨rfl, d, rfl, rfl⟩
  · intro a ha
    cases ha

theorem utcnow_climbs : Climbs utcnow height known fun h kn _ => h = height ∧ kn = known := by
  refine Ascends.perform fun t a _ => ⟨rfl, rfl⟩

theorem insert_climbs {row : NewRow}
    (hclears : ∀ id, lockOrder.Clears height (.inserted row id)) :
    Climbs (insert row) height known fun h kn id =>
      h = lockOrder.above height (.inserted row id) ∧ kn = known := by
  refine Ascends.perform fun id => ⟨hclears id, ?_, fun e a ha => ?_⟩
  · intro a ha
    cases ha
    exact ⟨rfl, rfl⟩
  · cases ha

theorem execute_climbs {stmt : Stmt} (hclears : lockOrder.Clears height (.executed stmt))
    (hnames : lockOrder.Names known (.executed stmt)) :
    Climbs (execute stmt) height known fun h kn _ =>
      h = lockOrder.above height (.executed stmt) ∧ kn = known := by
  refine Ascends.perform ⟨hclears, hnames, fun a _ => ⟨rfl, rfl⟩, fun e a ha => ?_⟩
  cases ha

theorem flush_climbs {dirty : Bool} {stmt : Stmt}
    (hclears : lockOrder.Clears height (.executed stmt))
    (hnames : lockOrder.Names known (.executed stmt)) :
    Climbs (flush dirty stmt) height known fun h kn _ =>
      h ≤ lockOrder.above height (.executed stmt) ∧ kn = known := by
  unfold flush
  split
  · refine (execute_climbs hclears hnames).mono fun h kn r hr a ha => ?_
    obtain ⟨rfl, rfl⟩ := hr a ha
    exact ⟨Nat.le_refl _, rfl⟩
  · exact Ascends.pure ⟨LockOrder.le_above _ _, rfl⟩

theorem validate_climbs {α : Type} (data : Except String α) :
    Climbs (validate data) height known fun h kn a =>
      h = height ∧ kn = known ∧ data = .ok a := by
  cases data with
  | ok a => exact Ascends.pure ⟨rfl, rfl, rfl⟩
  | error report => exact Ascends.raise

theorem requireDependency_climbs {α : Type} (message : String) (o : Option α) :
    Climbs (requireDependency message o) height known fun h kn a =>
      h = height ∧ kn = known ∧ o = some a := by
  cases o with
  | none => exact Ascends.raise
  | some a => exact Ascends.pure ⟨rfl, rfl, rfl⟩

theorem requireFits_climbs (fits : Bool) :
    Climbs (requireFits fits) height known fun h kn _ => h = height ∧ kn = known := by
  cases fits with
  | true => exact Ascends.pure ⟨rfl, rfl⟩
  | false => exact Ascends.raise

end Steps

section Repositories
variable {height : Nat} {known : Rows store}

/-- A row that was found by a query is known. -/
theorem seen_of_find {α : Type} {d : Database} {t : TableName} {rows : List α} {column : α → Nat}
    {p : α → Bool} {a : α} (hids : d.ids t = rows.map column) (ha : rows.find? p = some a) :
    known.seen keyLaws d t (column a) := by
  refine .inr ?_
  change column a ∈ d.ids t
  rw [hids]
  exact List.mem_map_of_mem (List.mem_of_find?_eq_some ha)

theorem names_row {t : TableName} {id : Nat} {stmt : Stmt} (hid : known t id)
    (hlocks : locks (.executed stmt) = [.row t id]) : lockOrder.Names known (.executed stmt) := by
  intro t' j hmem
  have heq : (Lock.row t' j) ∈ locks (.executed stmt) := hmem
  rw [hlocks, List.mem_singleton] at heq
  cases heq
  exact hid

theorem clientUpsert_climbs (hheight : height ≤ 1) (uid name document email : String) :
    Climbs (ClientRepository.upsert uid name document email) height known fun h _ _ => h ≤ 2 := by
  refine (select_climbs _).seq fun h kn found hfound => ?_
  obtain ⟨rfl, d, rfl, hfound⟩ := hfound
  cases found with
  | none =>
    refine utcnow_climbs.seq fun h kn t ht => ?_
    obtain ⟨rfl, rfl⟩ := ht
    refine (insert_climbs fun id => clears_of_le hheight).seq fun h kn id hid => ?_
    obtain ⟨rfl, rfl⟩ := hid
    exact Ascends.pure (above_le (Nat.le_succ_of_le hheight) (Nat.lt_succ_self 1))
  | some client =>
    refine utcnow_climbs.seq fun h kn t ht => ?_
    obtain ⟨rfl, rfl⟩ := ht
    have hknown : known.seen keyLaws d .clients client.clientId := seen_of_find rfl hfound.symm
    refine (flush_climbs (clears_of_le hheight) (names_row hknown rfl)).seq fun h kn _ hh => ?_
    refine Ascends.pure (Nat.le_trans hh.1 ?_)
    exact above_le (Nat.le_succ_of_le hheight) (Nat.lt_succ_self 1)

theorem openVersion_climbs (hheight : height ≤ 3) (clientId : Nat) (payload : AddressPayload)
    (t : Time) : Climbs (AddressRepository.openVersion clientId payload t) height known
      fun _ _ _ => True :=
  (insert_climbs fun _ => clears_of_le hheight).seq fun _ _ _ _ => Ascends.pure trivial

theorem upsertVersion_climbs (hheight : height ≤ 2) (clientId : Nat) (payload : AddressPayload) :
    Climbs (AddressRepository.upsertVersion clientId payload) height known fun _ _ _ => True := by
  refine (select_climbs _).seq fun h kn found hfound => ?_
  obtain ⟨rfl, d, rfl, hfound⟩ := hfound
  cases found with
  | none =>
    refine utcnow_climbs.seq fun h kn t ht => ?_
    obtain ⟨rfl, rfl⟩ := ht
    exact openVersion_climbs (Nat.le_succ_of_le hheight) clientId payload t
  | some current =>
    have hknown : known.seen keyLaws d .address current.addressId := seen_of_find rfl hfound.symm
    dsimp only
    split
    · refine utcnow_climbs.seq fun h kn t ht => ?_
      obtain ⟨rfl, rfl⟩ := ht
      refine (execute_climbs (clears_of_le hheight) (names_row hknown rfl)).seq
        fun h kn _ hh => ?_
      obtain ⟨rfl, rfl⟩ := hh
      refine openVersion_climbs ?_ clientId payload t
      exact above_le (Nat.le_succ_of_le hheight) (Nat.lt_succ_self 2)
    · exact Ascends.pure trivial

theorem transition_climbs {order : Order} (hheight : height ≤ 5) (hknown : known .orders order.orderId)
    (status : OrderStatus) (t : Time) :
    Climbs (OrderRepository.transition order status t) height known fun _ _ _ => True := by
  unfold OrderRepository.transition
  split
  · refine (execute_climbs (clears_of_le hheight) (names_row hknown rfl)).seq fun _ _ _ _ => ?_
    exact Ascends.pure trivial
  · exact Ascends.pure trivial

theorem requireOrder_climbs (uid : String) :
    Climbs (requireOrder uid) height known fun h kn order =>
      h = height ∧ kn .orders order.orderId := by
  refine (select_climbs _).seq fun h kn found hfound => ?_
  obtain ⟨rfl, d, rfl, hfound⟩ := hfound
  refine (requireDependency_climbs _ _).mono fun h kn r hr order horder => ?_
  obtain ⟨rfl, rfl, rfl⟩ := hr order horder
  exact ⟨rfl, seen_of_find rfl hfound.symm⟩

/-- The rows known before are still known. -/
theorem recordPayment_climbs (hheight : height ≤ 4) (order : Order) (data : PaymentUpdatedData)
    (t : Time) : Climbs (PaymentUpdatedHandler.recordPayment order data t) height known
      fun h kn _ => h ≤ 5 ∧ ∀ t j, known t j → kn t j := by
  have hupsert : Climbs (PaymentRepository.upsert order.orderId data.provider data.providerTxId
      data.method data.status data.amount t (decide (data.status = .approved))) height known
      fun h kn _ => h ≤ 5 ∧ ∀ t j, known t j → kn t j := by
    refine (select_climbs _).seq fun h kn found hfound => ?_
    obtain ⟨rfl, d, rfl, hfound⟩ := hfound
    cases found with
    | none =>
      refine (insert_climbs fun id => clears_of_le hheight).seq fun h kn id hid => ?_
      obtain ⟨rfl, rfl⟩ := hid
      refine Ascends.pure ⟨?_, fun t j hj => .inl hj⟩
      exact above_le (Nat.le_succ_of_le hheight) (Nat.lt_succ_self 4)
    | some payment =>
      have hknown : known.seen keyLaws d .payment payment.paymentId := seen_of_find rfl hfound.symm
      refine (flush_climbs (clears_of_le hheight) (names_row hknown rfl)).seq fun h kn _ hh => ?_
      obtain ⟨hle, rfl⟩ := hh
      refine Ascends.pure ⟨Nat.le_trans hle ?_, fun t j hj => .inl hj⟩
      exact above_le (Nat.le_succ_of_le hheight) (Nat.lt_succ_self 4)
  exact hupsert.seq fun h kn _ hh => Ascends.pure hh

theorem related_climbs {α : Type} (query : Database → Option α) :
    Climbs (PaymentUpdatedHandler.related query) height known fun _ _ _ => True := by
  refine (select_climbs _).seq fun h kn found _ => ?_
  cases found with
  | none => exact Ascends.raise
  | some row => exact Ascends.pure trivial

theorem enqueueErpNotification_climbs (order : Order) :
    Climbs (PaymentUpdatedHandler.enqueueErpNotification order) height known
      fun _ _ _ => True := by
  refine (select_climbs _).seq fun _ _ payment _ => (related_climbs _).seq fun _ _ client _ =>
    (related_climbs _).seq fun _ _ shipping _ => (related_climbs _).seq fun _ _ billing _ =>
      (select_climbs _).seq fun _ _ items _ => Ascends.seq (R := fun _ _ _ => True) ?_ fun _ _ _ _ =>
        Ascends.pure trivial
  exact utcnow_climbs.seq fun _ _ _ _ => (insert_climbs fun id => clears_of_own rfl).seq
    fun _ _ _ _ => Ascends.pure trivial

theorem addItems_climbs (orderId : Nat) (items : List OrderItemPayload) :
    Climbs (OrderRepository.addItems orderId items) height known fun _ _ _ => True := by
  induction items generalizing height known with
  | nil => exact Ascends.pure trivial
  | cons item items ih =>
    refine (requireFits_climbs _).seq fun _ _ _ _ => ?_
    exact (insert_climbs fun id => clears_of_own rfl).seq fun _ _ _ _ => ih

end Repositories

section Handlers
variable {height : Nat} {known : Rows store}

theorem clientHandler_climbs (hheight : height ≤ 1) (i : EventEnvelope) :
    Climbs (ClientUpsertedHandler.handle i) height known fun _ _ _ => True := by
  refine (validate_climbs _).seq fun h kn data hdata => ?_
  obtain ⟨rfl, rfl, _⟩ := hdata
  refine (clientUpsert_climbs hheight _ _ _ _).seq fun h kn client hh => ?_
  exact (upsertVersion_climbs hh _ _).seq fun _ _ _ _ => Ascends.pure trivial

theorem requireCurrentAddress_climbs (uid : String) :
    Climbs (OrderCreatedHandler.requireCurrentAddress uid) height known
      fun h _ _ => h = height := by
  refine (select_climbs _).seq fun h kn found hfound => ?_
  obtain ⟨rfl, _⟩ := hfound
  exact (requireDependency_climbs _ _).mono fun h kn r hr a ha => (hr a ha).1

theorem resolveBillingAddress_climbs (data : OrderCreatedData) (shipping : Address) :
    Climbs (OrderCreatedHandler.resolveBillingAddress data shipping) height known
      fun h _ _ => h = height := by
  unfold OrderCreatedHandler.resolveBillingAddress
  split
  · exact Ascends.pure rfl
  · split
    · exact Ascends.pure rfl
    · exact requireCurrentAddress_climbs _

theorem orderHandler_climbs (hheight : height ≤ 5) (i : EventEnvelope) :
    Climbs (OrderCreatedHandler.handle i) height known fun _ _ _ => True := by
  refine (validate_climbs _).seq fun h kn data hdata => ?_
  obtain ⟨rfl, rfl, _⟩ := hdata
  refine (select_climbs _).seq fun h kn found hfound => ?_
  obtain ⟨rfl, _⟩ := hfound
  split
  · exact Ascends.pure trivial
  · refine (select_climbs _).seq fun h kn client hclient => ?_
    obtain ⟨rfl, _⟩ := hclient
    refine (requireDependency_climbs _ _).seq fun h kn client hclient => ?_
    obtain ⟨rfl, _⟩ := hclient
    refine (requireCurrentAddress_climbs _).seq fun h kn shipping hshipping => ?_
    subst hshipping
    refine (resolveBillingAddress_climbs _ _).seq fun h kn billing hbilling => ?_
    subst hbilling
    refine Ascends.seq (R := fun _ _ _ => True) ?_ fun _ _ _ _ => Ascends.pure trivial
    refine (requireFits_climbs _).seq fun h kn _ hfits => ?_
    obtain ⟨rfl, rfl⟩ := hfits
    refine (insert_climbs fun id => clears_of_le hheight).seq fun _ _ _ _ => ?_
    exact (addItems_climbs _ _).seq fun _ _ _ _ => Ascends.pure trivial

theorem paymentHandler_climbs (hheight : height ≤ 4) (i : EventEnvelope) :
    Climbs (PaymentUpdatedHandler.handle i) height known fun _ _ _ => True := by
  refine (validate_climbs _).seq fun h kn data hdata => ?_
  obtain ⟨rfl, rfl, _⟩ := hdata
  refine (requireOrder_climbs _).seq fun h kn order horder => ?_
  obtain ⟨rfl, hknown⟩ := horder
  refine (recordPayment_climbs hheight _ _ _).seq fun h kn' _ hh => ?_
  obtain ⟨hh, hkeeps⟩ := hh
  split
  · refine (transition_climbs hh (hkeeps _ _ hknown) _ _).seq fun _ _ moved _ => ?_
    cases moved with
    | none => exact Ascends.pure trivial
    | some approved => exact enqueueErpNotification_climbs approved
  · exact Ascends.pure trivial

theorem invoiceHandler_climbs (hheight : height ≤ 4) (i : EventEnvelope) :
    Climbs (InvoiceIssuedHandler.handle i) height known fun _ _ _ => True := by
  refine (validate_climbs _).seq fun h kn data hdata => ?_
  obtain ⟨rfl, rfl, _⟩ := hdata
  refine (requireOrder_climbs _).seq fun h kn order horder => ?_
  obtain ⟨rfl, hknown⟩ := horder
  refine (select_climbs _).seq fun h kn' found hfound => ?_
  obtain ⟨rfl, d, rfl, _⟩ := hfound
  split
  · exact Ascends.pure trivial
  · refine Ascends.seq (R := fun h kn' _ => h ≤ 5 ∧ kn' TableName.orders order.orderId) ?_
      fun h kn' _ hh => ?_
    · refine (insert_climbs fun id => clears_of_le hheight).seq fun h kn' id hid => ?_
      obtain ⟨rfl, rfl⟩ := hid
      refine Ascends.pure ⟨?_, .inl hknown⟩
      exact above_le (Nat.le_succ_of_le hheight) (Nat.lt_succ_self 4)
    · exact (transition_climbs hh.1 hh.2 _ _).seq fun _ _ _ _ => Ascends.pure trivial

theorem handler_climbs (hheight : height ≤ 1) (t : EventType) (i : EventEnvelope) :
    Climbs (handlerOf t i) height known fun _ _ _ => True := by
  cases t with
  | clientUpserted => exact clientHandler_climbs hheight i
  | orderCreated => exact orderHandler_climbs (by omega) i
  | paymentUpdated => exact paymentHandler_climbs (by omega) i
  | invoiceIssued => exact invoiceHandler_climbs (by omega) i

end Handlers

section Processor
variable {height : Nat} {known : Rows store}

theorem summarize_lockless (e : Exn) : (summarize e).Uses Lockless := by
  unfold summarize
  split <;> trivial

theorem rollback_lockless : UnitOfWork.rollback.Uses Lockless := Program.Uses.perform trivial

theorem failed_lockless (i : EventEnvelope) (e : Exn) :
    (EventProcessor.failed i e).Uses Lockless := by
  refine Program.Uses.andThen (Program.Uses.handle ?_ fun _ => trivial) fun _ => ?_
  · exact (Program.Uses.perform trivial).andThen fun _ => trivial
  · split
    · trivial
    · exact (summarize_lockless e).andThen fun _ => trivial

theorem claim_ascends (eventId : String) :
    Ascends keyLaws lockOrder (RedisDeduplicator.claim eventId) height known
      fun h _ _ => h = height :=
  Ascends.handle (Ascends.perform ⟨fun _ => rfl, fun _ => rfl⟩)

theorem claimInLedger_ascends (i : EventEnvelope) :
    Ascends keyLaws lockOrder (EventProcessor.claimInLedger i) 0 known
      fun h _ r => r = .ok true → h ≤ 1 := by
  have hnames : lockOrder.Names known (.executed (.registerEvent ⟨i.eventId, i.eventType⟩)) := by
    intro t j hmem
    cases List.mem_singleton.mp hmem
  refine Ascends.handle (Ascends.andThen (Ascends.perform ⟨?_, hnames, ?_, fun e => ?_⟩))
  · exact clears_of_le (Nat.le_refl 0)
  · exact fun _ => above_le (Nat.zero_le 1) Nat.zero_lt_one
  · cases e with
    | integrity c => exact fun h => by cases h
    | fault m => exact fun h => by cases h
    | app e => exact fun h => by cases h

theorem applyHandler_ascends (hheight : height ≤ 1) (t : EventType) (i : EventEnvelope) :
    Ascends keyLaws lockOrder (EventProcessor.applyHandler (handlerOf t) i) height known
      fun _ _ _ => True := by
  have hhandler : Ascends keyLaws lockOrder (handlerOf t i) height known fun _ _ _ => True :=
    (handler_climbs hheight t i).mono fun _ _ _ _ => trivial
  refine Ascends.handle_lockless (hhandler.andThen_lockless fun _ => ?_) fun e => ?_
  · exact (Program.Uses.perform trivial).andThen fun _ => trivial
  · cases e with
    | integrity c => exact rollback_lockless.andThen fun _ => trivial
    | fault | app => trivial

theorem scope_ascends {α : Type} {body : Session α}
    (hbody : Ascends keyLaws lockOrder body height known fun _ _ _ => True) :
    Ascends keyLaws lockOrder (UnitOfWork.scope body) height known fun _ _ _ => True := by
  refine Ascends.andThen_lockless (Ascends.handle_lockless ?_ fun e => ?_) fun result => ?_
  · exact hbody.andThen_lockless fun _ => trivial
  · exact rollback_lockless.andThen fun _ => trivial
  · refine rollback_lockless.andThen fun _ => ?_
    cases result <;> trivial

theorem apply_ascends (i : EventEnvelope) :
    Ascends keyLaws lockOrder (EventProcessor.apply buildRegistry i) 0 known
      fun _ _ _ => True := by
  have hget : buildRegistry.get i.eventType = .done (handlerOf i.eventType) := by
    simp [HandlerRegistry.get]
  unfold EventProcessor.apply
  rw [hget]
  refine scope_ascends (Ascends.andThen ((claimInLedger_ascends i).mono fun h kn r hr => ?_))
  cases r with
  | error e => trivial
  | ok registered =>
    cases registered with
    | true => exact applyHandler_ascends (hr rfl) i.eventType i
    | false => trivial

/-- Whatever the answers are, an attempt takes its locks in their order. -/
theorem ingest_ascends (i : EventEnvelope) :
    Ascends keyLaws lockOrder (ingest i) 0 (fun _ _ => False) fun _ _ _ => True := by
  unfold ingest EventProcessor.process
  split
  · refine Ascends.andThen ((claim_ascends i.eventId).mono fun h kn r hh => ?_)
    subst hh
    cases r with
    | error e => trivial
    | ok claimed =>
      cases claimed with
      | true => exact (apply_ascends i).handle_lockless (failed_lockless i)
      | false => trivial
  · trivial

end Processor

theorem IngestReachable.ordered {s : IngestState} (hs : IngestReachable s) :
    Ordered keyLaws lockOrder s := by
  obtain ⟨clock, reserved, hs⟩ := hs
  exact hs.invariant (Ordered.initial clock reserved) fun _ _ _ h hst => h.step ingest_ascends hst

/-- The workers never stall. While an attempt is under way, one can have its next operation
answered or end; no schedule keeps attempts going for ever; and the attempts under way can
all come to their end, with every lock given back. -/
theorem attempts_neverStall {s : IngestState} (hs : IngestReachable s) :
    ((∃ n, (s.active n).isSome) → ∃ n, (step engine ingest s (.exec n .ok)).isSome ∨
      (step engine ingest s (.finish n)).isSome) ∧
    (¬ ∃ schedule : Nat → IngestState, schedule 0 = s ∧
      ∀ k, Advances engine ingest (schedule (k + 1)) (schedule k)) ∧
    ∃ ls t, (∀ l ∈ ls, Going l) ∧ ingestRun s ls = some t ∧
      (∀ n, t.active n = none) ∧ ∀ l, t.shared.owner l = none := by
  refine ⟨hs.ordered.advances, ?_, hs.ordered.completes ingest_ascends⟩
  intro hschedule
  exact not_acc_iff_exists_descending_chain.mpr hschedule (advances_acc hs.ordered.wellFormed)

namespace Sample

/-- Two workers insert the same client: the second one waits. -/
def rivals : List IngestLabel :=
  .start clientEvent :: steps 0 5 ++
    .start (envelope evtClient2 .clientUpserted { invalid with clientUpserted := .ok client }) ::
      steps 1 4

def rivalsState : IngestState := (after rivals).get (by decide +kernel)

end Sample

theorem attempts_neverStall_rivals :
    (step engine ingest Sample.rivalsState (.exec 1 .ok)).isNone = true ∧
    (∃ n, (step engine ingest Sample.rivalsState (.exec n .ok)).isSome ∨
      (step engine ingest Sample.rivalsState (.finish n)).isSome) ∧
    (¬ ∃ schedule : Nat → IngestState, schedule 0 = Sample.rivalsState ∧
      ∀ k, Advances engine ingest (schedule (k + 1)) (schedule k)) ∧
    ∃ ls t, (∀ l ∈ ls, Going l) ∧ ingestRun Sample.rivalsState ls = some t ∧
      (∀ n, t.active n = none) ∧ ∀ l, t.shared.owner l = none := by
  obtain ⟨hgoes, hends, hcompletes⟩ := attempts_neverStall
    (Sample.after_reachable (by decide +kernel : (Sample.after Sample.rivals).isSome = true))
  exact ⟨by decide +kernel, hgoes ⟨0, by decide +kernel⟩, hends, hcompletes⟩

end EcommerceIntegration
