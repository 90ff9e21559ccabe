import EcommerceIntegration.Ingest.ExactlyOnce
import EcommerceIntegration.Ingest.OrderRuns

/-!
# What a transaction does to the orders and to the outbox

A transaction that approves an order puts one `order.approved` row into the outbox,
one that invoices it has read it as APPROVED, and no other transaction updates an order.
-/

namespace EcommerceIntegration

set_option autoImplicit false

open Transaction

def OutboxMessage.notifies (orderUid : String) (m : OutboxMessage) : Bool :=
  m.eventType == PaymentUpdatedHandler.orderApprovedEvent && m.aggregateId == orderUid

/-- The number of `order.approved` rows of an order. -/
def notifications (d : Database) (orderUid : String) : Nat :=
  d.outbox.countP (OutboxMessage.notifies orderUid)

/-! ## What a transaction adds to the outbox and does to the orders -/

def newMessages (ws : List Change) : List OutboxMessage :=
  ws.filterMap fun c =>
    match c with
    | .inserted (.outbox m) id => some { m with outboxId := id }
    | _ => none

theorem outbox_replay (d : Database) (ws : List Change) :
    (engine.replay d ws).outbox = d.outbox ++ newMessages ws := by
  induction ws generalizing d with
  | nil => simp [newMessages]
  | cons c ws ih =>
    rw [Engine.replay_cons, ih]
    cases c with
    | inserted row id =>
      cases row with
      | outbox m => simp [newMessages, engine, Database.apply, Database.insert]
      | client | address | order | orderItem | payment | invoice => rfl
    | executed stmt => cases stmt <;> rfl

theorem notifications_replay (d : Database) (ws : List Change) (uid : String) :
    notifications (engine.replay d ws) uid =
      notifications d uid + (newMessages ws).countP (OutboxMessage.notifies uid) := by
  rw [notifications, outbox_replay, List.countP_append]
  rfl

/-- Notifications are never taken back. -/
theorem notifications_le {h h' : History} (hle : h <+: h') (uid : String) :
    notifications (engine.state h) uid ≤ notifications (engine.state h') uid := by
  obtain ⟨later, rfl⟩ := hle
  induction later using List.reverseRecOn with
  | nil => simp
  | append_singleton later c ih =>
    rw [← List.append_assoc, Engine.state_concat, notifications_replay]
    omega

/-- An order after the writes `ws`: one that was there or is inserted by them, with the
status it had or one that they set. -/
theorem order_of_replay {d : Database} {ws : List Change} {o' : Order}
    (ho' : o' ∈ (engine.replay d ws).orders) :
    ∃ o, o.fixed = o'.fixed ∧
      (o ∈ d.orders ∨ ∃ r, .inserted (.order r) o.orderId ∈ ws ∧ o.status = r.status) ∧
      (o'.status = o.status ∨ ∃ t, .executed (.updateOrder o.orderId o'.status t) ∈ ws) := by
  induction ws using List.reverseRecOn generalizing o' with
  | nil => exact ⟨o', rfl, .inl ho', .inl rfl⟩
  | append_singleton ws c ih =>
    rw [Engine.replay_append, Engine.replay_cons, Engine.replay_nil] at ho'
    have keep : o' ∈ (engine.replay d ws).orders → ∃ o, o.fixed = o'.fixed ∧
        (o ∈ d.orders ∨ ∃ r, .inserted (.order r) o.orderId ∈ ws ++ [c] ∧ o.status = r.status) ∧
        (o'.status = o.status ∨
          ∃ t, .executed (.updateOrder o.orderId o'.status t) ∈ ws ++ [c]) := by
      intro hold
      obtain ⟨o, hfixed, hsource, hstatus⟩ := ih hold
      refine ⟨o, hfixed, hsource.imp_right ?_, hstatus.imp_right ?_⟩
      · rintro ⟨r, hr, hs⟩
        exact ⟨r, List.mem_append_left _ hr, hs⟩
      · rintro ⟨t, ht⟩
        exact ⟨t, List.mem_append_left _ ht⟩
    cases c with
    | inserted row id =>
      cases row with
      | order r =>
        rcases List.mem_append.mp ho' with hold | hnew
        · exact keep hold
        · obtain rfl := List.mem_singleton.mp hnew
          exact ⟨_, rfl, .inr ⟨r, by simp, rfl⟩, .inl rfl⟩
      | client | address | orderItem | payment | invoice | outbox => exact keep ho'
    | executed stmt =>
      cases stmt with
      | updateOrder id status t =>
        obtain ⟨p, hp, ⟨hid, rfl⟩ | ⟨_, rfl⟩⟩ := mem_updateWhere.mp ho'
        · obtain ⟨o, hfixed, hsource, _⟩ := ih hp
          have hoid := Order.id_of_fixed hfixed
          refine ⟨o, hfixed, hsource.imp_right ?_, .inr ⟨t, ?_⟩⟩
          · rintro ⟨r, hr, hs⟩
            exact ⟨r, List.mem_append_left _ hr, hs⟩
          · rw [hoid, show p.orderId = id by simpa using hid]
            simp [Order.set]
        · exact keep hp
      | registerEvent | updateClient | closeAddress | updatePayment => exact keep ho'

section Status
variable {S : OrderStatus → Prop} {d : Database} {ws : List Change}

/-- What the UPDATEs of the order's status keep stays true of it. -/
theorem status_replay_of {o : Order}
    (hws : ∀ status t, .executed (.updateOrder o.orderId status t) ∈ ws → S status)
    (ho : o ∈ d.orders) (hS : S o.status) :
    ∃ o' ∈ (engine.replay d ws).orders, o'.fixed = o.fixed ∧ S o'.status := by
  induction ws using List.reverseRecOn with
  | nil => exact ⟨o, ho, rfl, hS⟩
  | append_singleton ws c ih =>
    obtain ⟨o', ho', hfixed, hS'⟩ :=
      ih fun status t hmem => hws status t (List.mem_append_left _ hmem)
    rw [Engine.replay_append, Engine.replay_cons, Engine.replay_nil]
    cases c with
    | inserted row id =>
      cases row with
      | order r => exact ⟨o', List.mem_append_left _ ho', hfixed, hS'⟩
      | client | address | orderItem | payment | invoice | outbox =>
        exact ⟨o', ho', hfixed, hS'⟩
    | executed stmt =>
      cases stmt with
      | updateOrder id status t =>
        by_cases hid : o'.orderId = id
        · refine ⟨o'.set status t, mem_updateWhere.mpr ⟨o', ho', .inl ⟨by simpa using hid, rfl⟩⟩,
            hfixed, ?_⟩
          refine hws status t ?_
          rw [← Order.id_of_fixed hfixed, hid]
          simp
        · exact ⟨o', mem_updateWhere.mpr ⟨o', ho', .inr ⟨by simpa using hid, rfl⟩⟩, hfixed, hS'⟩
      | registerEvent | updateClient | closeAddress | updatePayment =>
        exact ⟨o', ho', hfixed, hS'⟩

/-- What all UPDATEs of the status keep stays true of an order. -/
theorem status_replay
    (hws : ∀ id status t, .executed (.updateOrder id status t) ∈ ws → S status)
    {o : Order} (ho : o ∈ d.orders) (hS : S o.status) :
    ∃ o' ∈ (engine.replay d ws).orders, o'.fixed = o.fixed ∧ S o'.status :=
  status_replay_of (fun status t hmem => hws _ status t hmem) ho hS

/-- An order has the status that the transaction sets. -/
theorem status_of_update
    (hws : ∀ id status t, .executed (.updateOrder id status t) ∈ ws → S status)
    {o : Order} (ho : o ∈ d.orders) {status : OrderStatus} {t : Option Time}
    (hu : .executed (.updateOrder o.orderId status t) ∈ ws) :
    ∃ o' ∈ (engine.replay d ws).orders, o'.fixed = o.fixed ∧ S o'.status := by
  obtain ⟨us, vs, rfl⟩ := List.append_of_mem hu
  obtain ⟨p, hp, hfixed⟩ := List.mem_map.mp (orders_grow.replay d us (List.mem_map_of_mem ho))
  have hid : p.orderId = o.orderId := Order.id_of_fixed hfixed
  have hset : p.set status t ∈
      (engine.apply (engine.replay d us) (.executed (.updateOrder o.orderId status t))).orders :=
    mem_updateWhere.mpr ⟨p, hp, .inl ⟨by simpa using hid, rfl⟩⟩
  have hvs : ∀ id s t', .executed (.updateOrder id s t') ∈ vs → S s :=
    fun id s t' hmem => hws id s t' (by simp [hmem])
  obtain ⟨o', ho', hfixed', hS⟩ := status_replay hvs hset (hws _ _ _ hu)
  refine ⟨o', ?_, hfixed'.trans hfixed, hS⟩
  rwa [Engine.replay_append, Engine.replay_cons]

end Status

/-! ## What one transaction does to an order -/

def approvesOrder (orderId : Nat) (c : Change) : Bool :=
  match c with
  | .executed (.updateOrder id .approved _) => id == orderId
  | _ => false

theorem mem_of_approves {ws : List Change} {id : Nat} (h : ws.any (approvesOrder id) = true) :
    ∃ t, .executed (.updateOrder id .approved t) ∈ ws := by
  obtain ⟨c, hc, hupdate⟩ := List.any_eq_true.mp h
  unfold approvesOrder at hupdate
  split at hupdate
  · rename_i id' t
    obtain rfl : id' = id := by simpa using hupdate
    exact ⟨t, hc⟩
  · cases hupdate

theorem approves_of_mem {ws : List Change} {id : Nat} {t : Option Time}
    (h : .executed (.updateOrder id .approved t) ∈ ws) : ws.any (approvesOrder id) = true :=
  List.any_eq_true.mpr ⟨_, h, by simp [approvesOrder]⟩

/-- The status updates and the messages of a transaction that is committed after `h`. -/
inductive OrderEffect (h : History) (ws : List Change) : Prop
  | silent (orders : ∀ id status t, .executed (.updateOrder id status t) ∉ ws)
      (outbox : newMessages ws = [])
  | approves {o h₁ t m} (read : h₁ <+: h) (stored : o ∈ (engine.state h₁).orders)
      (pending : o.status = .pending) (update : .executed (.updateOrder o.orderId .approved t) ∈ ws)
      (orders : ∀ id status t, .executed (.updateOrder id status t) ∈ ws →
        id = o.orderId ∧ status = .approved)
      (outbox : newMessages ws = [m]) (notifies : ∀ uid, m.notifies uid = (o.orderUid == uid))
  | invoices {o h₁} (read : h₁ <+: h) (stored : o ∈ (engine.state h₁).orders)
      (approved : o.status = .approved)
      (orders : ∀ id status t, .executed (.updateOrder id status t) ∈ ws →
        id = o.orderId ∧ status = .invoiced)
      (outbox : newMessages ws = [])

/-- A transaction that approves an order does nothing else to orders. -/
theorem OrderEffect.only_approves {h : History} {ws : List Change} (he : OrderEffect h ws)
    {id : Nat} {t : Option Time} (ha : .executed (.updateOrder id .approved t) ∈ ws) :
    ∀ id' status t', .executed (.updateOrder id' status t') ∈ ws → status = .approved := by
  intro id' status t' hu
  cases he with
  | silent orders => exact absurd hu (orders _ _ _)
  | approves _ _ _ _ orders => exact (orders _ _ _ hu).2
  | invoices _ _ _ orders => cases (orders _ _ _ ha).2

section Effects
variable {i : EventEnvelope} {h h' : History} {ws ws' : List Change}

theorem newMessages_append (us ws : List Change) :
    newMessages (us ++ ws) = newMessages us ++ newMessages ws := List.filterMap_append

/-- The handlers of clients and orders leave stored orders and the outbox alone. -/
theorem OrderEffect.of_writes {t : EventType} (ht : t = .clientUpserted ∨ t = .orderCreated)
    {new : List Change} (hnew : ∀ c ∈ new, HandlerWrite t c) :
    OrderEffect h (ledgerRow i :: new) := by
  refine .silent (fun id status t' hmem => ?_) ?_
  · rcases List.mem_cons.mp hmem with hmem | hmem
    · cases hmem
    · have hwrite := hnew _ hmem
      rcases ht with rfl | rfl <;> exact hwrite
  · refine List.filterMap_eq_nil_iff.mpr fun c hc => ?_
    rcases List.mem_cons.mp hc with rfl | hc
    · rfl
    · have hwrite := hnew c hc
      cases c with
      | inserted row id =>
        cases row with
        | outbox m => rcases ht with rfl | rfl <;> exact hwrite.elim
        | client | address | order | orderItem | payment | invoice => rfl
      | executed stmt => rfl

theorem recordUpdate_cases (data : PaymentUpdatedData) (p : Payment) :
    recordUpdate data p = [] ∨
      ∃ s t, recordUpdate data p = [.executed (.updatePayment p.paymentId s t)] := by
  unfold recordUpdate
  dsimp only
  split
  · exact .inr ⟨_, _, rfl⟩
  · exact .inl rfl

theorem Recorded.silent {R : Rely store EventEnvelope} {orderId : Nat} {data : PaymentUpdatedData}
    {record : List Change} (hr : Recorded R orderId data h ws h' record) :
    (∀ id status t, .executed (.updateOrder id status t) ∉ record) ∧ newMessages record = [] := by
  cases hr with
  | created => exact ⟨by simp, rfl⟩
  | updated read later found =>
    rename_i p
    rcases recordUpdate_cases data p with heq | ⟨s, t, heq⟩
    · rw [heq]
      exact ⟨by simp, rfl⟩
    · rw [heq]
      exact ⟨by simp, rfl⟩

theorem paymentHandler_orderEffect {u : Unit}
    (hr : Runs keyLaws others (PaymentUpdatedHandler.handle i) h [ledgerRow i] h' ws (.value u)) :
    OrderEffect h' ws := by
  obtain ⟨data, o, h₁, h₂, record, approval, _, _, hle₂, hle₃, ho, hrecord, happroval, rfl⟩ :=
    paymentHandler_runs hr
  obtain ⟨hupdates, hmessages⟩ := hrecord.silent
  have hledger : newMessages [ledgerRow i] = [] := rfl
  cases happroval with
  | none =>
    refine .silent (fun id status t hmem => ?_) ?_
    · simp only [List.append_nil, List.mem_append, List.mem_singleton] at hmem
      rcases hmem with hmem | hmem
      · cases hmem
      · exact hupdates id status t hmem
    · rw [List.append_nil, newMessages_append, hmessages]
      rfl
  | now approves pending update later notifies =>
    rename_i t m id h₃
    refine .approves (hle₂.trans hle₃) (List.mem_of_find?_eq_some ho) pending
      (t := t) (m := { m with outboxId := id }) (by simp) (fun id status t hmem => ?_) ?_ ?_
    · simp only [List.mem_append, List.mem_cons, List.not_mem_nil, or_false, reduceCtorEq] at hmem
      rcases hmem with (hmem | hmem) | hmem
      · cases hmem
      · exact absurd hmem (hupdates id status t)
      · cases hmem
        exact ⟨rfl, rfl⟩
    · simp only [newMessages_append, hledger, hmessages, List.nil_append]
      rfl
    · intro uid
      simp [OutboxMessage.notifies, notifies.eventType, notifies.aggregate, Order.set]

/-- A complete effect is of one of the three kinds. -/
theorem CompleteEffect.orderEffect (hc : CompleteEffect others i h ws) : OrderEffect h ws := by
  obtain ⟨h₀, _, hr⟩ := hc
  obtain ⟨new, rfl, hnew⟩ := hr.writes (handler_straight i.eventType i)
  cases ht : i.eventType with
  | clientUpserted => exact .of_writes (.inl rfl) (ht ▸ hnew)
  | orderCreated => exact .of_writes (.inr rfl) (ht ▸ hnew)
  | paymentUpdated =>
    rw [ht] at hr
    exact paymentHandler_orderEffect hr
  | invoiceIssued =>
    rw [ht] at hr
    obtain ⟨data, o, h₁, written, _, _, hle, ho, hwritten, heq⟩ := invoiceHandler_runs hr
    rw [heq]
    cases hwritten with
    | known =>
      refine .silent (fun id status t hmem => ?_) rfl
      simp [ledgerRow] at hmem
    | issued =>
      refine .silent (fun id status t hmem => ?_) rfl
      simp [ledgerRow] at hmem
    | closes read later absent approved =>
      refine .invoices hle (List.mem_of_find?_eq_some ho) approved (fun id status t hmem => ?_) rfl
      simp only [ledgerRow, List.mem_append, List.mem_cons, List.not_mem_nil, or_false,
        Change.executed.injEq, reduceCtorEq, false_or, Stmt.updateOrder.injEq] at hmem
      exact ⟨hmem.1, hmem.2.1⟩

end Effects

end EcommerceIntegration
