import EcommerceIntegration.Dispatch.Acknowledged
import EcommerceIntegration.Dispatch.Documents

/-!
# Database, dispatch workers and ERP

The ingest workers commit rows to the outbox, the dispatch workers send them, the service
answers. A run of all three is a run of dispatch and service into which the committed
messages are inserted, so what holds of those runs holds here, and it is about the orders
of the database.
-/

namespace EcommerceIntegration

set_option autoImplicit false

structure Backend where
  ingest : IngestState
  erp : ErpSystem

inductive BackendLabel
  | ingest (l : IngestLabel)
  | erp (l : ErpLabel)

def BackendLabel.ofIngest : BackendLabel → Option IngestLabel
  | .ingest l => some l
  | .erp _ => none

def BackendLabel.ofErp : BackendLabel → Option ErpLabel
  | .ingest _ => none
  | .erp l => some l

namespace Backend

/-- Only the ingest workers insert. -/
def inserts : ErpLabel → Bool
  | .worker l => Pipeline.inserts l
  | _ => false

def arrive (s : ErpSystem) (rows : List OutboxMessage) : ErpSystem :=
  { s with dispatch := Pipeline.arrive s.dispatch rows }

def step (settings : Settings) (s : Backend) : BackendLabel → Option Backend
  | .ingest l =>
    (Transaction.step engine EcommerceIntegration.ingest s.ingest l).map fun ingest =>
      ⟨ingest, arrive s.erp (Pipeline.arriving s.ingest l)⟩
  | .erp l => if inserts l then none else (s.erp.step settings l).map fun erp => { s with erp }

def initial (clock : Time) (reserved : List String) : Backend :=
  ⟨Transaction.initial clock reserved, ErpSystem.initial clock⟩

def run (settings : Settings) (s : Backend) (ls : List BackendLabel) : Option Backend :=
  Transition.run (step settings) s ls

/-! ## Commits as insertions -/

section Arrive
variable {settings : Settings} {s : ErpSystem}

def insertion (m : OutboxMessage) : ErpLabel := .worker (.enqueue m)

theorem step_insertion {m : OutboxMessage} (hnew : m.isNew = true)
    (hid : m.outboxId ∉ s.dispatch.board.outbox.map OutboxMessage.outboxId) :
    s.step settings (insertion m) = some (arrive s [m]) := by
  have hguard : (m.isNew && !(s.dispatch.board.outbox.map OutboxMessage.outboxId).contains
      m.outboxId) = true := by
    simpa [hnew] using hid
  simp only [ErpSystem.step, insertion, ErpSystem.unanswered, if_true, DispatchState.step,
    DispatchState.control, DispatchState.action, Board.act, hguard, Option.bind_some,
    Option.map_some]
  rfl

theorem run_insertions {rows : List OutboxMessage} (hnew : ∀ m ∈ rows, m.isNew = true)
    (hids : ((s.dispatch.board.outbox ++ rows).map OutboxMessage.outboxId).Nodup) :
    s.run settings (rows.map insertion) = some (arrive s rows) := by
  induction rows generalizing s with
  | nil => simp [ErpSystem.run, arrive, Pipeline.arrive]
  | cons m rows ih =>
    have hfresh : m.outboxId ∉ s.dispatch.board.outbox.map OutboxMessage.outboxId := by
      rw [List.map_append, List.map_cons, List.nodup_middle, List.nodup_cons] at hids
      exact fun hmem => hids.1 (List.mem_append_left _ hmem)
    refine Transition.run_cons_eq_some.mpr
      ⟨_, step_insertion (hnew m List.mem_cons_self) hfresh, ?_⟩
    have hrest := ih (s := arrive s [m]) (fun m' hm' => hnew m' (List.mem_cons_of_mem m hm'))
      (by simpa [arrive, Pipeline.arrive] using hids)
    simpa [ErpSystem.run, arrive, Pipeline.arrive] using hrest

end Arrive

theorem outboxIds_nodup {d : Database} (hd : d.keys.Nodup) :
    (d.outbox.map OutboxMessage.outboxId).Nodup := by
  simp only [Database.keys, List.nodup_append] at hd
  have hkeys : d.outbox.flatMap OutboxMessage.keys =
      (d.outbox.map OutboxMessage.outboxId).map (Lock.row .outbox) := by
    rw [List.map_map]
    exact List.flatMap_pure_eq_map _ _
  exact (hkeys ▸ hd.2.1).of_map _

/-- What a commit inserts is PENDING and was never claimed. -/
theorem isNew_arriving {s t : IngestState} {l : IngestLabel} (hs : IngestReachable t)
    (h : Transaction.step engine EcommerceIntegration.ingest s l = some t) {m : OutboxMessage}
    (hm : m ∈ Pipeline.arriving s l) : m.isNew = true := by
  obtain ⟨c, hc, hm⟩ := List.mem_flatMap.mp hm
  obtain ⟨m₀, id, hinserted, rfl⟩ := mem_newMessages hm
  have hh := hs.consistent
  rw [Transaction.step_committing h, Option.mem_toList.mp hc] at hh
  obtain ⟨_, _, _, _, _, _, _, _, hdrawn⟩ := hh.effect.drawn hinserted
  exact hdrawn.isNew

/-! ## Every run is a run of its parts -/

/-- What the state comes from: a run of the ingest workers, and a run of dispatch and
service whose insertions are the committed messages. -/
structure Composed (settings : Settings) (clock : Time) (reserved : List String) (s : Backend)
    (js : List IngestLabel) (ks : List ErpLabel) : Prop where
  ingest : ingestRun (Transaction.initial clock reserved) js = some s.ingest
  erp : (ErpSystem.initial clock).run settings ks = some s.erp
  inserted : ks.flatMap ErpSystem.inserted = (committed s.ingest).outbox

section Runs
variable {settings : Settings} {clock : Time} {reserved : List String} {s : Backend}
  {js : List IngestLabel} {ks : List ErpLabel}

theorem inserted_insertions (rows : List OutboxMessage) :
    (rows.map insertion).flatMap ErpSystem.inserted = rows := by
  induction rows with
  | nil => rfl
  | cons m rows ih => simpa [insertion, ErpSystem.inserted] using ih

theorem Composed.ids (hs : Composed settings clock reserved s js ks) :
    s.erp.dispatch.board.outbox.map OutboxMessage.outboxId =
      (committed s.ingest).outbox.map OutboxMessage.outboxId := by
  have hletters := congrArg (List.map Prod.fst) (ErpSystem.letters_run hs.erp)
  rw [hs.inserted, Board.letters, List.map_map, List.map_map] at hletters
  exact hletters

theorem Composed.step_ingest {ingest : IngestState} {j : IngestLabel}
    (hs : Composed settings clock reserved s js ks)
    (hst : Transaction.step engine EcommerceIntegration.ingest s.ingest j = some ingest) :
    Composed settings clock reserved ⟨ingest, arrive s.erp (Pipeline.arriving s.ingest j)⟩
      (js ++ [j]) (ks ++ (Pipeline.arriving s.ingest j).map insertion) := by
  have hrun : ingestRun (Transaction.initial clock reserved) (js ++ [j]) = some ingest :=
    Transition.run_concat_eq_some.mpr ⟨s.ingest, hs.ingest, hst⟩
  have hreach := reachable_of_run hrun
  have houtbox := Pipeline.address_arriving s.ingest j hst
  refine ⟨hrun, ?_, ?_⟩
  · refine Transition.run_append_eq_some.mpr ⟨s.erp, hs.erp, ?_⟩
    refine run_insertions (fun m hm => isNew_arriving hreach hst hm) ?_
    rw [List.map_append, hs.ids, ← List.map_append, ← houtbox]
    exact outboxIds_nodup hreach.consistent.keys
  · rw [List.flatMap_append, hs.inserted, inserted_insertions, houtbox]

theorem inserted_eq_nil {k : ErpLabel} (h : inserts k = false) : ErpSystem.inserted k = [] := by
  cases k with
  | worker l =>
    cases l with
    | enqueue m => cases h
    | start | poll | stop | release | claim | post | reply | mark | markFails | gathered | die
    | lose | tick => rfl
  | receive | wake | fail | deliver => rfl

theorem Composed.step_erp {erp : ErpSystem} {k : ErpLabel} (hnot : inserts k = false)
    (hs : Composed settings clock reserved s js ks) (hst : s.erp.step settings k = some erp) :
    Composed settings clock reserved { s with erp } js (ks ++ [k]) := by
  refine ⟨hs.ingest, Transition.run_concat_eq_some.mpr ⟨_, hs.erp, hst⟩, ?_⟩
  rw [List.flatMap_append, hs.inserted, List.flatMap_singleton, inserted_eq_nil hnot,
    List.append_nil]

/-- Every run of the whole is a run of the ingest workers and one of dispatch and service,
with the steps that each of them takes and exactly the committed messages inserted. -/
theorem composed_run {ls : List BackendLabel}
    (hrun : (initial clock reserved).run settings ls = some s) :
    ∃ ks, Composed settings clock reserved s (ls.filterMap BackendLabel.ofIngest) ks ∧
      ks.filter (fun k => !inserts k) = ls.filterMap BackendLabel.ofErp := by
  induction ls using List.reverseRecOn generalizing s with
  | nil =>
    cases hrun
    exact ⟨[], ⟨rfl, rfl, rfl⟩, rfl⟩
  | append_singleton ls l ih =>
    obtain ⟨s', hrun', hst⟩ := Transition.run_concat_eq_some.mp hrun
    obtain ⟨ks, hs, hown⟩ := ih hrun'
    rw [List.filterMap_append, List.filterMap_append]
    cases l with
    | ingest j =>
      obtain ⟨ingest, hingest, rfl⟩ := Option.map_eq_some_iff.mp hst
      refine ⟨_, hs.step_ingest hingest, ?_⟩
      have hnone : ((Pipeline.arriving s'.ingest j).map insertion).filter (fun k => !inserts k) =
          [] := by
        simp [insertion, inserts, Pipeline.inserts]
      rw [List.filter_append, hown, hnone]
      rfl
    | erp k =>
      simp only [Backend.step] at hst
      split at hst
      · cases hst
      · rename_i hnot
        obtain ⟨erp, herp, rfl⟩ := Option.map_eq_some_iff.mp hst
        have hnot' : inserts k = false := by simpa using hnot
        have hjs : ls.filterMap BackendLabel.ofIngest ++ [.erp k].filterMap BackendLabel.ofIngest =
            ls.filterMap BackendLabel.ofIngest := List.append_nil _
        refine ⟨_, hjs ▸ hs.step_erp hnot' herp, ?_⟩
        rw [List.filter_append, hown]
        simp [hnot', BackendLabel.ofErp]

/-! ## What the service has of the database -/

theorem Composed.letters (hs : Composed settings clock reserved s js ks) :
    s.erp.dispatch.board.letters = (committed s.ingest).outbox.map OutboxMessage.letter := by
  rw [ErpSystem.letters_run hs.erp, hs.inserted]

theorem Composed.describes (hs : Composed settings clock reserved s js ks) {x : Letter}
    (hx : x ∈ s.erp.dispatch.board.letters) :
    ∃ o ∈ (committed s.ingest).orders, (o.status = .approved ∨ o.status = .invoiced) ∧
      x.2.1 = o.orderUid ∧ Describes (committed s.ingest) x.2.2 o := by
  rw [hs.letters] at hx
  obtain ⟨m, hm, rfl⟩ := List.mem_map.mp hx
  exact message_describes (reachable_of_run hs.ingest).consistent hm

/-- The record is the order as the database has it. -/
structure RecordsOrder (d : Database) (record : ErpMock.ErpRecord) (o : Order) : Prop where
  orderUid : record.orderUid = o.orderUid
  totalAmount : record.totalAmount = o.totalAmount
  items : record.items = (itemsOf d o.orderId).length
  city : ∃ a, addressById d o.shippingAddressId = some a ∧ record.city = a.fields.city

theorem Describes.recordsOrder {d : Database} {payload : OrderPayload} {o : Order}
    {record : ErpMock.ErpRecord} (hd : Describes d payload o)
    (hrecord : ErpSystem.RecordOf payload record) : RecordsOrder d record o := by
  obtain ⟨a, ha, hsection⟩ := hd.shipping
  rw [hrecord]
  exact {
    orderUid := hd.orderUid
    totalAmount := hd.totalAmount
    items := by simp [ErpMock.register, hd.items]
    city := ⟨a, ha, by simp [ErpMock.register, hsection, addressSection]⟩ }

/-- The document of every request describes an order of the database that is APPROVED or
INVOICED, as the order is now. -/
theorem request_describes {ls : List BackendLabel}
    (hrun : (initial clock reserved).run settings ls = some s) {q : ErpRequest}
    (hq : q ∈ s.erp.dispatch.board.requests) :
    ∃ o ∈ (committed s.ingest).orders, (o.status = .approved ∨ o.status = .invoiced) ∧
      q.item.aggregateId = o.orderUid ∧ Describes (committed s.ingest) q.item.payload o := by
  obtain ⟨ks, hs, _⟩ := composed_run hrun
  exact hs.describes ((ErpSystem.sound_run hs.erp).carried.requests q hq)

/-- Whatever workers and service go through, what the service has acknowledged are orders
of the database that are APPROVED or INVOICED, with their total, items and city. -/
theorem acknowledged_order {ls : List BackendLabel}
    (hrun : (initial clock reserved).run settings ls = some s) {k : String}
    {record : ErpMock.ErpRecord} (hk : s.erp.server.acknowledgedByKey k = some record) :
    ∃ o ∈ (committed s.ingest).orders, (o.status = .approved ∨ o.status = .invoiced) ∧
      RecordsOrder (committed s.ingest) record o := by
  obtain ⟨ks, hs, _⟩ := composed_run hrun
  obtain ⟨x, hx, _, hrecord⟩ := (ErpSystem.sound_run hs.erp).filed.records k record hk
  obtain ⟨o, ho, hclosed, _, hdescribes⟩ := hs.describes hx
  exact ⟨o, ho, hclosed, Describes.recordsOrder hdescribes hrecord⟩

/-- A row is SENT only when the service has the order of the row, as the database has it. -/
theorem sent_order {ls : List BackendLabel}
    (hrun : (initial clock reserved).run settings ls = some s) {m : OutboxMessage}
    (hm : m ∈ s.erp.dispatch.board.outbox) (hsent : m.status = .sent) :
    ∃ record, s.erp.server.acknowledgedByKey (ErpSystem.messageKey m.outboxId) = some record ∧
      ∃ o ∈ (committed s.ingest).orders, o.orderUid = m.aggregateId ∧
        RecordsOrder (committed s.ingest) record o := by
  obtain ⟨ks, hs, _⟩ := composed_run hrun
  obtain ⟨record, hk, hrecord⟩ := (ErpSystem.sound_run hs.erp).record_of_sent hm hsent
  obtain ⟨o, ho, _, haggregate, hdescribes⟩ := hs.describes (List.mem_map_of_mem hm)
  exact ⟨record, hk, o, ho, haggregate.symm, Describes.recordsOrder hdescribes hrecord⟩

/-- The dictionary of orders has the orders of the acknowledged records, and for each of
them the number of one of its records. -/
theorem dictionaries_agree {ls : List BackendLabel}
    (hrun : (initial clock reserved).run settings ls = some s) (orderUid : String) :
    ((s.erp.server.erpIdByOrder orderUid).isSome = true ↔
      ∃ k record, s.erp.server.acknowledgedByKey k = some record ∧ record.orderUid = orderUid) ∧
    ∀ erpOrderId, s.erp.server.erpIdByOrder orderUid = some erpOrderId →
      ∃ k record, s.erp.server.acknowledgedByKey k = some record ∧ record.orderUid = orderUid ∧
        record.erpOrderId = erpOrderId := by
  obtain ⟨ks, hs, _⟩ := composed_run hrun
  have hfiled := (ErpSystem.sound_run hs.erp).filed
  refine ⟨⟨fun hsome => ?_, ?_⟩, hfiled.orders orderUid⟩
  · obtain ⟨erpOrderId, hid⟩ := Option.isSome_iff_exists.mp hsome
    obtain ⟨k, record, hk, huid, _⟩ := hfiled.orders orderUid erpOrderId hid
    exact ⟨k, record, hk, huid⟩
  · rintro ⟨k, record, hk, rfl⟩
    exact hfiled.numbered k record hk

end Runs

/-! ## An order on its way -/

namespace Sample

open EcommerceIntegration.Sample

def workers (ls : List DispatchLabel) : List BackendLabel := ls.map fun l => .erp (.worker l)

/-- The order is approved and sent; the client moves while the service is asleep. -/
def delivered : List BackendLabel :=
  (catalog ++ attempt 3 approval1 15).map .ingest ++
    workers [.start "a", .poll 0, .claim 0 [1], .post 0] ++ [.erp (.receive 0)] ++
    (attempt 4 moved1 10).map .ingest ++
    [.erp (.wake 0 (.works "ERP-1" 7)), .erp (.deliver 0)] ++ workers [.mark 0 0 0]

def after (ls : List BackendLabel) : Option Backend := (initial 0 []).run {} ls

theorem after_run {ls : List BackendLabel} (h : (after ls).isSome = true) :
    (initial 0 []).run {} ls = some ((after ls).get h) :=
  (Option.some_get h).symm

def deliveredState : Backend := (after delivered).get (by decide +kernel)

theorem delivered_run : (initial 0 []).run {} delivered = some deliveredState := after_run _

end Sample

theorem request_describes_delivered :
    ∃ q ∈ Sample.deliveredState.erp.dispatch.board.requests,
      ∃ o ∈ (committed Sample.deliveredState.ingest).orders,
        (o.status = .approved ∨ o.status = .invoiced) ∧ q.item.aggregateId = o.orderUid ∧
          Describes (committed Sample.deliveredState.ingest) q.item.payload o := by
  have hq : 0 < Sample.deliveredState.erp.dispatch.board.requests.length := by decide +kernel
  exact ⟨_, List.getElem_mem hq, request_describes Sample.delivered_run (List.getElem_mem hq)⟩

theorem acknowledged_order_delivered :
    ∃ record, Sample.deliveredState.erp.server.acknowledgedByKey "outbox-1" = some record ∧
      ∃ o ∈ (committed Sample.deliveredState.ingest).orders,
        (o.status = .approved ∨ o.status = .invoiced) ∧
          RecordsOrder (committed Sample.deliveredState.ingest) record o := by
  have hk : (Sample.deliveredState.erp.server.acknowledgedByKey "outbox-1").isSome = true := by
    decide +kernel
  obtain ⟨record, hrecord⟩ := Option.isSome_iff_exists.mp hk
  exact ⟨record, hrecord, acknowledged_order Sample.delivered_run hrecord⟩

theorem sent_order_delivered :
    ∃ m ∈ Sample.deliveredState.erp.dispatch.board.outbox, m.status = .sent ∧
      ∃ record, Sample.deliveredState.erp.server.acknowledgedByKey
          (ErpSystem.messageKey m.outboxId) = some record ∧
        ∃ o ∈ (committed Sample.deliveredState.ingest).orders, o.orderUid = m.aggregateId ∧
          RecordsOrder (committed Sample.deliveredState.ingest) record o := by
  have hm : ∃ m ∈ Sample.deliveredState.erp.dispatch.board.outbox, m.status = .sent := by
    decide +kernel
  obtain ⟨m, hm, hsent⟩ := hm
  exact ⟨m, hm, hsent, sent_order Sample.delivered_run hm hsent⟩

theorem dictionaries_agree_delivered :
    (Sample.deliveredState.erp.server.erpIdByOrder "PED-1").isSome = true ∧
    ((Sample.deliveredState.erp.server.erpIdByOrder "PED-1").isSome = true ↔
      ∃ k record, Sample.deliveredState.erp.server.acknowledgedByKey k = some record ∧
        record.orderUid = "PED-1") ∧
    ∀ erpOrderId, Sample.deliveredState.erp.server.erpIdByOrder "PED-1" = some erpOrderId →
      ∃ k record, Sample.deliveredState.erp.server.acknowledgedByKey k = some record ∧
        record.orderUid = "PED-1" ∧ record.erpOrderId = erpOrderId :=
  ⟨by decide +kernel, dictionaries_agree Sample.delivered_run "PED-1"⟩

end Backend

end EcommerceIntegration
