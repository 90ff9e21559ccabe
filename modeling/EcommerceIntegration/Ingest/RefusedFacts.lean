import EcommerceIntegration.Ingest.AddressInForce

/-!
# Whether a refused event was a duplicate

A refused event is reported as a duplicate, whatever the event reported that came first.
The rows in its way are those that the last of the transactions wrote, so the fact of the
event is stored exactly when the events of these transactions report the same.
-/

namespace EcommerceIntegration

set_option autoImplicit false

open Transaction

/-! ## The columns of a client -/

inductive ClientColumn
  | fullName
  | document
  | email

def ClientColumn.pick {α : Type} : ClientColumn → α × α × α → α
  | .fullName, columns => columns.1
  | .document, columns => columns.2.1
  | .email, columns => columns.2.2

/-- An UPDATE writes the columns that are dirty. -/
def writesClient (column : ClientColumn) : Change → Bool
  | .inserted (.client _) _ => true
  | .executed (.updateClient _ fullName document email _) =>
    (column.pick (fullName, document, email)).isSome
  | _ => false

def clientColumn (column : ClientColumn) (clientUid : String) (d : Database) : Option String :=
  (clientColumns d clientUid).map column.pick

def reportedColumn (column : ClientColumn) (clientUid : String) (k : IngestCommit) :
    Option String :=
  (reportedClient clientUid k).map column.pick

theorem clientWrite_of_writesClient {column : ClientColumn} {c : Change}
    (hc : writesClient column c = true) : HandlerWrite .clientUpserted c := by
  cases c with
  | inserted row id =>
    cases row with
    | client r => trivial
    | address | order | orderItem | payment | invoice | outbox => cases hc
  | executed stmt =>
    cases stmt with
    | updateClient => trivial
    | registerEvent | closeAddress | updateOrder | updatePayment => cases hc

theorem spares_clientColumn {column : ClientColumn} {c : Change}
    (hc : writesClient column c = false) (uid : String) :
    engine.Spares (clientColumn column uid) c := by
  intro d
  cases c with
  | inserted row id =>
    cases row with
    | client r => cases hc
    | address | order | orderItem | payment | invoice | outbox => rfl
  | executed stmt =>
    cases stmt with
    | updateClient id n doc e t =>
      have hset : ∀ n doc e t (a : Client),
          ((a.set n doc e t).clientUid == uid) = (a.clientUid == uid) := fun _ _ _ _ _ => rfl
      have hclients : (engine.apply d (.executed (.updateClient id n doc e t))).clients =
          updateWhere (·.clientId == id) (Client.set n doc e t) d.clients := rfl
      rw [clientColumn, clientColumns, clientOf, hclients, find?_updateWhere (hset _ _ _ _),
        clientColumn, clientColumns, clientOf, Option.map_map, Option.map_map, Option.map_map]
      refine Option.map_congr fun a _ => ?_
      have hnone : column.pick (n, doc, e) = none := by simpa [writesClient] using hc
      cases column <;>
        · simp only [ClientColumn.pick] at hnone
          simp only [Function.comp_apply, ClientColumn.pick, Client.columns]
          split <;> simp [Client.set, hnone]
    | registerEvent | closeAddress | updateOrder | updatePayment => rfl

theorem writesClient_of_versioned {R : Rely store EventEnvelope} {clientId : Nat}
    {payload : AddressPayload} {h h' : History} {ws new : List Change} {column : ClientColumn}
    (hv : Versioned R clientId payload h ws h' new) : new.any (writesClient column) = false := by
  cases hv <;> rfl

/-- A client goes by its uid and by its id at all times. -/
theorem clientOf_stays {h h' : History} (hkeys : (engine.state h').keys.Nodup) (hle : h <+: h')
    {uid : String} {c : Client} (hc : clientOf (engine.state h) uid = some c) :
    ∃ c', clientOf (engine.state h') uid = some c' ∧ c'.clientId = c.clientId := by
  have hname := clientNames_grow.state hle (clientNames_of_find hc)
  obtain ⟨c', hc', heq⟩ := List.mem_map.mp hname
  obtain ⟨hid, huid⟩ := Prod.mk.inj heq
  refine ⟨c', find?_eq_some_of_unique hc' (by simpa using huid) fun b hb hbuid => ?_, hid⟩
  exact client_unique hkeys hb hc' ((beq_iff_eq.mp hbuid).trans huid.symm)

/-- A client that is inserted is new. -/
theorem clientOf_eq_none {d d' : Database} (hkeys : d'.keys.Nodup) {c : Client}
    (hclients : d'.clients = d.clients ++ [c]) : clientOf d c.clientUid = none := by
  have hnodup := client_keys_nodup hkeys
  rw [hclients, List.flatMap_append, List.nodup_append] at hnodup
  rw [clientOf, List.find?_eq_none]
  intro a ha hauid
  have huid : a.clientUid = c.clientUid := by simpa using hauid
  refine hnodup.2.2 (.clientUid a.clientUid) (List.mem_flatMap.mpr ⟨a, ha, ?_⟩)
    (.clientUid c.clientUid) ?_ (congrArg Lock.clientUid huid)
  · simp [Client.keys]
  · simp [Client.keys]

theorem clientColumns_congr {d d' : Database} (h : d'.clients = d.clients) (uid : String) :
    clientColumns d' uid = clientColumns d uid := by
  rw [clientColumns, clientColumns, clientOf, clientOf, h]

section Clients
variable {column : ClientColumn} {uid : String}

/-- A column that the UPDATE writes gets the value of the event, whatever it was meanwhile. -/
theorem pick_set {data : ClientUpsertedData} {t : Time} {c c' : Client}
    (hdirty : (clientRecord data t c).any (writesClient column) = true) :
    column.pick (c'.set (changed c.fullName data.fullName) (changed c.document data.document)
      (changed c.email data.email) (changed c.updatedAt t)).columns = column.pick data.columns := by
  have hsome : (column.pick (changed c.fullName data.fullName, changed c.document data.document,
      changed c.email data.email)).isSome = true := by
    unfold clientRecord at hdirty
    split at hdirty
    · simpa [clientUpdate, writesClient] using hdirty
    · cases hdirty
  cases column <;> exact changed_getD_of_isSome hsome _

/-- A transaction that writes a column of a client writes what its event reports. -/
theorem clientColumn_written {h : History} {k : IngestCommit} (hh : Consistent (h ++ [k]))
    (hwrites : k.writes.any (writesClient column) = true) :
    clientColumn column uid (engine.state (h ++ [k])) =
      (reportedColumn column uid k).or (clientColumn column uid (engine.state h)) := by
  obtain ⟨c₀, hc₀, hw₀⟩ := List.any_eq_true.mp hwrites
  have ht := hh.effect.type_of_write hc₀ (clientWrite_of_writesClient hw₀)
  obtain ⟨h₀, _, hr⟩ := hh.effect
  rw [ht] at hr
  obtain ⟨data, clientId, h₁, client, address, hdata, hclient, haddress, _, hle, hws⟩ :=
    clientHandler_runs hr
  have hclients : (engine.state (h ++ [k])).clients =
      (engine.replay (engine.state h) client).clients := by
    rw [Engine.state_concat, hws, Engine.replay_append, Engine.replay_append,
      Engine.replay_spares haddress.sparesClients]
    cases hclient with
    | created => rfl
    | updated => rw [clients_clientRecord, clients_clientRecord]; rfl
  have hdirty : client.any (writesClient column) = true := by
    have hledger : [ledgerRow k.input].any (writesClient column) = false := rfl
    rw [hws, List.any_append, List.any_append, hledger, writesClient_of_versioned haddress] at hwrites
    simpa using hwrites
  rw [reportedColumn, reportedClient_eq ht hdata, clientColumn, clientColumns_congr hclients]
  have hkeys := (hh.of_prefix (List.prefix_append h [k])).keys
  cases hclient with
  | created =>
    rw [clientColumns_inserted _ _ (clientOf_eq_none hh.keys hclients)]
    split
    · rfl
    · rfl
  | @updated h₂ t c _ later found =>
    have hle₂ : h₂ <+: h := (others.prefix_of later).trans (others.prefix_of hle)
    obtain ⟨c', hc', hid⟩ := clientOf_stays hkeys hle₂ found
    rw [clientColumns_record (fun a ha b hb => client_unique_id hkeys ha hb) t hc' hid]
    split
    · rw [Option.map_some, Option.map_some, pick_set hdirty, Option.some_or]
    · rfl

end Clients

/-! ## The status of a payment -/

def writesStatus : Change → Bool
  | .inserted (.payment _) _ => true
  | .executed (.updatePayment _ status _) => status.isSome
  | _ => false

theorem paymentWrite_of_writesStatus {c : Change} (hc : writesStatus c = true) :
    HandlerWrite .paymentUpdated c := by
  cases c with
  | inserted row id =>
    cases row with
    | payment r => trivial
    | client | address | order | orderItem | invoice | outbox => cases hc
  | executed stmt =>
    cases stmt with
    | updatePayment => trivial
    | registerEvent | updateClient | closeAddress | updateOrder => cases hc

theorem spares_paymentStatusOf {c : Change} (hc : writesStatus c = false) (provider tx : String) :
    engine.Spares (paymentStatusOf · provider tx) c := by
  intro d
  cases c with
  | inserted row id =>
    cases row with
    | payment r => cases hc
    | client | address | order | orderItem | invoice | outbox => rfl
  | executed stmt =>
    cases stmt with
    | updatePayment id status t =>
      obtain rfl : status = none := by simpa [writesStatus] using hc
      have hset : ∀ s t (a : Payment), ((a.set s t).provider == provider &&
          (a.set s t).providerTxId == tx) = (a.provider == provider && a.providerTxId == tx) :=
        fun _ _ _ => rfl
      have hpayment : (engine.apply d (.executed (.updatePayment id none t))).payment =
          updateWhere (·.paymentId == id) (Payment.set none t) d.payment := rfl
      dsimp only
      rw [paymentStatusOf, hpayment, find?_updateWhere (hset _ _), paymentStatusOf, Option.map_map]
      refine Option.map_congr fun a _ => ?_
      simp only [Function.comp_apply]
      split
      · rfl
      · rfl
    | registerEvent | updateClient | closeAddress | updateOrder => rfl

section Payments
variable {provider tx : String}

/-- A payment that is inserted is new. -/
theorem storedPayment_eq_none {d d' : Database} (hkeys : d'.keys.Nodup) {orderId id : Nat}
    {data : PaymentUpdatedData}
    (hpayment : d'.payment = d.payment ++ [{ newPayment orderId data with paymentId := id }]) :
    storedPayment d data = none := by
  have hnodup := payment_keys_nodup hkeys
  rw [hpayment, List.flatMap_append, List.nodup_append] at hnodup
  rw [storedPayment, List.find?_eq_none]
  intro a ha hatx
  obtain ⟨hprovider, htx⟩ : a.provider = data.provider ∧ a.providerTxId = data.providerTxId := by
    simpa using hatx
  refine hnodup.2.2 (.providerTx a.provider a.providerTxId) (List.mem_flatMap.mpr ⟨a, ha, ?_⟩)
    (.providerTx data.provider data.providerTxId) ?_ (congrArg₂ Lock.providerTx hprovider htx)
  · simp [Payment.keys]
  · simp [Payment.keys, newPayment]

theorem paymentStatusOf_congr {d d' : Database} (h : d'.payment = d.payment) :
    paymentStatusOf d' provider tx = paymentStatusOf d provider tx := by
  rw [paymentStatusOf, paymentStatusOf, h]

theorem storedPayment_stays {h h' : History} (hkeys : (engine.state h').keys.Nodup)
    (hle : h <+: h') {data : PaymentUpdatedData} {p : Payment}
    (hp : storedPayment (engine.state h) data = some p) :
    ∃ p', storedPayment (engine.state h') data = some p' ∧ p'.paymentId = p.paymentId := by
  obtain ⟨hmem, hsame⟩ := storedPayment_spec hp
  obtain ⟨p', hp', hfixed⟩ := payment_stays hle hmem
  have hsame' : p'.SameTransaction data := (Payment.sameTransaction_of_fixed hfixed).mpr hsame
  refine ⟨p', find?_eq_some_of_unique hp' (by simpa [Payment.SameTransaction] using hsame')
    fun b hb hbtx => ?_, Payment.id_of_fixed hfixed⟩
  obtain ⟨hprovider, htx⟩ : b.SameTransaction data := by
    simpa [Payment.SameTransaction] using hbtx
  exact payment_unique hkeys hb hp' (hprovider.trans hsame'.1.symm) (htx.trans hsame'.2.symm)

theorem writesStatus_of_approval {R : Rely store EventEnvelope} {o : Order}
    {status : PaymentStatus} {h h' : History} {ws new : List Change}
    (ha : Approval R o status h ws h' new) : new.any writesStatus = false := by
  cases ha <;> rfl

/-- A transaction that writes the status of a payment writes what its event reports. -/
theorem paymentStatusOf_written {h : History} {k : IngestCommit} (hh : Consistent (h ++ [k]))
    (hwrites : k.writes.any writesStatus = true) :
    paymentStatusOf (engine.state (h ++ [k])) provider tx =
      (reportedStatus provider tx k).or (paymentStatusOf (engine.state h) provider tx) := by
  obtain ⟨c₀, hc₀, hw₀⟩ := List.any_eq_true.mp hwrites
  have ht := hh.effect.type_of_write hc₀ (paymentWrite_of_writesStatus hw₀)
  obtain ⟨h₀, _, hr⟩ := hh.effect
  rw [ht] at hr
  obtain ⟨data, o, h₁, h₂, record, approval, hdata, _, _, hle, _, hrecorded, happroval, hws⟩ :=
    paymentHandler_runs hr
  have hpayment : (engine.state (h ++ [k])).payment =
      (engine.replay (engine.state h) record).payment := by
    rw [Engine.state_concat, hws, Engine.replay_append,
      Engine.replay_spares happroval.sparesPayments, hrecorded.payment_replay]
  have hdirty : record.any writesStatus = true := by
    have hledger : [ledgerRow k.input].any writesStatus = false := rfl
    rw [hws, List.any_append, List.any_append, hledger, writesStatus_of_approval happroval] at hwrites
    simpa using hwrites
  rw [reportedStatus_eq ht hdata, paymentStatusOf_congr hpayment]
  have hkeys := (hh.of_prefix (List.prefix_append h [k])).keys
  cases hrecorded with
  | created =>
    rw [paymentStatusOf_inserted _ _ (storedPayment_eq_none hh.keys hpayment)]
    split
    · rfl
    · rfl
  | @updated h₃ p _ later found =>
    have hle₃ : h₃ <+: h := (others.prefix_of later).trans (others.prefix_of hle)
    obtain ⟨p', hp', hid⟩ := storedPayment_stays hkeys hle₃ found
    have hsome : (changed p.status data.status).isSome = true := by
      unfold recordUpdate at hdirty
      dsimp only at hdirty
      split at hdirty
      · simpa [paymentUpdate, writesStatus] using hdirty
      · cases hdirty
    rw [paymentStatusOf_record (fun a ha b hb => payment_unique_id hkeys ha hb) hp' hid,
      changed_getD_of_isSome hsome]
    split
    · rfl
    · rfl

end Payments

/-! ## The current address -/

def writesAddress : Change → Bool
  | .inserted (.address _) _ => true
  | .executed (.closeAddress ..) => true
  | _ => false

theorem addressWrite_of_writesAddress {c : Change} (hc : writesAddress c = true) :
    HandlerWrite .clientUpserted c := by
  cases c with
  | inserted row id =>
    cases row with
    | address r => trivial
    | client | order | orderItem | payment | invoice | outbox => cases hc
  | executed stmt =>
    cases stmt with
    | closeAddress => trivial
    | registerEvent | updateClient | updateOrder | updatePayment => cases hc

theorem spares_currentFields {c : Change} (hc : writesAddress c = false) (uid : String) :
    engine.Spares (currentFields · uid) c := by
  intro d
  cases c with
  | inserted row id =>
    cases row with
    | address r => cases hc
    | client | order | orderItem | payment | invoice | outbox => rfl
  | executed stmt =>
    cases stmt with
    | closeAddress => cases hc
    | registerEvent | updateClient | updateOrder | updatePayment => rfl

/-- A transaction that writes a version opens the one that its event reports. -/
theorem openedFields_written {h : History} {k : IngestCommit} (hh : Consistent (h ++ [k]))
    (hwrites : k.writes.any writesAddress = true) (uid : String) :
    openedFields uid k = reportedAddress uid k := by
  obtain ⟨c₀, hc₀, hw₀⟩ := List.any_eq_true.mp hwrites
  have ht := hh.effect.type_of_write hc₀ (addressWrite_of_writesAddress hw₀)
  obtain ⟨h₀, _, hr⟩ := hh.effect
  rw [ht] at hr
  obtain ⟨data, clientId, h₁, client, address, hdata, hclient, haddress, _, _, hws⟩ :=
    clientHandler_runs hr
  have hbefore : ∀ c ∈ [ledgerRow k.input] ++ client, openedIn uid c = none := by
    intro c hc
    rcases List.mem_append.mp hc with hc | hc
    · exact List.mem_singleton.mp hc ▸ rfl
    · exact openedIn_of_spares (hclient.sparesAddresses c hc)
  rw [reportedAddress_eq ht hdata]
  cases haddress with
  | kept =>
    -- no version is written
    have hnone : client.any writesAddress = false := by
      cases hclient with
      | created => rfl
      | updated =>
        unfold clientRecord
        split <;> rfl
    have hledger : [ledgerRow k.input].any writesAddress = false := rfl
    rw [hws, List.any_append, List.any_append, hledger, hnone] at hwrites
    cases hwrites
  | opened => exact openedFields_concat hbefore hws
  | @replaced _ _ _ v t id =>
    have hclose : ∀ c ∈ [ledgerRow k.input] ++ client ++ [.executed (.closeAddress v.addressId t)],
        openedIn uid c = none := by
      intro c hc
      rcases List.mem_append.mp hc with hc | hc
      · exact hbefore c hc
      · exact List.mem_singleton.mp hc ▸ rfl
    have hwrites : k.writes = [ledgerRow k.input] ++ client ++
        [.executed (.closeAddress v.addressId t)] ++
        [.inserted (.address (newVersion clientId data.address t)) id] := by
      rw [hws, List.append_assoc _ [_] [_]]
      rfl
    exact openedFields_concat hclose hwrites

/-! ## What is stored, in a reachable state -/

section Reachable
variable {s : IngestState}

theorem clientColumn_eq_lastReport (hs : IngestReachable s) (column : ClientColumn)
    (uid : String) : clientColumn column uid (committed s) =
      lastReport (writesClient column) (reportedColumn column uid) s.shared.history :=
  engine.column_eq_lastReport (clientColumn column uid) rfl
    (fun _ hc => spares_clientColumn hc uid)
    fun _ _ hpre hwrites => clientColumn_written (hs.consistent.of_prefix hpre) hwrites

theorem currentFields_eq_lastReport (hs : IngestReachable s) (uid : String) :
    currentFields (committed s) uid =
      lastReport writesAddress (reportedAddress uid) s.shared.history := by
  refine engine.column_eq_lastReport (currentFields · uid) rfl
    (fun _ hc => spares_currentFields hc uid) fun h k hpre hwrites => ?_
  have hh := hs.consistent.of_prefix hpre
  rw [← openedFields_written hh hwrites]
  exact currentFields_opened hh (hs.versioning h ((List.prefix_append h [k]).trans hpre))
    (hs.versioning _ hpre) uid

theorem paymentStatusOf_eq_lastReport (hs : IngestReachable s) (provider tx : String) :
    paymentStatusOf (committed s) provider tx =
      lastReport writesStatus (reportedStatus provider tx) s.shared.history :=
  engine.column_eq_lastReport (paymentStatusOf · provider tx) rfl
    (fun _ hc => spares_paymentStatusOf hc provider tx)
    fun _ _ hpre hwrites => paymentStatusOf_written (hs.consistent.of_prefix hpre) hwrites

end Reachable

/-! ## The fact of an event -/

def Client.Agrees (data : ClientUpsertedData) (c : Client) : Prop :=
  c.fullName = data.fullName ∧ c.document = data.document ∧ c.email = data.email

def Address.Agrees (data : ClientUpsertedData) (a : Address) : Prop :=
  a.fields = data.address.fields

/-- The database has the fact that the event reports. -/
def FactStored (d : Database) (i : EventEnvelope) : Prop :=
  match i.eventType with
  | .clientUpserted => ∃ data, i.data.clientUpserted = .ok data ∧
      (∃ c, clientOf d data.clientUid = some c ∧ c.Agrees data) ∧
      ∃ a, currentVersion d data.address.addressUid = some a ∧ a.Agrees data
  | .orderCreated => ∃ data, i.data.orderCreated = .ok data ∧
      ∃ o ∈ d.orders, o.orderUid = data.orderUid
  | .paymentUpdated => ∃ data, i.data.paymentUpdated = .ok data ∧
      ∃ p ∈ d.payment, p.SameTransaction data ∧ p.status = data.status
  | .invoiceIssued => ∃ data, i.data.invoiceIssued = .ok data ∧
      ∃ o ∈ d.orders, o.orderUid = data.orderUid ∧ ∃ v ∈ d.invoices, v.orderId = o.orderId

/-- The events that came first make `i` a duplicate: those whose transactions wrote the columns
of its client and the version of its address, or the status of its payment, last report what it
reports. An order collides with that of its own uid, an invoice with that of its order or with
another one of its number. -/
def RivalsAgree (h : History) (i : EventEnvelope) (k : Constraint) : Prop :=
  match i.eventType with
  | .clientUpserted => ∀ data, i.data.clientUpserted = .ok data →
      (∀ column, lastReport (writesClient column) (reportedColumn column data.clientUid) h =
        some (column.pick data.columns)) ∧
      lastReport writesAddress (reportedAddress data.address.addressUid) h =
        some data.address.fields
  | .orderCreated => True
  | .paymentUpdated => ∀ data, i.data.paymentUpdated = .ok data →
      lastReport writesStatus (reportedStatus data.provider data.providerTxId) h = some data.status
  | .invoiceIssued => k = .uxInvoiceOrder

theorem client_agrees_iff {d : Database} {data : ClientUpsertedData} :
    (∃ c, clientOf d data.clientUid = some c ∧ c.Agrees data) ↔
      ∀ column, clientColumn column data.clientUid d = some (column.pick data.columns) := by
  constructor
  · rintro ⟨c, hc, hname, hdocument, hemail⟩ column
    rw [clientColumn, clientColumns, hc]
    cases column
    · exact congrArg some hname
    · exact congrArg some hdocument
    · exact congrArg some hemail
  · intro hall
    cases hc : clientOf d data.clientUid with
    | none =>
      have hname := hall .fullName
      rw [clientColumn, clientColumns, hc] at hname
      cases hname
    | some c =>
      have hpick : ∀ column : ClientColumn, column.pick c.columns = column.pick data.columns := by
        intro column
        have hcolumn := hall column
        rw [clientColumn, clientColumns, hc] at hcolumn
        exact Option.some.inj hcolumn
      exact ⟨c, rfl, hpick .fullName, hpick .document, hpick .email⟩

theorem version_agrees_iff {d : Database} {data : ClientUpsertedData} :
    (∃ a, currentVersion d data.address.addressUid = some a ∧ a.Agrees data) ↔
      currentFields d data.address.addressUid = some data.address.fields := by
  rw [currentFields, Option.map_eq_some_iff]
  rfl

theorem payment_agrees_iff {d : Database} (hkeys : d.keys.Nodup) {data : PaymentUpdatedData} :
    (∃ p ∈ d.payment, p.SameTransaction data ∧ p.status = data.status) ↔
      paymentStatusOf d data.provider data.providerTxId = some data.status := by
  rw [paymentStatusOf, Option.map_eq_some_iff]
  constructor
  · rintro ⟨p, hp, hsame, hstatus⟩
    refine ⟨p, find?_eq_some_of_unique hp (by simpa [Payment.SameTransaction] using hsame)
      fun q hq hqtx => ?_, hstatus⟩
    obtain ⟨hprovider, htx⟩ : q.SameTransaction data := by
      simpa [Payment.SameTransaction] using hqtx
    exact payment_unique hkeys hq hp (hprovider.trans hsame.1.symm) (htx.trans hsame.2.symm)
  · rintro ⟨p, hfind, hstatus⟩
    obtain ⟨hp, hsame⟩ := storedPayment_spec hfind
    exact ⟨p, hp, hsame, hstatus⟩

/-- For each event type, the fact is stored when the rivals agree and only then. -/
theorem factStored_iff {s : IngestState} (hs : IngestReachable s) {i : EventEnvelope}
    {ws : List Change} {c : Change} {k : Constraint}
    (hr : HandlerRefused others i s.shared.history ws c k) :
    FactStored (committed s) i ↔ RivalsAgree s.shared.history i k := by
  have hkeys := hs.sound.wellFormed.keys
  obtain ⟨h₀, hr⟩ := hr
  unfold FactStored RivalsAgree
  cases ht : i.eventType with
  | clientUpserted =>
    rw [ht] at hr
    obtain ⟨data, hdata, _⟩ := clientHandler_refused hr
    simp only [hdata, Except.ok.injEq, exists_eq_left', forall_eq', client_agrees_iff,
      version_agrees_iff, clientColumn_eq_lastReport hs, currentFields_eq_lastReport hs]
  | orderCreated =>
    rw [ht] at hr
    obtain ⟨_, _, data, hdata, ho⟩ := orderHandler_refused hr
    exact iff_of_true ⟨data, hdata, ho⟩ trivial
  | paymentUpdated =>
    rw [ht] at hr
    obtain ⟨_, _, data, hdata, _⟩ := paymentHandler_refused hr
    simp only [hdata, Except.ok.injEq, exists_eq_left', forall_eq']
    rw [← paymentStatusOf_eq_lastReport hs]
    exact payment_agrees_iff hkeys
  | invoiceIssued =>
    rw [ht] at hr
    obtain ⟨_, data, o, h₁, hdata, huid, hle, ho, hiff, _⟩ := invoiceHandler_refused hr
    obtain ⟨o', ho', hfixed⟩ := order_stays hle ho
    have hid := Order.id_of_fixed hfixed
    have huid' := Order.uid_of_fixed hfixed
    simp only [hdata, Except.ok.injEq, exists_eq_left', hiff]
    constructor
    · rintro ⟨o'', ho'', huid'', v, hv, hvo⟩
      obtain rfl := order_unique hkeys ho'' ho' (by rw [huid'', huid', huid])
      exact ⟨v, hv, hvo.trans hid⟩
    · rintro ⟨v, hv, hvo⟩
      exact ⟨o', ho', huid'.trans huid, v, hv, hvo.trans hid.symm⟩

/-- An event that a constraint refuses is reported as a duplicate. Its fact is stored exactly
when the events that came first agree with it. -/
theorem constraintBarrier_iff {s t s' : IngestState} (hs : IngestReachable s) {n : Nat}
    {i : EventEnvelope} {k : Constraint} (href : HandlerRefusal s t n i k)
    {ls : List IngestLabel} (hrun : ingestRun t ls = some s')
    {r : Returned store EventEnvelope Result} (hr : r ∈ s'.returned) (hn : r.attempt = n) :
    r.result = .ok ⟨.duplicate, EventProcessor.barredByConstraint⟩ ∧
      (FactStored (committed s) i ↔ RivalsAgree s.shared.history i k) := by
  obtain ⟨ws, c, hrefused, hmet, hc⟩ := href.refused hs
  obtain ⟨choice, hst⟩ := href.step
  have hs' : IngestReachable s' := by
    obtain ⟨clock, reserved, hreach⟩ := hs
    exact ⟨clock, reserved, (hreach.tail hst).trans_run hrun⟩
  have hmet' : Met n i (c, k) s' :=
    Transition.run_invariant (fun _ _ _ hm hst => hm.step hst) hmet hrun
  exact ⟨barred_of_met hs' hmet' hr hn hc, factStored_iff hs hrefused⟩

/-! ## An invoice number that another order has -/

namespace Sample

def invoice2 : EventEnvelope :=
  invoiceEvent ⟨"evt-inv-2", by decide⟩ (invoice pedido2 nf1)

/-- The invoice of the second order is about to be inserted. -/
def sameNumber : IngestState :=
  (after (catalog ++ attempt 3 invoice1 7 ++ .start invoice2 :: steps 4 4)).get (by decide)

def sameNumberRefused : IngestState :=
  (step engine ingest sameNumber (.exec 4 .ok)).get (by decide)

def sameNumberReturned : IngestState :=
  (ingestRun sameNumberRefused (steps 4 2 ++ [.finish 4])).get (by decide)

theorem sameNumber_refusal :
    HandlerRefusal sameNumber sameNumberRefused 4 invoice2 .uxInvoiceNumberSeries where
  step := ⟨.ok, (Option.some_get _).symm⟩
  refusal := by
    refine ⟨(sameNumber.active 4).get (by decide), (sameNumberRefused.active 4).get (by decide),
      .inserted (.invoice ⟨0, 2, "NF-1", "1", "chave", 300, 210000⟩) 2,
      (Option.some_get _).symm, (Option.some_get _).symm, rfl, ?_, rfl⟩
    exact List.cons_ne_nil (ledgerRow invoice2) []

def sameNumberResult : Returned store EventEnvelope Result :=
  sameNumberReturned.returned.getLast (by
    rw [← List.isEmpty_eq_false_iff]
    decide)

end Sample

theorem constraintBarrier_iff_sameNumber :
    Sample.sameNumberResult.result = .ok ⟨.duplicate, EventProcessor.barredByConstraint⟩ ∧
      (FactStored (committed Sample.sameNumber) Sample.invoice2 ↔
        RivalsAgree Sample.sameNumber.shared.history Sample.invoice2 .uxInvoiceNumberSeries) :=
  constraintBarrier_iff (Sample.after_reachable _) Sample.sameNumber_refusal
    (Option.some_get _).symm (List.getLast_mem _) rfl

/-- A refused event is not always a fact that is stored. -/
theorem constraintBarrier_loses : ¬ ∀ (s t s' : IngestState) (n : Nat) (i : EventEnvelope)
    (k : Constraint) (ls : List IngestLabel) (r : Returned store EventEnvelope Result),
    IngestReachable s → HandlerRefusal s t n i k → ingestRun t ls = some s' →
    r ∈ s'.returned → r.attempt = n → FactStored (committed s) i := by
  intro hall
  obtain ⟨data, hdata, o, ho, huid, v, hv, hvo⟩ := hall Sample.sameNumber Sample.sameNumberRefused
    Sample.sameNumberReturned 4 Sample.invoice2 .uxInvoiceNumberSeries _ Sample.sameNumberResult
    (Sample.after_reachable _) Sample.sameNumber_refusal (Option.some_get _).symm
    (List.getLast_mem _) rfl
  cases hdata
  revert hvo v huid o
  decide

end EcommerceIntegration
