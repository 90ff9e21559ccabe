import EcommerceIntegration.Ingest.AddressHistory
import EcommerceIntegration.Ingest.Payload

/-!
# Whose data is stored

No handler compares the time of an event with the time of the data that is stored. With
events processed one after the other, the stored data is that of the event processed last.
-/

namespace EcommerceIntegration

set_option autoImplicit false

open Transaction

/-! ## What an event reports -/

def clientData (i : EventEnvelope) : Option ClientUpsertedData :=
  if i.eventType = .clientUpserted then i.data.clientUpserted.toOption else none

def paymentData (i : EventEnvelope) : Option PaymentUpdatedData :=
  if i.eventType = .paymentUpdated then i.data.paymentUpdated.toOption else none

/-- Name, document and email. -/
abbrev ClientColumns := String × String × String

def ClientUpsertedData.columns (data : ClientUpsertedData) : ClientColumns :=
  (data.fullName, data.document, data.email)

def reportedClient (clientUid : String) (k : IngestCommit) : Option ClientColumns :=
  ((clientData k.input).filter fun data => data.clientUid == clientUid).map
    ClientUpsertedData.columns

def reportedAddress (addressUid : String) (k : IngestCommit) : Option AddressFields :=
  ((clientData k.input).filter fun data => data.address.addressUid == addressUid).map fun data =>
    data.address.fields

def reportedStatus (provider tx : String) (k : IngestCommit) : Option PaymentStatus :=
  ((paymentData k.input).filter fun data =>
    data.provider == provider && data.providerTxId == tx).map PaymentUpdatedData.status

theorem reportedStatus_eq_some {provider tx : String} {k : IngestCommit} {status : PaymentStatus} :
    reportedStatus provider tx k = some status ↔ k.input.eventType = .paymentUpdated ∧
      ∃ data, k.input.data.paymentUpdated = .ok data ∧ data.provider.val = provider ∧
        data.providerTxId.val = tx ∧ data.status = status := by
  unfold reportedStatus paymentData
  by_cases ht : k.input.eventType = .paymentUpdated
  · cases hdata : k.input.data.paymentUpdated with
    | error report => simp [Except.toOption]
    | ok data => simp [ht, Except.toOption, Option.filter_eq_some_iff, and_assoc]
  · simp [ht]

theorem reportedClient_eq {k : IngestCommit} {data : ClientUpsertedData}
    (ht : k.input.eventType = .clientUpserted) (hdata : k.input.data.clientUpserted = .ok data)
    (uid : String) : reportedClient uid k =
      if data.clientUid.val = uid then some data.columns else none := by
  by_cases huid : data.clientUid.val = uid <;>
    simp [reportedClient, clientData, ht, hdata, huid, Except.toOption]

theorem reportedAddress_eq {k : IngestCommit} {data : ClientUpsertedData}
    (ht : k.input.eventType = .clientUpserted) (hdata : k.input.data.clientUpserted = .ok data)
    (uid : String) : reportedAddress uid k =
      if data.address.addressUid.val = uid then some data.address.fields else none := by
  by_cases huid : data.address.addressUid.val = uid <;>
    simp [reportedAddress, clientData, ht, hdata, huid, Except.toOption]

theorem reportedStatus_eq {k : IngestCommit} {data : PaymentUpdatedData}
    (ht : k.input.eventType = .paymentUpdated) (hdata : k.input.data.paymentUpdated = .ok data)
    (provider tx : String) : reportedStatus provider tx k =
      if data.provider.val = provider ∧ data.providerTxId.val = tx then some data.status
      else none := by
  rw [reportedStatus, paymentData, if_pos ht, hdata]
  by_cases hprovider : data.provider.val = provider <;>
    by_cases htx : data.providerTxId.val = tx <;>
      simp [hprovider, htx, Except.toOption]

/-! ## What is stored -/

def Client.columns (c : Client) : ClientColumns := (c.fullName, c.document, c.email)

def clientColumns (d : Database) (clientUid : String) : Option ClientColumns :=
  (clientOf d clientUid).map Client.columns

def currentFields (d : Database) (addressUid : String) : Option AddressFields :=
  (currentVersion d addressUid).map Address.fields

def paymentStatusOf (d : Database) (provider tx : String) : Option PaymentStatus :=
  (d.payment.find? fun p => p.provider == provider && p.providerTxId == tx).map Payment.status

/-! ## The columns of a client -/

theorem sparesClients_of_write {t : EventType} (ht : t ≠ .clientUpserted) {c : Change}
    (hc : HandlerWrite t c) : engine.Spares Database.clients c := by
  intro d
  cases c with
  | inserted row id =>
    cases row with
    | client r => exact (ht (hc.type_unique trivial)).elim
    | address | order | orderItem | payment | invoice | outbox => rfl
  | executed stmt =>
    cases stmt with
    | updateClient => exact (ht (hc.type_unique trivial)).elim
    | registerEvent | closeAddress | updateOrder | updatePayment => rfl

theorem Versioned.sparesClients {R : Rely store EventEnvelope} {clientId : Nat}
    {payload : AddressPayload} {h h' : History} {ws new : List Change}
    (hv : Versioned R clientId payload h ws h' new) :
    ∀ c ∈ new, engine.Spares Database.clients c := by
  intro c hc
  cases hv with
  | kept => cases hc
  | opened =>
    obtain rfl := List.mem_singleton.mp hc
    exact fun _ => rfl
  | replaced =>
    simp only [List.mem_cons, List.not_mem_nil, or_false] at hc
    rcases hc with rfl | rfl <;> exact fun _ => rfl

theorem Client.set_none (c : Client) : c.set none none none none = c := rfl

/-- The row of a known client after its update, other rows as they are. -/
theorem clients_clientRecord (d : Database) (data : ClientUpsertedData) (t : Time) (c : Client) :
    (engine.replay d (clientRecord data t c)).clients =
      updateWhere (·.clientId == c.clientId)
        (Client.set (changed c.fullName data.fullName) (changed c.document data.document)
          (changed c.email data.email) (changed c.updatedAt t)) d.clients := by
  unfold clientRecord
  split
  · rfl
  · rename_i hclean
    obtain ⟨⟨⟨hname, hdocument⟩, hemail⟩, htime⟩ : ((changed c.fullName data.fullName = none ∧
        changed c.document data.document = none) ∧ changed c.email data.email = none) ∧
        changed c.updatedAt t = none := by
      simpa using hclean
    simp [hname, hdocument, hemail, htime, updateWhere, Client.set_none]

theorem clientColumns_inserted {d : Database} {data : ClientUpsertedData} (t : Time) (id : Nat)
    (absent : clientOf d data.clientUid = none) (uid : String) :
    clientColumns (engine.replay d [.inserted (.client (newClient data t)) id]) uid =
      if data.clientUid.val = uid then some data.columns else clientColumns d uid := by
  have happend : (engine.replay d [.inserted (.client (newClient data t)) id]).clients =
      d.clients ++ [{ newClient data t with clientId := id }] := rfl
  rw [clientColumns, clientOf, happend, List.find?_append, List.find?_singleton]
  by_cases huid : data.clientUid.val = uid
  · rw [if_pos huid, ← huid, ← clientOf, absent]
    simp [newClient, Client.columns, ClientUpsertedData.columns]
  · simp [newClient, huid, clientColumns, clientOf]

/-- The handler has read the row as `c`; it is `c'` when the UPDATE comes. -/
theorem clientColumns_record {d : Database}
    (hunique : ∀ a ∈ d.clients, ∀ b ∈ d.clients, a.clientId = b.clientId → a = b)
    {data : ClientUpsertedData} (t : Time) {c c' : Client}
    (found : clientOf d data.clientUid = some c') (hid : c'.clientId = c.clientId) (uid : String) :
    clientColumns (engine.replay d (clientRecord data t c)) uid =
      if data.clientUid.val = uid then
        some (c'.set (changed c.fullName data.fullName) (changed c.document data.document)
          (changed c.email data.email) (changed c.updatedAt t)).columns
      else clientColumns d uid := by
  have hstored := List.mem_of_find?_eq_some found
  have hcuid : c'.clientUid = data.clientUid := by simpa using List.find?_some found
  have hset : ∀ n doc e t' (a : Client),
      ((a.set n doc e t').clientUid == uid) = (a.clientUid == uid) := fun _ _ _ _ _ => rfl
  rw [clientColumns, clientOf, clients_clientRecord, find?_updateWhere (hset _ _ _ _)]
  by_cases huid : data.clientUid.val = uid
  · rw [if_pos huid, ← huid, ← clientOf, found]
    simp [hid]
  · rw [if_neg huid, clientColumns, clientOf, Option.map_map]
    refine Option.map_congr fun a ha => ?_
    have hne : a.clientId ≠ c.clientId := by
      intro heq
      have hauid : a.clientUid = uid := by simpa using List.find?_some ha
      rw [hunique a (List.mem_of_find?_eq_some ha) c' hstored (heq.trans hid.symm)] at hauid
      exact huid (hcuid.symm.trans hauid)
    simp [hne]

theorem clientColumns_written {data : ClientUpsertedData} {h h' : History} {ws new : List Change}
    (hw : ClientWritten alone data h ws h' new) {d : Database}
    (hunique : ∀ a ∈ d.clients, ∀ b ∈ d.clients, a.clientId = b.clientId → a = b)
    (hview : (engine.view h ws).clients = d.clients) (uid : String) :
    clientColumns (engine.replay d new) uid =
      if data.clientUid.val = uid then some data.columns else clientColumns d uid := by
  cases hw with
  | @created h₁ t id read _ absent =>
    obtain rfl : h = h₁ := read
    rw [clientOf, hview] at absent
    exact clientColumns_inserted t id absent uid
  | @updated h₁ t c read _ found =>
    obtain rfl : h = h₁ := read
    rw [clientOf, hview] at found
    rw [clientColumns_record hunique t found rfl]
    simp [Client.set, Client.columns, ClientUpsertedData.columns]

theorem clientColumns_concat {h : History} {k : IngestCommit} (hs : SerialHistory (h ++ [k]))
    (uid : String) :
    clientColumns (engine.state (h ++ [k])) uid =
      (reportedClient uid k).or (clientColumns (engine.state h) uid) := by
  have hkeys := (hs.of_prefix (List.prefix_append h [k])).consistent.keys
  have hk : CompleteEffect alone k.input h k.writes := hs.kept h k (List.prefix_refl _)
  rw [Engine.state_concat]
  by_cases ht : k.input.eventType = .clientUpserted
  · obtain ⟨h₀, _, hr⟩ := hk
    rw [ht] at hr
    obtain ⟨data, clientId, h₁, client, address, hdata, hclient, haddress, hle₁, hle₂, hws⟩ :=
      clientHandler_runs hr
    obtain rfl : h₀ = h₁ := hle₁
    obtain rfl : h₀ = h := hle₂
    have hspares : (engine.replay (engine.state h₀) k.writes).clients =
        (engine.replay (engine.view h₀ [ledgerRow k.input]) client).clients := by
      rw [hws, Engine.replay_append, Engine.replay_append]
      exact Engine.replay_spares haddress.sparesClients _
    have hcolumns := clientColumns_written hclient (d := engine.view h₀ [ledgerRow k.input])
      (fun a ha b hb => client_unique_id hkeys ha hb) rfl uid
    rw [clientColumns, clientOf, hspares, ← clientOf, ← clientColumns, hcolumns,
      reportedClient_eq ht hdata]
    split
    · rfl
    · rfl
  · have hspares : (engine.replay (engine.state h) k.writes).clients =
        (engine.state h).clients :=
      Engine.replay_spares (hk.spares (fun _ => rfl) fun c => sparesClients_of_write ht) _
    rw [clientColumns, clientOf, hspares]
    simp [reportedClient, clientData, ht, clientColumns, clientOf]

/-! ## The current address -/

theorem currentFields_eq {d : Database} (hd : Versioning d) (addressUid : String) :
    currentFields d addressUid = (versionsOf d addressUid).getLast?.map Address.fields := by
  have hfind : currentVersion d addressUid =
      (versionsOf d addressUid).find? fun a => a.isCurrent := by
    rw [versionsOf, List.find?_filter, currentVersion]
    congr 1
    funext a
    by_cases huid : a.addressUid = addressUid <;> simp [huid]
  rw [currentFields, hfind]
  rcases hd addressUid with hempty | ⟨init, last, heq, hopened⟩
  · rw [hempty]
    rfl
  · have hclosed : init.find? (fun a => a.isCurrent) = none := by
      rw [List.find?_eq_none]
      intro a ha
      have hnot : a.isCurrent = false := (hopened.closed a ha).1
      simp [hnot]
    have hcurrent : last.isCurrent = true := hopened.current.1
    rw [heq, List.find?_append, hclosed]
    simp [hcurrent]

theorem lastVersion_insert (d : Database) (clientId : Nat) (payload : AddressPayload) (t : Time)
    (id : Nat) (uid : String) :
    (versionsOf (d.insert id (.address (newVersion clientId payload t))) uid).getLast?.map
        Address.fields =
      if payload.addressUid.val = uid then some payload.fields
      else (versionsOf d uid).getLast?.map Address.fields := by
  rw [versionsOf_insert]
  by_cases huid : payload.addressUid.val = uid
  · simp [newVersion, huid]
  · simp [newVersion, huid]

/-- The versions of another address are not closed. -/
theorem versionsOf_close_other {d : Database} {v : Address} {uid : String} (t : Time)
    (hunique : ∀ a ∈ d.address, a.addressId = v.addressId → a = v) (huid : v.addressUid ≠ uid) :
    versionsOf (d.execute (.closeAddress v.addressId t)) uid = versionsOf d uid := by
  rw [versionsOf_close, updateWhere_eq_self]
  intro a ha
  obtain ⟨hrow, hauid⟩ := mem_versionsOf.mp ha
  refine beq_eq_false_iff_ne.mpr fun hid => huid ?_
  rwa [hunique a hrow hid] at hauid

theorem lastVersion_written {clientId : Nat} {payload : AddressPayload} {h h' : History}
    {ws new : List Change} (hv : Versioned alone clientId payload h ws h' new) {d : Database}
    (hd : Versioning d)
    (hunique : ∀ a ∈ d.address, ∀ b ∈ d.address, a.addressId = b.addressId → a = b)
    (hview : (engine.view h ws).address = d.address) (uid : String) :
    (versionsOf (engine.replay d new) uid).getLast?.map Address.fields =
      if payload.addressUid.val = uid then some payload.fields
      else (versionsOf d uid).getLast?.map Address.fields := by
  cases hv with
  | @kept h₁ v read _ found same =>
    obtain rfl : h = h₁ := read
    rw [currentVersion, hview] at found
    split
    · rename_i huid
      rw [Engine.replay_nil, ← currentFields_eq hd, currentFields, currentVersion, ← huid, found]
      simp [same]
    · rfl
  | opened => exact lastVersion_insert d _ _ _ _ uid
  | @replaced h₁ _ _ v t id read _ _ _ found =>
    obtain rfl : h = h₁ := read
    rw [currentVersion, hview] at found
    obtain ⟨hstored, hvuid, _⟩ := currentVersion_spec found
    refine (lastVersion_insert (d.execute (.closeAddress v.addressId t)) _ _ _ id uid).trans ?_
    split
    · rfl
    · rename_i huid
      rw [versionsOf_close_other t (fun a ha => hunique a ha v hstored)]
      exact fun heq => huid (hvuid.symm.trans heq)

theorem currentFields_concat {h : History} {k : IngestCommit} (hs : SerialHistory (h ++ [k]))
    (hbefore : Versioning (engine.state h)) (hafter : Versioning (engine.state (h ++ [k])))
    (uid : String) :
    currentFields (engine.state (h ++ [k])) uid =
      (reportedAddress uid k).or (currentFields (engine.state h) uid) := by
  have hkeys := (hs.of_prefix (List.prefix_append h [k])).consistent.keys
  have hk : CompleteEffect alone k.input h k.writes := hs.kept h k (List.prefix_refl _)
  rw [currentFields_eq hbefore, currentFields_eq hafter, Engine.state_concat]
  by_cases ht : k.input.eventType = .clientUpserted
  · obtain ⟨h₀, _, hr⟩ := hk
    rw [ht] at hr
    obtain ⟨data, clientId, h₁, client, address, hdata, hclient, haddress, hle₁, hle₂, hws⟩ :=
      clientHandler_runs hr
    obtain rfl : h₀ = h₁ := hle₁
    obtain rfl : h₀ = h := hle₂
    have hview : (engine.view h₀ ([ledgerRow k.input] ++ client)).address =
        (engine.state h₀).address := by
      rw [Engine.view, Engine.replay_append]
      exact address_replay hclient.sparesAddresses _
    have hreplay : engine.replay (engine.state h₀) k.writes =
        engine.replay (engine.view h₀ ([ledgerRow k.input] ++ client)) address := by
      rw [hws, Engine.replay_append]
      rfl
    have hlast := lastVersion_written haddress (hbefore.spares hview)
      (fun a ha b hb => address_unique_id hkeys (hview ▸ ha) (hview ▸ hb)) rfl uid
    rw [hreplay, hlast, reportedAddress_eq ht hdata, versionsOf, versionsOf, hview]
    split
    · rfl
    · rfl
  · have hspares : (engine.replay (engine.state h) k.writes).address =
        (engine.state h).address :=
      Engine.replay_spares (hk.spares (fun _ => rfl) fun c => sparesAddresses_of_write ht) _
    rw [versionsOf, hspares]
    simp [reportedAddress, clientData, ht, versionsOf]

/-! ## The status of a payment -/

theorem sparesPayments_of_write {t : EventType} (ht : t ≠ .paymentUpdated) {c : Change}
    (hc : HandlerWrite t c) : engine.Spares Database.payment c := by
  intro d
  cases c with
  | inserted row id =>
    cases row with
    | payment r => exact (ht (hc.type_unique trivial)).elim
    | client | address | order | orderItem | invoice | outbox => rfl
  | executed stmt =>
    cases stmt with
    | updatePayment => exact (ht (hc.type_unique trivial)).elim
    | registerEvent | updateClient | closeAddress | updateOrder => rfl

theorem Approval.sparesPayments {R : Rely store EventEnvelope} {o : Order}
    {status : PaymentStatus} {h h' : History} {ws new : List Change}
    (ha : Approval R o status h ws h' new) : ∀ c ∈ new, engine.Spares Database.payment c := by
  intro c hc
  cases ha with
  | none => cases hc
  | now =>
    simp only [List.mem_cons, List.not_mem_nil, or_false] at hc
    rcases hc with rfl | rfl <;> exact fun _ => rfl

theorem paymentStatusOf_inserted {d : Database} (orderId : Nat) {data : PaymentUpdatedData}
    (id : Nat) (absent : storedPayment d data = none) (provider tx : String) :
    paymentStatusOf (engine.replay d [.inserted (.payment (newPayment orderId data)) id])
        provider tx =
      if data.provider.val = provider ∧ data.providerTxId.val = tx then some data.status
      else paymentStatusOf d provider tx := by
  rw [paymentStatusOf, payment_inserted, List.find?_append, List.find?_singleton]
  by_cases hsame : data.provider.val = provider ∧ data.providerTxId.val = tx
  · rw [if_pos hsame, ← hsame.1, ← hsame.2, ← storedPayment, absent]
    simp [newPayment]
  · simp [newPayment, hsame, paymentStatusOf]

/-- The handler has read the row as `p`; it is `p'` when the UPDATE comes. -/
theorem paymentStatusOf_record {d : Database}
    (hunique : ∀ a ∈ d.payment, ∀ b ∈ d.payment, a.paymentId = b.paymentId → a = b)
    {data : PaymentUpdatedData} {p p' : Payment} (found : storedPayment d data = some p')
    (hid : p'.paymentId = p.paymentId) (provider tx : String) :
    paymentStatusOf (engine.replay d (recordUpdate data p)) provider tx =
      if data.provider.val = provider ∧ data.providerTxId.val = tx then
        some ((changed p.status data.status).getD p'.status)
      else paymentStatusOf d provider tx := by
  obtain ⟨hstored, hptx⟩ := storedPayment_spec found
  have hset : ∀ s t (a : Payment), ((a.set s t).provider == provider &&
      (a.set s t).providerTxId == tx) = (a.provider == provider && a.providerTxId == tx) :=
    fun _ _ _ => rfl
  rw [paymentStatusOf, payment_recordUpdate, find?_updateWhere (hset _ _)]
  by_cases hsame : data.provider.val = provider ∧ data.providerTxId.val = tx
  · rw [if_pos hsame, ← hsame.1, ← hsame.2, ← storedPayment, found]
    simp [hid, Payment.set, paymentUpdate]
  · rw [if_neg hsame, paymentStatusOf, Option.map_map]
    refine Option.map_congr fun a ha => ?_
    have hne : a.paymentId ≠ p.paymentId := by
      intro heq
      have hatx : a.provider = provider ∧ a.providerTxId = tx := by simpa using List.find?_some ha
      rw [hunique a (List.mem_of_find?_eq_some ha) p' hstored (heq.trans hid.symm)] at hatx
      exact hsame ⟨hptx.1.symm.trans hatx.1, hptx.2.symm.trans hatx.2⟩
    simp [hne]

theorem paymentStatusOf_recorded {orderId : Nat} {data : PaymentUpdatedData} {h h' : History}
    {ws record : List Change} (hr : Recorded alone orderId data h ws h' record) {d : Database}
    (hunique : ∀ a ∈ d.payment, ∀ b ∈ d.payment, a.paymentId = b.paymentId → a = b)
    (hview : (engine.view h ws).payment = d.payment) (provider tx : String) :
    paymentStatusOf (engine.replay d record) provider tx =
      if data.provider.val = provider ∧ data.providerTxId.val = tx then some data.status
      else paymentStatusOf d provider tx := by
  cases hr with
  | @created h₁ h₂ id read _ _ absent =>
    obtain rfl : h = h₁ := read
    rw [storedPayment, hview] at absent
    exact paymentStatusOf_inserted orderId id absent provider tx
  | @updated h₁ p read _ found =>
    obtain rfl : h = h₁ := read
    rw [storedPayment, hview] at found
    rw [paymentStatusOf_record hunique found rfl, changed_getD]

theorem paymentStatusOf_concat {h : History} {k : IngestCommit} (hs : SerialHistory (h ++ [k]))
    (provider tx : String) :
    paymentStatusOf (engine.state (h ++ [k])) provider tx =
      (reportedStatus provider tx k).or (paymentStatusOf (engine.state h) provider tx) := by
  have hkeys := (hs.of_prefix (List.prefix_append h [k])).consistent.keys
  have hk : CompleteEffect alone k.input h k.writes := hs.kept h k (List.prefix_refl _)
  rw [Engine.state_concat]
  by_cases ht : k.input.eventType = .paymentUpdated
  · obtain ⟨h₀, _, hr⟩ := hk
    rw [ht] at hr
    obtain ⟨data, o, h₁, h₂, record, approval, hdata, hle₁, hle₂, hle₃, _, hrecorded, happroval,
      hws⟩ := paymentHandler_runs hr
    obtain rfl : h₀ = h₁ := hle₁
    obtain rfl : h₀ = h₂ := hle₂
    obtain rfl : h₀ = h := hle₃
    have hspares : (engine.replay (engine.state h₀) k.writes).payment =
        (engine.replay (engine.view h₀ [ledgerRow k.input]) record).payment := by
      rw [hws, Engine.replay_append, Engine.replay_append]
      exact Engine.replay_spares happroval.sparesPayments _
    have hstatus := paymentStatusOf_recorded hrecorded (d := engine.view h₀ [ledgerRow k.input])
      (fun a ha b hb => payment_unique_id hkeys ha hb) rfl provider tx
    rw [paymentStatusOf, hspares, ← paymentStatusOf, hstatus, reportedStatus_eq ht hdata]
    split
    · rfl
    · rfl
  · have hspares : (engine.replay (engine.state h) k.writes).payment =
        (engine.state h).payment :=
      Engine.replay_spares (hk.spares (fun _ => rfl) fun c => sparesPayments_of_write ht) _
    rw [paymentStatusOf, hspares]
    simp [reportedStatus, paymentData, ht, paymentStatusOf]

theorem SerialHistory.paymentStatus {h : History} (hs : SerialHistory h) (provider tx : String) :
    paymentStatusOf (engine.state h) provider tx =
      (h.filterMap (reportedStatus provider tx)).getLast? := by
  refine engine.column_eq_getLast? (paymentStatusOf · provider tx) rfl fun h k hpre => ?_
  exact paymentStatusOf_concat (hs.of_prefix hpre) provider tx

/-! ## The event processed last -/

theorem SerialRun.address_lastProcessed {clock : Time} {reserved : List String} {ls : List IngestLabel}
    {s : IngestState} (hrun : SerialRun clock reserved ls s) (addressUid : String) :
    ∀ h, h <+: s.shared.history → currentFields (engine.state h) addressUid =
      (h.filterMap (reportedAddress addressUid)).getLast? := by
  intro h hle
  have hreach := reachable_of_run hrun.2
  have hs : SerialHistory s.shared.history := ⟨hrun.sound.kept, hreach.consistent⟩
  refine engine.column_eq_getLast? (currentFields · addressUid) rfl fun h₀ k hpre => ?_
  have hpre' := hpre.trans hle
  exact currentFields_concat (hs.of_prefix hpre')
    (hreach.versioning h₀ ((List.prefix_append h₀ [k]).trans hpre')) (hreach.versioning _ hpre')
    addressUid

/-- What is stored is what the last of the committed events reports. -/
structure LastProcessed (h : History) : Prop where
  client : ∀ clientUid, clientColumns (engine.state h) clientUid =
    (h.filterMap (reportedClient clientUid)).getLast?
  address : ∀ addressUid, currentFields (engine.state h) addressUid =
    (h.filterMap (reportedAddress addressUid)).getLast?
  payment : ∀ provider tx, paymentStatusOf (engine.state h) provider tx =
    (h.filterMap (reportedStatus provider tx)).getLast?

/-- When events are processed one after the other, name, document and email of a client,
the fields of a current address and the status of a payment are those of the event that
was processed last. -/
theorem serial_lastProcessed {clock : Time} {reserved : List String} {ls : List IngestLabel}
    {s : IngestState} (hrun : SerialRun clock reserved ls s) : LastProcessed s.shared.history := by
  have hreach := reachable_of_run hrun.2
  have hs : SerialHistory s.shared.history := ⟨hrun.sound.kept, hreach.consistent⟩
  constructor
  · intro clientUid
    refine engine.column_eq_getLast? (clientColumns · clientUid) rfl fun h k hpre => ?_
    exact clientColumns_concat (hs.of_prefix hpre) clientUid
  · exact fun addressUid => hrun.address_lastProcessed addressUid _ (List.prefix_refl _)
  · exact hs.paymentStatus

/-! ## An older event after a newer one -/

/-- The time of day in UTC, or the naive time as it is. -/
def DateTime.instant (d : DateTime) : Time := d.wall - d.offset.getD 0

/-- `a < b` in the source, where a naive and an aware time do not compare. -/
def DateTime.Before (a b : DateTime) : Prop :=
  a.offset.isSome = b.offset.isSome ∧ a.instant < b.instant

instance (a b : DateTime) : Decidable (a.Before b) := inferInstanceAs (Decidable (_ ∧ _))

/-- Of the committed events that report something, `k` has the greatest time. -/
def GreatestEvent {α : Type} (time : EventEnvelope → DateTime)
    (reported : IngestCommit → Option α) (h : History) (k : IngestCommit) : Prop :=
  (reported k).isSome = true ∧ ∀ k' ∈ h, (reported k').isSome = true → k'.attempt ≠ k.attempt →
    (time k'.input).Before (time k.input)

instance {α : Type} (time : EventEnvelope → DateTime) (reported : IngestCommit → Option α)
    (h : History) (k : IngestCommit) : Decidable (GreatestEvent time reported h k) :=
  inferInstanceAs (Decidable (_ ∧ ∀ k' ∈ h, _ → _ → _))

/-- The time that the data of a payment event gives. -/
def paymentTime (i : EventEnvelope) : DateTime :=
  ((paymentData i).map PaymentUpdatedData.occurredAt).getD i.occurredAt

namespace Sample

def newerClient : EventEnvelope :=
  { moved evtClient2 ruaB with
    occurredAt := ⟨400, some 0⟩
    data := { invalid with
      clientUpserted := .ok { movedClient ruaB with
        fullName := anaLima } } }

def newerApproval : EventEnvelope :=
  { paymentEvent evtPay1
      { payment pedido1 tx1 .approved with occurredAt := ⟨400, some 0⟩ } with
    occurredAt := ⟨400, some 0⟩ }

/-- The older event of the client and the older event of the payment come second. -/
def overwritten : List IngestLabel :=
  attempt 0 newerClient 10 ++ attempt 1 clientEvent 11 ++ attempt 2 order1 9 ++
    attempt 3 newerApproval 15 ++ attempt 4 authorized1 7

theorem overwritten_isSome : (after overwritten).isSome = true := by decide +kernel

def overwrittenState : IngestState := (after overwritten).get overwritten_isSome

theorem overwritten_serial : SerialRun 0 [] overwritten overwrittenState :=
  ⟨serial_of_quiet (by decide +kernel), after_run _⟩

/-- The commit of the attempt `n`. -/
def overwrittenBy (n : Nat) (hn : n < overwrittenState.shared.history.length) : IngestCommit :=
  overwrittenState.shared.history.get ⟨n, hn⟩

end Sample

theorem serial_lastProcessed_overwritten :
    LastProcessed Sample.overwrittenState.shared.history :=
  serial_lastProcessed Sample.overwritten_serial

theorem greatestEvent_overwritten :
    (¬ ∀ clock reserved ls s, SerialRun clock reserved ls s → ∀ clientUid,
      ∀ k ∈ s.shared.history,
        GreatestEvent EventEnvelope.occurredAt (reportedClient clientUid) s.shared.history k →
          clientColumns (committed s) clientUid = reportedClient clientUid k) ∧
    (¬ ∀ clock reserved ls s, SerialRun clock reserved ls s → ∀ addressUid,
      ∀ k ∈ s.shared.history,
        GreatestEvent EventEnvelope.occurredAt (reportedAddress addressUid) s.shared.history k →
          currentFields (committed s) addressUid = reportedAddress addressUid k) ∧
    (¬ ∀ clock reserved ls s, SerialRun clock reserved ls s → ∀ provider tx,
      ∀ k ∈ s.shared.history,
        GreatestEvent paymentTime (reportedStatus provider tx) s.shared.history k →
          paymentStatusOf (committed s) provider tx = reportedStatus provider tx k) := by
  refine ⟨fun hall => ?_, fun hall => ?_, fun hall => ?_⟩
  · have heq := hall _ _ _ _ Sample.overwritten_serial "CLI-1"
      (Sample.overwrittenBy 0 (by decide +kernel)) (List.get_mem _ _) (by decide +kernel)
    revert heq
    decide +kernel
  · have heq := hall _ _ _ _ Sample.overwritten_serial "END-1"
      (Sample.overwrittenBy 0 (by decide +kernel)) (List.get_mem _ _) (by decide +kernel)
    revert heq
    decide +kernel
  · have heq := hall _ _ _ _ Sample.overwritten_serial "psp" "tx-1"
      (Sample.overwrittenBy 3 (by decide +kernel)) (List.get_mem _ _) (by decide +kernel)
    revert heq
    decide +kernel

end EcommerceIntegration
