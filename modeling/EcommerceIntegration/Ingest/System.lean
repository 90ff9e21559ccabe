import EcommerceIntegration.Ingest.Barriers

/-!
# Any number of workers on one database

An attempt is one call of `process`, by any worker, for any delivery of an event.
-/

namespace EcommerceIntegration

set_option autoImplicit false

open Transaction

def ingest (i : EventEnvelope) : Session Result := EventProcessor.process buildRegistry i

abbrev IngestState := State store EventEnvelope Result

abbrev IngestLabel := Label store EventEnvelope

abbrev IngestCommit := Commit store EventEnvelope

def IngestReachable (s : IngestState) : Prop := Reachable engine ingest s

def ingestRun (s : IngestState) (ls : List IngestLabel) : Option IngestState :=
  Transition.run (step engine ingest) s ls

/-- The committed database. -/
def committed (s : IngestState) : Database := engine.state s.shared.history

abbrev others : Rely store EventEnvelope := Rely.others store EventEnvelope

abbrev alone : Rely store EventEnvelope := Rely.alone store EventEnvelope

theorem IngestReachable.sound {s : IngestState} (h : IngestReachable s) :
    Sound keyLaws (effectContract others) EventProcessor.Concluded s :=
  Reachable.sound keyLaws (effectContract others) (fun _ _ hle => hle) EventProcessor.Concluded
    (fun n i h => EventProcessor.process_safe others n i h) h

/-- The states of a serial run. -/
def SerialRun (clock : Time) (reserved : List String) (ls : List IngestLabel) (s : IngestState) :
    Prop :=
  Transition.Along (step engine ingest) Serial (initial clock reserved) ls ∧
    ingestRun (initial clock reserved) ls = some s

theorem SerialRun.sound {clock : Time} {reserved : List String} {ls : List IngestLabel}
    {s : IngestState} (h : SerialRun clock reserved ls s) :
    Sound keyLaws (effectContract alone) EventProcessor.Concluded s :=
  sound_of_serial keyLaws (effectContract alone) EventProcessor.Concluded
    (fun n i h => EventProcessor.process_safe alone n i h) h.1 h.2

theorem reachable_of_run {clock : Time} {reserved : List String} {ls : List IngestLabel}
    {s : IngestState} (h : ingestRun (initial clock reserved) ls = some s) : IngestReachable s :=
  ⟨clock, reserved, ls, h⟩

/-- No attempt is under way where another starts. -/
def QuietStart (s : IngestState) : IngestLabel → Bool
  | .start _ => (List.range s.started).all fun n => (s.active n).isNone
  | _ => true

theorem serial_of_quiet {clock : Time} {reserved : List String} {ls : List IngestLabel}
    (h : Transition.Along (step engine ingest) (fun s l => QuietStart s l = true)
      (initial clock reserved) ls) :
    Transition.Along (step engine ingest) Serial (initial clock reserved) ls := by
  rw [Transition.along_iff] at h ⊢
  rintro ks l ms s rfl hrun i rfl n
  have hquiet : ∀ m < s.started, s.active m = none := by
    simpa [QuietStart] using h ks (.start i) ms s rfl hrun
  have hlt := (reachable_of_run hrun).sound.wellFormed.active_lt
  cases ha : s.active n with
  | none => rfl
  | some a =>
    have hnone := hquiet n (hlt n a ha)
    rw [ha] at hnone
    cases hnone

/-! ## A client with two orders -/

namespace Sample

def invalid : EventData :=
  ⟨.error "invalid", .error "invalid", .error "invalid", .error "invalid"⟩

def address : AddressPayload where
  addressUid := ⟨"END-1", by decide⟩
  street := ⟨"Rua A", by decide⟩
  number := ⟨"10", by decide⟩
  complement := none
  district := ⟨"Centro", by decide⟩
  city := ⟨"Recife", by decide⟩
  state := ⟨"PE", by decide⟩
  zipCode := ⟨"50000000", by decide⟩

def client : ClientUpsertedData where
  clientUid := ⟨"CLI-1", by decide⟩
  fullName := ⟨"Ana", by decide⟩
  document := ⟨"12345678901", by decide⟩
  email := ⟨"ana@loja.com", by decide⟩
  address := address

def item : OrderItemPayload where
  sku := ⟨"SKU-1", by decide⟩
  description := ⟨"Livro", by decide⟩
  quantity := 2
  quantity_pos := by decide
  unitPrice := ⟨105000, by decide⟩

def order (uid : Text 1 64) : OrderCreatedData where
  orderUid := uid
  clientUid := ⟨"CLI-1", by decide⟩
  shippingAddressUid := ⟨"END-1", by decide⟩
  billingAddressUid := none
  currency := ⟨"BRL", by decide⟩
  placedAt := ⟨100, some 0⟩
  items := [item]
  items_nonempty := by decide

def payment (uid : Text 1 64) (tx : Text 0 80) (status : PaymentStatus) : PaymentUpdatedData where
  orderUid := uid
  provider := ⟨"psp", by decide⟩
  providerTxId := tx
  method := .creditCard
  status := status
  amount := ⟨210000, by decide⟩
  occurredAt := ⟨200, some 0⟩

def invoice (uid : Text 1 64) (number : Text 0 40) : InvoiceIssuedData where
  orderUid := uid
  invoiceNumber := number
  series := ⟨"1", by decide⟩
  accessKey := ⟨"chave", by decide⟩
  issuedAt := ⟨300, some 0⟩
  totalAmount := ⟨210000, by decide⟩

def pedido1 : Text 1 64 := ⟨"PED-1", by decide⟩
def pedido2 : Text 1 64 := ⟨"PED-2", by decide⟩
def cli2 : Text 1 64 := ⟨"CLI-2", by decide⟩
def anaLima : Text 0 160 := ⟨"Ana Lima", by decide⟩
def ruaB : Text 0 160 := ⟨"Rua B", by decide⟩
def tx1 : Text 0 80 := ⟨"tx-1", by decide⟩
def tx2 : Text 0 80 := ⟨"tx-2", by decide⟩
def nf1 : Text 0 40 := ⟨"NF-1", by decide⟩
def evtClient2 : Text 8 64 := ⟨"evt-client-2", by decide⟩
def evtClient4 : Text 8 64 := ⟨"evt-client-4", by decide⟩
def evtOrder1 : Text 8 64 := ⟨"evt-order-1", by decide⟩
def evtOrder2 : Text 8 64 := ⟨"evt-order-2", by decide⟩
def evtPay1 : Text 8 64 := ⟨"evt-pay-1", by decide⟩

def envelope (eventId : Text 8 64) (eventType : EventType) (data : EventData) : EventEnvelope where
  eventId := eventId
  eventType := eventType
  occurredAt := ⟨100, some 0⟩
  partner := ⟨"loja", by decide⟩
  data := data

def clientEvent : EventEnvelope :=
  envelope ⟨"evt-client-1", by decide⟩ .clientUpserted { invalid with clientUpserted := .ok client }

def orderEvent (eventId : Text 8 64) (uid : Text 1 64) : EventEnvelope :=
  envelope eventId .orderCreated { invalid with orderCreated := .ok (order uid) }

def paymentEvent (eventId : Text 8 64) (data : PaymentUpdatedData) : EventEnvelope :=
  envelope eventId .paymentUpdated { invalid with paymentUpdated := .ok data }

def invoiceEvent (eventId : Text 8 64) (data : InvoiceIssuedData) : EventEnvelope :=
  envelope eventId .invoiceIssued { invalid with invoiceIssued := .ok data }

def order1 : EventEnvelope := orderEvent evtOrder1 pedido1
def order2 : EventEnvelope := orderEvent evtOrder2 pedido2

def invoice1 : EventEnvelope :=
  invoiceEvent ⟨"evt-inv-1", by decide⟩ (invoice pedido1 nf1)

/-- `k` operations of the attempt `n`, none of which fails. -/
def steps (n k : Nat) : List IngestLabel := List.replicate k (.exec n .ok)

/-- One attempt from its start to its end. -/
def attempt (n : Nat) (i : EventEnvelope) (k : Nat) : List IngestLabel :=
  .start i :: steps n k ++ [.finish n]

/-- The client and both orders are stored. -/
def catalog : List IngestLabel :=
  attempt 0 clientEvent 10 ++ attempt 1 order1 9 ++ attempt 2 order2 9

/-- The state after a run from an empty database. -/
def after (ls : List IngestLabel) : Option IngestState := ingestRun (initial 0 []) ls

theorem after_run {ls : List IngestLabel} (h : (after ls).isSome = true) :
    ingestRun (initial 0 []) ls = some ((after ls).get h) :=
  (Option.some_get h).symm

theorem after_reachable {ls : List IngestLabel} (h : (after ls).isSome = true) :
    IngestReachable ((after ls).get h) :=
  reachable_of_run (after_run h)

end Sample

end EcommerceIntegration
