import EcommerceIntegration.Ingest.LastWriter
import EcommerceIntegration.Ingest.Ownership

/-!
# The address version in force when an order was placed

The handler of orders takes the version that is current when it runs. That is the one in
force at `placed_at` exactly when the event that changed the address last before the order
was processed gives the fields of the event in force.
-/

namespace EcommerceIntegration

set_option autoImplicit false

open Transaction

/-! ## The last change of an address -/

/-- The fields of the version that the change opens. -/
def openedIn (addressUid : String) : Change → Option AddressFields
  | .inserted (.address r) _ => if r.addressUid = addressUid then some r.fields else none
  | _ => none

def openedFields (addressUid : String) (k : IngestCommit) : Option AddressFields :=
  k.writes.findSome? (openedIn addressUid)

/-- What the last of the transactions that opened a version of the address gave it. -/
def lastChange (h : History) (addressUid : String) : Option AddressFields :=
  (h.filterMap (openedFields addressUid)).getLast?

theorem openedIn_of_spares {addressUid : String} {c : Change} (hc : SparesAddresses c) :
    openedIn addressUid c = none := by
  cases c with
  | inserted row id =>
    cases row with
    | address r =>
      have hnone := hc {}
      simp [engine, Database.apply, Database.insert] at hnone
    | client | order | orderItem | payment | invoice | outbox => rfl
  | executed stmt => rfl

/-- The fields that a transaction ends with when it opens a version at last. -/
theorem openedFields_concat {uid : String} {us : List Change} {clientId : Nat}
    {payload : AddressPayload} {t : Time} {id : Nat} {k : IngestCommit}
    (hus : ∀ c ∈ us, openedIn uid c = none)
    (hws : k.writes = us ++ [.inserted (.address (newVersion clientId payload t)) id]) :
    openedFields uid k = if payload.addressUid.val = uid then some payload.fields else none := by
  have hnone : us.findSome? (openedIn uid) = none := List.findSome?_eq_none_iff.mpr hus
  rw [openedFields, hws, List.findSome?_append, hnone, Option.none_or, List.findSome?_singleton]
  rfl

theorem currentFields_opened {h : History} {k : IngestCommit} (hh : Consistent (h ++ [k]))
    (hbefore : Versioning (engine.state h)) (hafter : Versioning (engine.state (h ++ [k])))
    (uid : String) :
    currentFields (engine.state (h ++ [k])) uid =
      (openedFields uid k).or (currentFields (engine.state h) uid) := by
  have hkeys := (hh.of_prefix (List.prefix_append h [k])).keys
  rw [currentFields_eq hbefore, currentFields_eq hafter, Engine.state_concat]
  cases hh.effect.addressEffect with
  | none spares =>
    have hnone : openedFields uid k = none :=
      List.findSome?_eq_none_iff.mpr fun c hc => openedIn_of_spares (spares c hc)
    rw [hnone, versionsOf, address_replay spares]
    rfl
  | @opened us clientId payload t id spares writes =>
    rw [openedFields_concat (fun c hc => openedIn_of_spares (spares c hc)) writes, writes,
      Engine.replay_append]
    refine (lastVersion_insert _ clientId payload t id uid).trans ?_
    rw [versionsOf, address_replay spares]
    split
    · rfl
    · rfl
  | @replaced us clientId payload h₁ h₂ h₃ vs v t id spares writes read clock inserted found vuid =>
    have hnone : ∀ c ∈ us ++ [.executed (.closeAddress v.addressId t)], openedIn uid c = none := by
      intro c hc
      rcases List.mem_append.mp hc with hc | hc
      · exact openedIn_of_spares (spares c hc)
      · exact List.mem_singleton.mp hc ▸ rfl
    rw [openedFields_concat hnone writes, writes, Engine.replay_append, Engine.replay_append]
    refine (lastVersion_insert _ clientId payload t id uid).trans ?_
    split
    · rfl
    · -- the version that is closed is one of another address
      rename_i huid
      obtain ⟨v', hv', hfixed⟩ := address_stays (read.trans (clock.trans inserted)) found
      obtain ⟨hid, hvuid, _⟩ := Address.columns_of_fixed hfixed
      have hother : v'.addressUid ≠ uid := fun heq => huid ((hvuid.trans vuid).symm.trans heq)
      have hview := address_replay spares (engine.state h)
      have hclose := versionsOf_close_other (d := engine.replay (engine.state h) us) t
        (fun a ha heq => address_unique_id hkeys (hview ▸ ha) hv' heq) hother
      rw [hid] at hclose
      refine (congrArg (fun rows => rows.getLast?.map Address.fields) hclose).trans ?_
      rw [versionsOf, hview]
      rfl

/-- The current version has the fields of the last change. -/
theorem currentFields_eq_lastChange {s : IngestState} (hs : IngestReachable s) (uid : String) :
    ∀ h, h <+: s.shared.history → currentFields (engine.state h) uid = lastChange h uid := by
  intro h hle
  refine engine.column_eq_getLast? (currentFields · uid) rfl fun h₀ k hpre => ?_
  have hpre' := hpre.trans hle
  exact currentFields_opened (hs.consistent.of_prefix hpre')
    (hs.versioning h₀ ((List.prefix_append h₀ [k]).trans hpre')) (hs.versioning _ hpre') uid

/-! ## The event in force -/

/-- `a <= b` in the source, where a naive and an aware time do not compare. -/
def DateTime.NotAfter (a b : DateTime) : Prop :=
  a.offset.isSome = b.offset.isSome ∧ a.instant ≤ b.instant

instance (a b : DateTime) : Decidable (a.NotAfter b) := inferInstanceAs (Decidable (_ ∧ _))

def orderData (i : EventEnvelope) : Option OrderCreatedData :=
  if i.eventType = .orderCreated then i.data.orderCreated.toOption else none

/-- Of the processed client events of the address that occurred at `placedAt` or before, the
one with the greatest `occurred_at` gives `fields`. -/
def InForce (h : History) (addressUid : String) (placedAt : DateTime) (fields : AddressFields) :
    Prop :=
  ∃ k ∈ h, reportedAddress addressUid k = some fields ∧ k.input.occurredAt.NotAfter placedAt ∧
    ∀ k' ∈ h, ∀ other ∈ reportedAddress addressUid k', k'.input.occurredAt.NotAfter placedAt →
      other = fields ∨ k'.input.occurredAt.Before k.input.occurredAt

instance (h : History) (addressUid : String) (placedAt : DateTime) (fields : AddressFields) :
    Decidable (InForce h addressUid placedAt fields) :=
  inferInstanceAs (Decidable (∃ k ∈ h, _ ∧ _ ∧ ∀ k' ∈ h, ∀ other ∈ _, _ → _ ∨ _))

/-- Every order ships to a version with the fields of the event in force when it was placed,
when there is one. -/
def ShipsInForce (h : History) : Prop :=
  ∀ o ∈ (engine.state h).orders, ∀ k ∈ h, k.input.eventId.1 = o.sourceEventId →
    ∀ data ∈ orderData k.input, ∀ fields, InForce h data.shippingAddressUid data.placedAt fields →
      (addressById (engine.state h) o.shippingAddressId).map Address.fields = some fields

/-- The event `k` created an order, with the version of its shipping address that was current
when the history was `h₁`. -/
def ReadWhen (h₀ : History) (k : IngestCommit) (data : OrderCreatedData) (h₁ : History) : Prop :=
  ∃ client shipping billing id, Placed others k.input h₀ data client shipping billing id k.writes ∧
    h₁ <+: h₀ ∧ currentVersion (engine.state h₁) data.shippingAddressUid = some shipping

/-- The last change before an order event reads the address is to the fields of the event in
force. -/
def ChangedInForce (h : History) : Prop :=
  ∀ h₀ k data h₁, h₀ ++ [k] <+: h → ReadWhen h₀ k data h₁ →
    ∀ fields, InForce h data.shippingAddressUid data.placedAt fields →
      lastChange h₁ data.shippingAddressUid = some fields

theorem orderData_eq_some {i : EventEnvelope} {data : OrderCreatedData} :
    orderData i = some data ↔ i.eventType = .orderCreated ∧ i.data.orderCreated = .ok data := by
  unfold orderData
  by_cases ht : i.eventType = .orderCreated
  · cases hdata : i.data.orderCreated with
    | error report => simp [Except.toOption]
    | ok data' => simp [ht, Except.toOption]
  · simp [ht]

section Orders
variable {h h₀ h₁ : History} {k : IngestCommit}

/-- The order that an event placed is the one with its id. -/
theorem placed_of_source (hh : Consistent h) {o : Order} (ho : o ∈ (engine.state h).orders)
    (hk : k ∈ h) (hsource : k.input.eventId.1 = o.sourceEventId) :
    ∃ h₀ data client shipping billing, h₀ ++ [k] <+: h ∧
      Placed others k.input h₀ data client shipping billing o.orderId k.writes ∧
      o.shippingAddressId = shipping.addressId := by
  obtain ⟨h₀, k₀, data, client, shipping, billing, hpre, hplaced, hfixed⟩ := order_origin hh ho
  have hid : o.sourceEventId = k₀.input.eventId.1 := Order.source_of_fixed hfixed
  obtain ⟨us, vs, rfl⟩ := List.append_of_mem hk
  have hpre' : us ++ [k] <+: us ++ k :: vs := ⟨vs, by simp⟩
  obtain ⟨rfl, rfl⟩ := commit_once hh.kept hh.keys hpre hpre' (Subtype.ext (hsource.trans hid).symm)
  exact ⟨h₀, data, client, shipping, billing, hpre, hplaced, (newOrder_columns hfixed).2.1⟩

/-- The order has the fields that were current when the handler read the address. -/
theorem shipping_fields (hh : Consistent h) (hle : h₁ <+: h) {uid : String} {a : Address}
    (hcurrent : currentVersion (engine.state h₁) uid = some a) {o : Order}
    (hshipping : o.shippingAddressId = a.addressId) :
    (addressById (engine.state h) o.shippingAddressId).map Address.fields =
      currentFields (engine.state h₁) uid := by
  obtain ⟨b, hb, hfixed⟩ := addressById_stays hh hle (List.mem_of_find?_eq_some hcurrent)
  rw [hshipping, hb, currentFields, hcurrent, Option.map_some, Option.map_some,
    (Address.columns_of_fixed hfixed).2.2.2.1]

end Orders

/-- In the state that a run reaches, every order ships to the fields in force when it was
placed exactly when the last change of the address before the order event read it was to
these. -/
theorem shipsInForce_iff {clock : Time} {reserved : List String} {ls : List IngestLabel}
    {s : IngestState} (hrun : ingestRun (initial clock reserved) ls = some s) :
    ShipsInForce s.shared.history ↔ ChangedInForce s.shared.history := by
  have hs := reachable_of_run hrun
  have hh := hs.consistent
  constructor
  · rintro hships h₀ k data h₁ hpre ⟨client, shipping, billing, id, hplaced, hle, hcurrent⟩ fields hin
    have hle' : h₁ <+: s.shared.history := hle.trans ((List.prefix_append _ _).trans hpre)
    obtain ⟨o, ho, hfixed⟩ := hplaced.stored (d := engine.state h₀)
    rw [← Engine.state_concat] at ho
    obtain ⟨o', ho', hsame⟩ := order_stays hpre ho
    have hfixed' := hsame.trans hfixed
    rw [← currentFields_eq_lastChange hs _ h₁ hle',
      ← shipping_fields hh hle' hcurrent (newOrder_columns hfixed').2.1]
    exact hships o' ho' k (hpre.subset (by simp)) (Order.source_of_fixed hfixed').symm data
      (orderData_eq_some.mpr ⟨hplaced.type, hplaced.event⟩) fields hin
  · intro hchanged o ho k hk hsource data hdata fields hin
    obtain ⟨h₀, data', client, shipping, billing, hpre, hplaced, hshipping⟩ :=
      placed_of_source hh ho hk hsource
    obtain rfl : data' = data :=
      Except.ok.inj (hplaced.event.symm.trans (orderData_eq_some.mp hdata).2)
    obtain ⟨h₁, hle, hcurrent⟩ := hplaced.shipping_current
    have hle' : h₁ <+: s.shared.history := hle.trans ((List.prefix_append _ _).trans hpre)
    rw [shipping_fields hh hle' hcurrent hshipping, currentFields_eq_lastChange hs _ h₁ hle']
    exact hchanged h₀ k data' h₁ hpre ⟨client, shipping, billing, _, hplaced, hle, hcurrent⟩ fields hin

/-! ## One event after the other -/

/-- The client event that was processed last before an order event gives the address the
fields of the event in force. -/
def ProcessedInForce (h : History) : Prop :=
  ∀ h₀ k data r id, h₀ ++ [k] <+: h → .inserted (.order r) id ∈ k.writes →
    orderData k.input = some data →
      ∀ fields, InForce h data.shippingAddressUid data.placedAt fields →
        (h₀.filterMap (reportedAddress data.shippingAddressUid)).getLast? = some fields

/-- Alone, the handler reads what is current where its transaction is committed. -/
theorem SerialHistory.shipping_current {h h₀ : History} {k : IngestCommit} (hs : SerialHistory h)
    (hpre : h₀ ++ [k] <+: h) {r : Order} {id : Nat} (hr : .inserted (.order r) id ∈ k.writes)
    {data : OrderCreatedData} (hdata : orderData k.input = some data) :
    ∃ a, currentVersion (engine.state h₀) data.shippingAddressUid = some a ∧
      r.shippingAddressId = a.addressId := by
  have heffect : CompleteEffect alone k.input h₀ k.writes := hs.kept h₀ k hpre
  obtain ⟨data', client, shipping, billing, hplaced, rfl⟩ := heffect.placed hr
  obtain rfl : data' = data :=
    Except.ok.inj (hplaced.event.symm.trans (orderData_eq_some.mp hdata).2)
  obtain ⟨h₁, hsame, hcurrent⟩ := hplaced.shipping_current
  obtain rfl : h₁ = h₀ := hsame
  exact ⟨shipping, hcurrent, rfl⟩

/-- When events are processed one after the other, the client event that was processed last
before the order decides. -/
theorem shipsInForce_serial_iff {clock : Time} {reserved : List String} {ls : List IngestLabel}
    {s : IngestState} (hrun : SerialRun clock reserved ls s) :
    ShipsInForce s.shared.history ↔ ProcessedInForce s.shared.history := by
  have hs : SerialHistory s.shared.history :=
    ⟨hrun.sound.kept, (reachable_of_run hrun.2).consistent⟩
  have hh := hs.consistent
  constructor
  · intro hships h₀ k data r id hpre hr hdata fields hin
    have hle : h₀ <+: s.shared.history := (List.prefix_append _ _).trans hpre
    obtain ⟨a, hcurrent, hshipping⟩ := hs.shipping_current hpre hr hdata
    obtain ⟨o, ho, hfixed⟩ := order_of_inserted (d := engine.state h₀) hr
    rw [← Engine.state_concat] at ho
    obtain ⟨o', ho', hsame⟩ := order_stays hpre ho
    have hfixed' := hsame.trans hfixed
    have hshipping' : o'.shippingAddressId = a.addressId :=
      (Order.columns_of_fixed hfixed').2.1.trans hshipping
    have hsource : o'.sourceEventId = k.input.eventId.1 := by
      obtain ⟨_, _, _, _, _, rfl⟩ := (hh.of_prefix hpre).effect.placed hr
      exact Order.source_of_fixed hfixed'
    rw [← hrun.address_lastProcessed _ h₀ hle, ← shipping_fields hh hle hcurrent hshipping']
    exact hships o' ho' k (hpre.subset (by simp)) hsource.symm data hdata fields hin
  · intro hprocessed o ho k hk hsource data hdata fields hin
    obtain ⟨h₀, data', client, shipping, billing, hpre, hplaced, hshipping⟩ :=
      placed_of_source hh ho hk hsource
    have hle : h₀ <+: s.shared.history := (List.prefix_append _ _).trans hpre
    obtain ⟨items, _, hws⟩ := hplaced.writes
    have hr : .inserted (.order (newOrder k.input data' client shipping billing)) o.orderId ∈
        k.writes := hws ▸ List.mem_cons_of_mem _ List.mem_cons_self
    obtain ⟨a, hcurrent, hread⟩ := hs.shipping_current hpre hr hdata
    rw [shipping_fields hh hle hcurrent (hshipping.trans hread), hrun.address_lastProcessed _ h₀ hle]
    exact hprocessed h₀ k data _ _ hpre hr hdata fields hin

namespace Sample

/-- The order is delivered before its client, then again after the client has moved. -/
def delayedOrder : List IngestLabel :=
  attempt 0 order1 7 ++ attempt 1 clientEvent 10 ++ attempt 2 newerClient 11 ++ attempt 3 order1 9

theorem delayedOrder_isSome : (after delayedOrder).isSome = true := by decide +kernel

def delayedState : IngestState := (after delayedOrder).get delayedOrder_isSome

end Sample

theorem shipsInForce_iff_catalog :
    ShipsInForce ((Sample.after Sample.catalog).get (by decide)).shared.history ↔
      ChangedInForce ((Sample.after Sample.catalog).get (by decide)).shared.history :=
  shipsInForce_iff (Sample.after_run (by decide : (Sample.after _).isSome = true))

/-- It ships to the street of an event that occurred after it had been placed. -/
theorem shipsInForce_delayedOrder : ¬ ∀ clock reserved ls s,
    ingestRun (initial clock reserved) ls = some s → ShipsInForce s.shared.history := by
  intro hall
  have hships := hall 0 [] Sample.delayedOrder _ (Sample.after_run Sample.delayedOrder_isSome)
  have horder : ∃ o ∈ (engine.state Sample.delayedState.shared.history).orders,
      ∃ k ∈ Sample.delayedState.shared.history, k.input.eventId.1 = o.sourceEventId ∧
        ∃ data ∈ orderData k.input,
          InForce Sample.delayedState.shared.history data.shippingAddressUid data.placedAt
            Sample.address.fields ∧
          (addressById (engine.state Sample.delayedState.shared.history)
            o.shippingAddressId).map Address.fields ≠ some Sample.address.fields := by
    decide +kernel
  obtain ⟨o, ho, k, hk, hsource, data, hdata, hin, hother⟩ := horder
  exact hother (hships o ho k hk hsource data hdata _ hin)

end EcommerceIntegration
