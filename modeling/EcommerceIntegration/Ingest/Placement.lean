import EcommerceIntegration.Ingest.Notification

/-!
# What an order is created with

The handler reads the client, then the current version of each address, and writes the
order and its items with what it has read.
-/

namespace EcommerceIntegration

set_option autoImplicit false

open Transaction

/-! ## Where an order comes from -/

/-- The event is an order of `client`, written with the id `id` and shipped and billed to the
versions that were read. -/
structure Placed (R : Rely store EventEnvelope) (i : EventEnvelope) (h : History)
    (data : OrderCreatedData) (client : Client) (shipping billing : Address) (id : Nat)
    (ws : List Change) : Prop where
  type : i.eventType = .orderCreated
  event : i.data.orderCreated = .ok data
  client_found : ∃ h₁, R.allows h₁ h ∧ clientOf (engine.state h₁) data.clientUid = some client
  shipping_current : ∃ h₁, R.allows h₁ h ∧
    currentVersion (engine.state h₁) data.shippingAddressUid = some shipping
  billing_current : ∃ h₁, R.allows h₁ h ∧
    currentVersion (engine.state h₁) (billingUid data) = some billing
  writes : ∃ items, ItemRows id data.items items ∧
    ws = ledgerRow i :: .inserted (.order (newOrder i data client shipping billing)) id :: items

theorem CompleteEffect.placed {R : Rely store EventEnvelope} {i : EventEnvelope} {h : History}
    {ws : List Change} (hc : CompleteEffect R i h ws) {r : Order} {id : Nat}
    (hr : .inserted (.order r) id ∈ ws) :
    ∃ data client shipping billing, Placed R i h data client shipping billing id ws ∧
      r = newOrder i data client shipping billing := by
  have htype : i.eventType = .orderCreated := hc.type_of_write hr (hc.inserted_order hr)
  obtain ⟨h₀, _, hruns⟩ := hc
  rw [htype] at hruns
  obtain ⟨data, new, hdata, -, hplaced, rfl⟩ := orderHandler_runs hruns
  cases hplaced with
  | known =>
    simp only [List.append_nil, List.mem_singleton] at hr
    cases hr
  | created first client_found second shipping_current third billing_current later items_written =>
    rename_i h₁ h₂ h₃ client shipping billing id' items
    simp only [List.singleton_append, List.mem_cons] at hr
    rcases hr with hr | hr | hr
    · cases hr
    · cases hr
      refine ⟨data, client, shipping, billing, ⟨htype, hdata, ?_, ?_, ?_, items, items_written, rfl⟩,
        rfl⟩
      · exact ⟨h₁, R.trans (R.trans second third) later, client_found⟩
      · exact ⟨h₂, R.trans third later, shipping_current⟩
      · exact ⟨h₃, later, billing_current⟩
    · obtain ⟨_, _, hitem⟩ := mem_itemRows items_written hr
      cases hitem

/-- The rows that the order refers to. -/
theorem newOrder_columns {i : EventEnvelope} {data : OrderCreatedData} {client : Client}
    {shipping billing : Address} {id : Nat} {o : Order}
    (hfixed : o.fixed = { newOrder i data client shipping billing with orderId := id }.fixed) :
    o.clientId = client.clientId ∧ o.shippingAddressId = shipping.addressId ∧
      o.billingAddressId = billing.addressId ∧ o.placedAt = data.placedAt.replaceTzinfoNone := by
  obtain ⟨hclient, hshipping, hbilling, _, _, hplaced⟩ := Order.columns_of_fixed hfixed
  exact ⟨hclient, hshipping, hbilling, hplaced⟩

def gainedOrders : Change → List Order
  | .inserted (.order r) id => [{ r with orderId := id }.fixed]
  | _ => []

theorem order_gain (d : Database) (c : Change) :
    (engine.apply d c).orders.map Order.fixed ⊆ d.orders.map Order.fixed ++ gainedOrders c := by
  intro o ho
  cases c with
  | inserted row id =>
    cases row with
    | order r =>
      simp only [engine, Database.apply, Database.insert, List.map_append] at ho
      exact ho
    | client | address | orderItem | payment | invoice | outbox => exact List.mem_append_left _ ho
  | executed stmt =>
    cases stmt with
    | updateOrder id s t =>
      simp only [engine, Database.apply, Database.execute] at ho
      rw [map_updateWhere (Order.fixed_set s t)] at ho
      exact List.mem_append_left _ ho
    | registerEvent | updateClient | closeAddress | updatePayment => exact List.mem_append_left _ ho

/-- Every order was placed by a commit of the history. -/
theorem order_origin {h : History} (hh : Consistent h) {o : Order}
    (ho : o ∈ (engine.state h).orders) :
    ∃ h₀ k data client shipping billing, h₀ ++ [k] <+: h ∧
      Placed others k.input h₀ data client shipping billing o.orderId k.writes ∧
      o.fixed =
        { newOrder k.input data client shipping billing with orderId := o.orderId }.fixed := by
  obtain ⟨h₀, k, hpre, c, hc, hgained⟩ := engine.origin (fun d => d.orders.map Order.fixed)
    gainedOrders rfl order_gain (List.mem_map_of_mem ho)
  unfold gainedOrders at hgained
  split at hgained
  · rename_i r id
    obtain ⟨data, client, shipping, billing, hplaced, rfl⟩ :=
      (hh.of_prefix hpre).effect.placed hc
    have hfixed := List.mem_singleton.mp hgained
    obtain rfl : o.orderId = id := Order.id_of_fixed hfixed
    exact ⟨h₀, k, data, client, shipping, billing, hpre, hplaced, hfixed⟩
  · cases hgained

end EcommerceIntegration
