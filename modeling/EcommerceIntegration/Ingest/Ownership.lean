import EcommerceIntegration.Ingest.Delivery
import EcommerceIntegration.Ingest.Replay

/-!
# Whose addresses an order uses

An address is looked up by its uid alone, and the version in force belongs to the client
whose event opened it. An order has the addresses of its own client exactly when the events
that opened the versions it found were about that client.
-/

namespace EcommerceIntegration

set_option autoImplicit false

open Transaction

/-! ## The events that open versions -/

/-- The version `a` was opened by the transaction of `k`, a client event with `data`. -/
structure Opens (k : IngestCommit) (data : ClientUpsertedData) (a : Address) : Prop where
  type : k.input.eventType = .clientUpserted
  event : k.input.data.clientUpserted = .ok data
  uid : a.addressUid = data.address.addressUid
  fields : a.fields = data.address.fields
  inserted : ∃ r, .inserted (.address r) a.addressId ∈ k.writes

/-- The client that a version is opened for has the uid of the event. -/
theorem CompleteEffect.opens {i : EventEnvelope} {h : History} {ws : List Change}
    (hc : CompleteEffect others i h ws) {r : Address} {id : Nat}
    (hr : .inserted (.address r) id ∈ ws) :
    i.eventType = .clientUpserted ∧ ∃ data clientId t, i.data.clientUpserted = .ok data ∧
      r = newVersion clientId data.address t ∧
      (clientId, data.clientUid.1) ∈ clientNames (engine.view h ws) := by
  have htype : i.eventType = .clientUpserted := hc.type_of_write hr trivial
  obtain ⟨h₀, _, hruns⟩ := hc
  rw [htype] at hruns
  obtain ⟨data, clientId, h₁, client, address, hdata, hwritten, hversioned, _, hle, rfl, hname⟩ :=
    clientHandler_named hruns
  refine ⟨htype, data, clientId, ?_⟩
  have hlater : (clientId, data.clientUid.1) ∈
      clientNames (engine.view h ([ledgerRow i] ++ client ++ address)) :=
    clientNames_view hle (List.prefix_append _ _) hname
  rcases List.mem_append.mp hr with hr | hr
  · rcases List.mem_append.mp hr with hr | hr
    · cases List.mem_singleton.mp hr
    · cases hwritten with
      | created => cases List.mem_singleton.mp hr
      | updated =>
        unfold clientRecord at hr
        split at hr
        · cases List.mem_singleton.mp hr
        · cases hr
  · cases hversioned with
    | kept => cases hr
    | opened =>
      cases List.mem_singleton.mp hr
      exact ⟨_, hdata, rfl, hlater⟩
    | replaced =>
      simp only [List.mem_cons, List.not_mem_nil, or_false, reduceCtorEq, false_or] at hr
      cases hr
      exact ⟨_, hdata, rfl, hlater⟩

def gainedVersions : Change → List Address
  | .inserted (.address r) id => [{ r with addressId := id }.fixed]
  | _ => []

theorem version_gain (d : Database) (c : Change) :
    (engine.apply d c).address.map Address.fixed ⊆
      d.address.map Address.fixed ++ gainedVersions c := by
  intro a ha
  cases c with
  | inserted row id =>
    cases row with
    | address r =>
      simp only [engine, Database.apply, Database.insert, List.map_append] at ha
      exact ha
    | client | order | orderItem | payment | invoice | outbox => exact List.mem_append_left _ ha
  | executed stmt =>
    cases stmt with
    | closeAddress id t =>
      simp only [engine, Database.apply, Database.execute] at ha
      rw [map_updateWhere (Address.fixed_close t)] at ha
      exact List.mem_append_left _ ha
    | registerEvent | updateClient | updateOrder | updatePayment => exact List.mem_append_left _ ha

theorem version_of_inserted {d : Database} {ws : List Change} {r : Address} {id : Nat}
    (hr : .inserted (.address r) id ∈ ws) :
    ∃ a ∈ (engine.replay d ws).address, a.fixed = { r with addressId := id }.fixed := by
  obtain ⟨us, vs, rfl⟩ := List.append_of_mem hr
  rw [Engine.replay_append, Engine.replay_cons]
  refine List.mem_map.mp (addresses_grow.replay _ vs (List.mem_map_of_mem ?_))
  exact List.mem_append_right _ (List.mem_singleton_self _)

section Versions
variable {h : History}

/-- Every version was opened by a client event, for the client of that uid. -/
theorem version_origin (hh : Consistent h) {a : Address} (ha : a ∈ (engine.state h).address) :
    ∃ h₀ k data, h₀ ++ [k] <+: h ∧ Opens k data a ∧
      (a.clientId, data.clientUid.1) ∈ clientNames (engine.state h) := by
  obtain ⟨h₀, k, hpre, c, hc, hgained⟩ := engine.origin (fun d => d.address.map Address.fixed)
    gainedVersions rfl version_gain (List.mem_map_of_mem ha)
  unfold gainedVersions at hgained
  split at hgained
  · rename_i r id
    obtain ⟨htype, data, clientId, t, hdata, rfl, hname⟩ := (hh.of_prefix hpre).effect.opens hc
    obtain ⟨hid, huid, hclient, hfields, _⟩ :=
      Address.columns_of_fixed (List.mem_singleton.mp hgained)
    obtain rfl : a.addressId = id := hid
    refine ⟨h₀, k, data, hpre, ⟨htype, hdata, huid, hfields, _, hc⟩, ?_⟩
    rw [hclient]
    refine clientNames_grow.state hpre ?_
    rw [Engine.state_concat]
    exact hname
  · cases hgained

/-- The version that a client event opened belongs to the client of that uid. -/
theorem client_of_opens (hh : Consistent h) {h₀ : History} {k : IngestCommit}
    {data : ClientUpsertedData} {a : Address} (hpre : h₀ ++ [k] <+: h) (hopens : Opens k data a)
    (ha : a ∈ (engine.state h).address) :
    (a.clientId, data.clientUid.1) ∈ clientNames (engine.state h) := by
  obtain ⟨r, hr⟩ := hopens.inserted
  obtain ⟨_, data', clientId, t, hdata, rfl, hname⟩ := (hh.of_prefix hpre).effect.opens hr
  obtain rfl : data' = data := Except.ok.inj (hdata.symm.trans hopens.event)
  obtain ⟨a₀, ha₀, hfixed₀⟩ := version_of_inserted (d := engine.state h₀) hr
  rw [← Engine.state_concat] at ha₀
  obtain ⟨b, hb, hfixed⟩ := address_stays hpre ha₀
  obtain ⟨hid, _, hclient, _⟩ := Address.columns_of_fixed (hfixed.trans hfixed₀)
  obtain rfl : b = a := address_unique_id hh.keys hb ha hid
  rw [hclient]
  refine clientNames_grow.state hpre ?_
  rw [Engine.state_concat]
  exact hname

/-- An id has one uid and a uid one id. -/
theorem clientNames_unique (hh : Consistent h) {x y : Nat × String}
    (hx : x ∈ clientNames (engine.state h)) (hy : y ∈ clientNames (engine.state h)) :
    x.1 = y.1 ↔ x.2 = y.2 := by
  obtain ⟨c, hc, rfl⟩ := List.mem_map.mp hx
  obtain ⟨c', hc', rfl⟩ := List.mem_map.mp hy
  constructor
  · intro hid
    rw [client_unique_id hh.keys hc hc' hid]
  · intro huid
    rw [client_unique hh.keys hc hc' huid]

end Versions

/-! ## The addresses of an order -/

/-- The shipping and billing versions that the order refers to are its client's. -/
def OwnAddresses (d : Database) (o : Order) : Prop :=
  (addressById d o.shippingAddressId).map Address.clientId = some o.clientId ∧
    (addressById d o.billingAddressId).map Address.clientId = some o.clientId

instance (d : Database) (o : Order) : Decidable (OwnAddresses d o) :=
  inferInstanceAs (Decidable (_ ∧ _))

/-- The version was opened by a client event for `clientUid`. -/
def OpenedFor (h : History) (clientUid : String) (a : Address) : Prop :=
  ∃ h₀ k data, h₀ ++ [k] <+: h ∧ Opens k data a ∧ data.clientUid = clientUid

/-- The versions that the order event found in force were opened for the client that it
names. -/
def FindsOwnVersions (h : History) (k : IngestCommit) : Prop :=
  ∀ data client shipping billing id,
    Placed others k.input h data client shipping billing id k.writes →
      OpenedFor h data.clientUid shipping ∧ OpenedFor h data.clientUid billing

section Orders
variable {h h' : History}

/-- What is in force when a handler reads it stays, with its client. -/
theorem version_stays (hh : Consistent h) (hle : h' <+: h) {uid : String} {a : Address}
    (hcurrent : ∃ h₁, h₁ <+: h' ∧ currentVersion (engine.state h₁) uid = some a) :
    ∃ b ∈ (engine.state h).address, b.fixed = a.fixed ∧
      addressById (engine.state h) a.addressId = some b := by
  obtain ⟨h₁, hle₁, hfound⟩ := hcurrent
  obtain ⟨b, hb, hfixed⟩ := address_stays (hle₁.trans hle) (List.mem_of_find?_eq_some hfound)
  have hid : b.addressId = a.addressId := (Address.columns_of_fixed hfixed).1
  exact ⟨b, hb, hfixed, hid ▸ addressById_eq_some hh.keys hb⟩

theorem Opens.congr {k : IngestCommit} {data : ClientUpsertedData} {a b : Address}
    (ho : Opens k data a) (hfixed : b.fixed = a.fixed) : Opens k data b := by
  obtain ⟨hid, huid, _, hfields, _⟩ := Address.columns_of_fixed hfixed
  exact ⟨ho.type, ho.event, huid.trans ho.uid, hfields.trans ho.fields, hid ▸ ho.inserted⟩

/-- A version in force belongs to the client `client` exactly when it was opened for it. -/
theorem openedFor_iff (hh : Consistent h) (hle : h' <+: h) {uid clientUid : String} {a : Address}
    {clientId : Nat} (hcurrent : ∃ h₁, h₁ <+: h' ∧ currentVersion (engine.state h₁) uid = some a)
    (hname : (clientId, clientUid) ∈ clientNames (engine.state h)) :
    OpenedFor h' clientUid a ↔
      (addressById (engine.state h) a.addressId).map Address.clientId = some clientId := by
  obtain ⟨b, hb, hfixed, hrow⟩ := version_stays hh hle hcurrent
  rw [hrow, Option.map_some, Option.some.injEq]
  constructor
  · rintro ⟨h₀, k, data, hpre, hopens, rfl⟩
    have hb' := client_of_opens hh (hpre.trans hle) (hopens.congr hfixed) hb
    exact (clientNames_unique hh hb' hname).mpr rfl
  · intro hclient
    obtain ⟨h₁, hle₁, hfound⟩ := hcurrent
    have ha := List.mem_of_find?_eq_some hfound
    obtain ⟨h₀, k, data, hpre, hopens, hopener⟩ :=
      version_origin (hh.of_prefix (hle₁.trans hle)) ha
    refine ⟨h₀, k, data, hpre.trans hle₁, hopens, ?_⟩
    have hopener' := clientNames_grow.state (hle₁.trans hle) hopener
    have hsame : a.clientId = clientId :=
      (Address.columns_of_fixed hfixed).2.2.1.symm.trans hclient
    exact (clientNames_unique hh hopener' hname).mp hsame

/-- The order that a commit placed has its own client's addresses exactly when the event found
versions that were opened for this client. -/
theorem Placed.own_iff (hh : Consistent h) {k : IngestCommit} (hpre : h' ++ [k] <+: h)
    {data : OrderCreatedData} {client : Client} {shipping billing : Address} {id : Nat}
    (hplaced : Placed others k.input h' data client shipping billing id k.writes) {o : Order}
    (hfixed : o.fixed =
      { newOrder k.input data client shipping billing with orderId := id }.fixed) :
    OwnAddresses (engine.state h) o ↔
      OpenedFor h' data.clientUid shipping ∧ OpenedFor h' data.clientUid billing := by
  have hle : h' <+: h := (List.prefix_append _ _).trans hpre
  obtain ⟨hclient, hshipping, hbilling, _⟩ := newOrder_columns hfixed
  obtain ⟨h₁, hle₁, hfound⟩ := hplaced.client_found
  have hname : (client.clientId, data.clientUid.1) ∈ clientNames (engine.state h) :=
    clientNames_grow.state (hle₁.trans hle) (clientNames_of_find hfound)
  rw [OwnAddresses, hclient, hshipping, hbilling,
    openedFor_iff hh hle hplaced.shipping_current hname,
    openedFor_iff hh hle hplaced.billing_current hname]

theorem Placed.stored {i : EventEnvelope} {ws : List Change} {data : OrderCreatedData}
    {client : Client} {shipping billing : Address} {id : Nat} {d : Database}
    (hplaced : Placed others i h data client shipping billing id ws) :
    ∃ o ∈ (engine.replay d ws).orders,
      o.fixed = { newOrder i data client shipping billing with orderId := id }.fixed := by
  obtain ⟨items, _, rfl⟩ := hplaced.writes
  exact order_of_inserted (List.mem_cons_of_mem _ List.mem_cons_self)

/-- All orders of a history have their own client's addresses exactly when each was placed
with versions opened for its client. -/
theorem ownAddresses_iff_history (hh : Consistent h) :
    (∀ o ∈ (engine.state h).orders, OwnAddresses (engine.state h) o) ↔
      ∀ h₀ k, h₀ ++ [k] <+: h → FindsOwnVersions h₀ k := by
  constructor
  · intro hown h₀ k hpre data client shipping billing id hplaced
    obtain ⟨o, ho, hfixed⟩ := hplaced.stored (d := engine.state h₀)
    rw [← Engine.state_concat] at ho
    obtain ⟨o', ho', hsame⟩ := order_stays hpre ho
    exact (hplaced.own_iff hh hpre (hsame.trans hfixed)).mp (hown o' ho')
  · intro hfinds o ho
    obtain ⟨h₀, k, data, client, shipping, billing, hpre, hplaced, hfixed⟩ := order_origin hh ho
    exact (hplaced.own_iff hh hpre hfixed).mpr (hfinds h₀ k hpre _ _ _ _ _ hplaced)

/-- So they have while no other client's event gives an address that the order event uses. -/
theorem ownAddresses_of_unshared (hh : Consistent h)
    (hunshared : ∀ k ∈ h, ∀ data, k.input.data.clientUpserted = .ok data →
      k.input.eventType = .clientUpserted → ∀ k' ∈ h, ∀ used,
      k'.input.data.orderCreated = .ok used → k'.input.eventType = .orderCreated →
      data.address.addressUid.1 = used.shippingAddressUid.1 ∨
        data.address.addressUid.1 = billingUid used →
      data.clientUid.1 = used.clientUid.1) :
    ∀ o ∈ (engine.state h).orders, OwnAddresses (engine.state h) o := by
  refine (ownAddresses_iff_history hh).mpr fun h₀ k hpre data client shipping billing id hplaced => ?_
  have hle : h₀ <+: h := (List.prefix_append _ _).trans hpre
  have hk : k ∈ h := hpre.subset (by simp)
  have opened : ∀ uid a, (uid = data.shippingAddressUid.1 ∨ uid = billingUid data) →
      (∃ h₁, h₁ <+: h₀ ∧ currentVersion (engine.state h₁) uid = some a) →
      OpenedFor h₀ data.clientUid a := by
    rintro uid a huid ⟨h₁, hle₁, hcurrent⟩
    obtain ⟨ha, hauid, _⟩ := currentVersion_spec hcurrent
    obtain ⟨h₂, k', data', hpre', hopens, _⟩ := version_origin (hh.of_prefix (hle₁.trans hle)) ha
    refine ⟨h₂, k', data', hpre'.trans hle₁, hopens, ?_⟩
    have hk' : k' ∈ h := ((hpre'.trans hle₁).trans hle).subset (by simp)
    refine hunshared k' hk' data' hopens.event hopens.type k hk data hplaced.event hplaced.type ?_
    rwa [← hopens.uid, hauid]
  exact ⟨opened _ shipping (.inl rfl) hplaced.shipping_current,
    opened _ billing (.inr rfl) hplaced.billing_current⟩

end Orders

/-- In the state that a run reaches, every order has its own client's addresses exactly when
every order event that created one found versions that were opened for its client. -/
theorem ownAddresses_iff {clock : Time} {reserved : List String} {ls : List IngestLabel}
    {s : IngestState} (hrun : ingestRun (initial clock reserved) ls = some s) :
    (∀ o ∈ (committed s).orders, OwnAddresses (committed s) o) ↔
      Transition.Along (step engine ingest)
        (fun s l => ∀ c ∈ s.committing l, FindsOwnVersions s.shared.history c)
        (initial clock reserved) ls := by
  rw [along_committing_iff hrun]
  refine (ownAddresses_iff_history (reachable_of_run hrun).consistent).trans ?_
  exact ⟨fun hall h c _ hpre => hall h c hpre, fun hall h c hpre => hall h c List.nil_prefix hpre⟩

namespace Sample

/-- Another client with the same address uid in another street. -/
def neighbour : ClientUpsertedData :=
  { movedClient ruaB with
    clientUid := cli2, fullName := ⟨"Bia", by decide⟩ }

def neighbourEvent : EventEnvelope :=
  envelope evtClient4 .clientUpserted
    { invalid with clientUpserted := .ok neighbour }

/-- The neighbour's event comes between the client's and the order. -/
def sharedUid : List IngestLabel :=
  attempt 0 clientEvent 10 ++ attempt 1 neighbourEvent 11 ++ attempt 2 order1 9

end Sample

theorem ownAddresses_iff_catalog : Transition.Along (step engine ingest)
    (fun s l => ∀ c ∈ s.committing l, FindsOwnVersions s.shared.history c)
    (initial 0 []) Sample.catalog :=
  (ownAddresses_iff (Sample.after_run (by decide +kernel : (Sample.after _).isSome = true))).mp
    (by decide +kernel)

theorem ownAddresses_sharedUid : ¬ ∀ clock reserved ls s,
    ingestRun (initial clock reserved) ls = some s →
      ∀ o ∈ (committed s).orders, OwnAddresses (committed s) o := by
  intro hall
  have hown := hall 0 [] Sample.sharedUid _
    (Sample.after_run (by decide +kernel : (Sample.after _).isSome = true))
  revert hown
  decide +kernel

end EcommerceIntegration
