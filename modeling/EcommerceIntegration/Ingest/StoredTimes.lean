import EcommerceIntegration.Ingest.LastWriter
import EcommerceIntegration.Ingest.Placement

/-!
# The times that are stored

Orders, payments and invoices keep times that events bring. A handler drops the offset of
the timestamp, so what it stores is the wall-clock time of the partner.
-/

namespace EcommerceIntegration

set_option autoImplicit false

open Transaction

/-! ## Times of rows and of writes -/

inductive TimeColumn
  | placedAt
  | approvedAt
  | closedAt
  | issuedAt
  deriving DecidableEq

/-- A time in a column of the row with this primary key. -/
structure StoredTime where
  column : TimeColumn
  id : Nat
  value : Time
  deriving DecidableEq

def Order.times (o : Order) : List StoredTime :=
  ⟨.placedAt, o.orderId, o.placedAt⟩ :: o.closedAt.toList.map (⟨.closedAt, o.orderId, ·⟩)

def Payment.times (p : Payment) : List StoredTime :=
  p.approvedAt.toList.map (⟨.approvedAt, p.paymentId, ·⟩)

def Invoice.times (v : Invoice) : List StoredTime := [⟨.issuedAt, v.invoiceId, v.issuedAt⟩]

def Database.times (d : Database) : List StoredTime :=
  d.orders.flatMap Order.times ++ d.payment.flatMap Payment.times ++ d.invoices.flatMap Invoice.times

/-- The times that a write brings. -/
def timesOf : Change → List StoredTime
  | .inserted (.order r) id => { r with orderId := id }.times
  | .inserted (.payment r) id => { r with paymentId := id }.times
  | .inserted (.invoice r) id => { r with invoiceId := id }.times
  | .executed (.updateOrder id _ t) => t.toList.map (⟨.closedAt, id, ·⟩)
  | .executed (.updatePayment id _ t) => t.toList.map (⟨.approvedAt, id, ·⟩)
  | _ => []

/-- An UPDATE leaves the old times of a row or sets its own. -/
theorem updateWhere_times {α : Type} {rows : List α} {matching : α → Bool} {set : α → α}
    {times : α → List StoredTime} (new : List StoredTime)
    (hset : ∀ a, matching a = true → times (set a) ⊆ times a ++ new) :
    (updateWhere matching set rows).flatMap times ⊆ rows.flatMap times ++ new := by
  intro x hx
  obtain ⟨b, hb, hx⟩ := List.mem_flatMap.mp hx
  obtain ⟨a, ha, ⟨hmatch, rfl⟩ | ⟨_, rfl⟩⟩ := mem_updateWhere.mp hb
  · rcases List.mem_append.mp (hset a hmatch hx) with hold | hnew
    · exact List.mem_append_left _ (List.mem_flatMap.mpr ⟨a, ha, hold⟩)
    · exact List.mem_append_right _ hnew
  · exact List.mem_append_left _ (List.mem_flatMap.mpr ⟨b, ha, hx⟩)

theorem order_set_times (s : OrderStatus) (t : Option Time) (o : Order) :
    (o.set s t).times ⊆ o.times ++ t.toList.map (⟨.closedAt, o.orderId, ·⟩) := by
  intro x hx
  cases t with
  | none => exact List.mem_append_left _ hx
  | some t =>
    rcases List.mem_cons.mp hx with rfl | hx
    · exact List.mem_append_left _ List.mem_cons_self
    · exact List.mem_append_right _ hx

theorem payment_set_times (s : Option PaymentStatus) (t : Option Time) (p : Payment) :
    (p.set s t).times ⊆ p.times ++ t.toList.map (⟨.approvedAt, p.paymentId, ·⟩) := by
  intro x hx
  cases t with
  | none => exact List.mem_append_left _ hx
  | some t => exact List.mem_append_right _ hx

/-- A time that a write adds to the database is one of its own. -/
theorem times_gain (d : Database) (c : Change) :
    (engine.apply d c).times ⊆ d.times ++ timesOf c := by
  intro x hx
  simp only [Database.times, List.mem_append] at hx ⊢
  cases c with
  | inserted row id =>
    cases row with
    | order r =>
      simp only [engine, Database.apply, Database.insert, List.flatMap_append, List.mem_append,
        List.flatMap_cons, List.flatMap_nil, List.append_nil] at hx
      simp only [timesOf]
      tauto
    | payment r =>
      simp only [engine, Database.apply, Database.insert, List.flatMap_append, List.mem_append,
        List.flatMap_cons, List.flatMap_nil, List.append_nil] at hx
      simp only [timesOf]
      tauto
    | invoice r =>
      simp only [engine, Database.apply, Database.insert, List.flatMap_append, List.mem_append,
        List.flatMap_cons, List.flatMap_nil, List.append_nil] at hx
      simp only [timesOf]
      tauto
    | client | address | orderItem | outbox => exact .inl hx
  | executed stmt =>
    cases stmt with
    | updateOrder id s t =>
      rcases hx with (hx | hx) | hx
      · have hgain := updateWhere_times (timesOf (.executed (.updateOrder id s t)))
          (fun a ha => by
            obtain rfl : a.orderId = id := beq_iff_eq.mp ha
            exact order_set_times s t a) hx
        rcases List.mem_append.mp hgain with hold | hnew
        · exact .inl (.inl (.inl hold))
        · exact .inr hnew
      · exact .inl (.inl (.inr hx))
      · exact .inl (.inr hx)
    | updatePayment id s t =>
      rcases hx with (hx | hx) | hx
      · exact .inl (.inl (.inl hx))
      · have hgain := updateWhere_times (timesOf (.executed (.updatePayment id s t)))
          (fun a ha => by
            obtain rfl : a.paymentId = id := beq_iff_eq.mp ha
            exact payment_set_times s t a) hx
        rcases List.mem_append.mp hgain with hold | hnew
        · exact .inl (.inl (.inr hold))
        · exact .inr hnew
      · exact .inl (.inr hx)
    | registerEvent | updateClient | closeAddress => exact .inl hx

/-! ## Where they come from -/

/-- The timestamp in the data of an event. -/
def EventEnvelope.timestamp (i : EventEnvelope) : Option DateTime :=
  match i.eventType with
  | .clientUpserted => none
  | .orderCreated => i.data.orderCreated.toOption.map OrderCreatedData.placedAt
  | .paymentUpdated => i.data.paymentUpdated.toOption.map PaymentUpdatedData.occurredAt
  | .invoiceIssued => i.data.invoiceIssued.toOption.map InvoiceIssuedData.issuedAt

/-- The times of the write are the wall-clock time of the event. -/
def Stamped (i : EventEnvelope) (c : Change) : Prop :=
  ∀ x ∈ timesOf c, ∃ d, i.timestamp = some d ∧ x.value = d.replaceTzinfoNone

theorem stamped_of_singleton {i : EventEnvelope} {d : DateTime} {c : Change} (column : TimeColumn)
    (id : Nat) (htime : i.timestamp = some d)
    (hc : timesOf c = [⟨column, id, d.replaceTzinfoNone⟩]) : Stamped i c := by
  intro x hx
  rw [hc] at hx
  obtain rfl := List.mem_singleton.mp hx
  exact ⟨d, htime, rfl⟩

theorem stamped_of_nil {i : EventEnvelope} {c : Change} (hc : timesOf c = []) : Stamped i c := by
  intro x hx
  rw [hc] at hx
  cases hx

theorem orderHandler_stamped {i : EventEnvelope} (ht : i.eventType = .orderCreated) :
    Straight (Stamped i) (OrderCreatedHandler.handle i) := by
  apply orderHandler_straight
  · intro data hdata _ clientId shippingId billingId id
    exact stamped_of_singleton .placedAt id
      (by simp [EventEnvelope.timestamp, ht, hdata, Except.toOption]) rfl
  · exact fun item _ _ orderId id => stamped_of_nil rfl

theorem paymentHandler_stamped {i : EventEnvelope} (ht : i.eventType = .paymentUpdated) :
    Straight (Stamped i) (PaymentUpdatedHandler.handle i) := by
  have htime : ∀ data, i.data.paymentUpdated = .ok data → i.timestamp = some data.occurredAt :=
    fun data hdata => by simp [EventEnvelope.timestamp, ht, hdata, Except.toOption]
  apply paymentHandler_straight
  · intro data hdata orderId id
    by_cases happroved : data.status = .approved
    · apply stamped_of_singleton .approvedAt id (htime data hdata)
      simp [timesOf, Payment.times, happroved]
    · exact stamped_of_nil (by simp [timesOf, Payment.times, happroved])
  · exact fun data hdata id s =>
      ⟨stamped_of_nil rfl, stamped_of_singleton .approvedAt id (htime data hdata) rfl⟩
  · exact fun data hdata id =>
      ⟨stamped_of_nil rfl, stamped_of_singleton .closedAt id (htime data hdata) rfl⟩
  · exact fun m id _ => stamped_of_nil rfl

theorem invoiceHandler_stamped {i : EventEnvelope} (ht : i.eventType = .invoiceIssued) :
    Straight (Stamped i) (InvoiceIssuedHandler.handle i) := by
  have htime : ∀ data, i.data.invoiceIssued = .ok data → i.timestamp = some data.issuedAt :=
    fun data hdata => by simp [EventEnvelope.timestamp, ht, hdata, Except.toOption]
  apply invoiceHandler_straight
  · exact fun data hdata orderId id => stamped_of_singleton .issuedAt id (htime data hdata) rfl
  · exact fun orderId => stamped_of_nil rfl
  · exact fun data hdata orderId => stamped_of_singleton .closedAt orderId (htime data hdata) rfl

theorem stamped_of_clientWrite {i : EventEnvelope} {c : Change} (hc : ClientWrite c) :
    Stamped i c := by
  apply stamped_of_nil
  cases c with
  | inserted row id => cases row <;> first | rfl | exact hc.elim
  | executed stmt => cases stmt <;> first | rfl | exact hc.elim

theorem handler_stamped (i : EventEnvelope) : Straight (Stamped i) (handlerOf i.eventType i) := by
  cases ht : i.eventType with
  | clientUpserted => exact (clientHandler_straight i).mono fun c hc => stamped_of_clientWrite hc
  | orderCreated => exact orderHandler_stamped ht
  | paymentUpdated => exact paymentHandler_stamped ht
  | invoiceIssued => exact invoiceHandler_stamped ht

theorem CompleteEffect.stamped {R : Rely store EventEnvelope} {i : EventEnvelope} {h : History}
    {ws : List Change} (hc : CompleteEffect R i h ws) : ∀ c ∈ ws, Stamped i c := by
  obtain ⟨h₀, _, hr⟩ := hc
  obtain ⟨new, rfl, hnew⟩ := hr.writes (handler_stamped i)
  intro c hc
  rcases List.mem_cons.mp hc with rfl | hc
  · exact stamped_of_nil rfl
  · exact hnew c hc

/-- The commit wrote this time. -/
def Wrote (k : IngestCommit) (x : StoredTime) : Prop :=
  ∃ c ∈ k.writes, x ∈ timesOf c

instance (k : IngestCommit) (x : StoredTime) : Decidable (Wrote k x) :=
  inferInstanceAs (Decidable (∃ c ∈ k.writes, x ∈ timesOf c))

section History
variable {h : History}

theorem wrote_of_times {x : StoredTime} (hx : x ∈ (engine.state h).times) : ∃ k ∈ h, Wrote k x := by
  obtain ⟨h₀, k, hpre, hwrote⟩ := engine.origin Database.times timesOf rfl times_gain hx
  exact ⟨k, hpre.subset (by simp), hwrote⟩

theorem timestamp_of_wrote (hh : Consistent h) {k : IngestCommit} (hk : k ∈ h) {x : StoredTime}
    (hx : Wrote k x) : ∃ d, k.input.timestamp = some d ∧ x.value = d.replaceTzinfoNone := by
  obtain ⟨h₀, h₁, rfl⟩ := List.append_of_mem hk
  have hpre : h₀ ++ [k] <+: h₀ ++ k :: h₁ := ⟨h₁, by simp⟩
  obtain ⟨c, hc, hx⟩ := hx
  exact (hh.of_prefix hpre).effect.stamped c hc x hx

end History

/-! ## The convention of the other columns -/

/-- The times `x` and `y` that `a` and `b` left are UTC, as all times of `utcnow`. -/
structure StoredInUtc (a b : DateTime) (x y : StoredTime) : Prop where
  first : x.value = a.instant
  second : y.value = b.instant
  same : a.instant = b.instant → x.value = y.value
  ordered : a.instant < b.instant → x.value < y.value

/-- Dropping the offset keeps the instant of a time that is given in UTC. -/
theorem replaceTzinfoNone_eq_instant_iff {d : DateTime} (haware : d.offset.isSome = true) :
    d.replaceTzinfoNone = d.instant ↔ d.offset = some 0 := by
  obtain ⟨wall, offset⟩ := d
  cases offset with
  | none => cases haware
  | some offset =>
    simp only [DateTime.replaceTzinfoNone, DateTime.instant, Option.getD_some, Option.some.injEq]
    have hsub : ∀ a b : Int, a = a - b ↔ b = 0 := by omega
    exact hsub wall offset

theorem storedInUtc_of_eq {a b : DateTime} {x y : StoredTime} (hx : x.value = a.instant)
    (hy : y.value = b.instant) : StoredInUtc a b x y where
  first := hx
  second := hy
  same h := by rw [hx, hy, h]
  ordered h := by rwa [hx, hy]

/-- In every state the times of orders, payments and invoices were written by commits of
events, and any two of them are UTC if and only if both events gave theirs in UTC. -/
theorem storedInUtc_iff {s : IngestState} (hs : IngestReachable s) :
    (∀ x ∈ (committed s).times, ∃ k ∈ s.shared.history, Wrote k x) ∧
    ∀ k ∈ s.shared.history, ∀ l ∈ s.shared.history, ∀ x y, Wrote k x → Wrote l y →
      ∃ a b, k.input.timestamp = some a ∧ l.input.timestamp = some b ∧
        (a.offset.isSome = true → b.offset.isSome = true →
          (StoredInUtc a b x y ↔ a.offset = some 0 ∧ b.offset = some 0)) := by
  refine ⟨fun x hx => wrote_of_times hx, fun k hk l hl x y hx hy => ?_⟩
  obtain ⟨a, ha, hxa⟩ := timestamp_of_wrote hs.consistent hk hx
  obtain ⟨b, hb, hyb⟩ := timestamp_of_wrote hs.consistent hl hy
  refine ⟨a, b, ha, hb, fun hawareA hawareB => ⟨fun hutc => ?_, fun ⟨hoffsetA, hoffsetB⟩ => ?_⟩⟩
  · exact ⟨(replaceTzinfoNone_eq_instant_iff hawareA).mp (hxa.symm.trans hutc.first),
      (replaceTzinfoNone_eq_instant_iff hawareB).mp (hyb.symm.trans hutc.second)⟩
  · apply storedInUtc_of_eq
    · exact hxa.trans ((replaceTzinfoNone_eq_instant_iff hawareA).mpr hoffsetA)
    · exact hyb.trans ((replaceTzinfoNone_eq_instant_iff hawareB).mpr hoffsetB)

/-! ## A partner in another time zone -/

namespace Sample

def hours (n : Int) : Time := n * 3600000000

/-- Placed at ten in the morning, three hours behind UTC. -/
def behindUtc : EventEnvelope :=
  envelope evtOrder1 .orderCreated { invalid with
    orderCreated := .ok { order pedido1 with placedAt := ⟨hours 10, some (hours (-3))⟩ } }

/-- Placed at noon in UTC. -/
def inUtc : EventEnvelope :=
  envelope evtOrder2 .orderCreated { invalid with
    orderCreated := .ok { order pedido2 with placedAt := ⟨hours 12, some 0⟩ } }

def twoZones : List IngestLabel :=
  attempt 0 clientEvent 10 ++ attempt 1 behindUtc 9 ++ attempt 2 inUtc 9

theorem twoZones_isSome : (after twoZones).isSome = true := by decide +kernel

def twoZonesState : IngestState := (after twoZones).get twoZones_isSome

/-- The commit of the attempt `n`. -/
def twoZonesBy (n : Nat) (hn : n < twoZonesState.shared.history.length) : IngestCommit :=
  twoZonesState.shared.history.get ⟨n, hn⟩

theorem twoZones_reachable : IngestReachable twoZonesState := after_reachable twoZones_isSome

end Sample

theorem storedInUtc_iff_twoZones :
    (∀ x ∈ (committed Sample.twoZonesState).times,
      ∃ k ∈ Sample.twoZonesState.shared.history, Wrote k x) ∧
    ∀ k ∈ Sample.twoZonesState.shared.history, ∀ l ∈ Sample.twoZonesState.shared.history, ∀ x y,
      Wrote k x → Wrote l y →
        ∃ a b, k.input.timestamp = some a ∧ l.input.timestamp = some b ∧
          (a.offset.isSome = true → b.offset.isSome = true →
            (StoredInUtc a b x y ↔ a.offset = some 0 ∧ b.offset = some 0)) :=
  storedInUtc_iff Sample.twoZones_reachable

/-- The order placed at 12:00 UTC is stored after the one that was placed at 13:00 UTC. -/
theorem storedTimes_reversed :
    ¬ ∀ s, IngestReachable s → ∀ k ∈ s.shared.history, ∀ l ∈ s.shared.history, ∀ x y,
      x ∈ (committed s).times → y ∈ (committed s).times → Wrote k x → Wrote l y →
        ∀ a b, k.input.timestamp = some a → l.input.timestamp = some b →
          a.offset.isSome = true → b.offset.isSome = true → StoredInUtc a b x y := by
  intro hall
  have hutc := hall _ Sample.twoZones_reachable
    (Sample.twoZonesBy 2 (by decide +kernel)) (List.get_mem _ _)
    (Sample.twoZonesBy 1 (by decide +kernel)) (List.get_mem _ _)
    ⟨.placedAt, 2, Sample.hours 12⟩ ⟨.placedAt, 1, Sample.hours 10⟩
    (by decide +kernel) (by decide +kernel) (by decide +kernel) (by decide +kernel)
    ⟨Sample.hours 12, some 0⟩ ⟨Sample.hours 10, some (Sample.hours (-3))⟩
    (by decide +kernel) (by decide +kernel) rfl rfl
  have hlater := hutc.ordered (by decide)
  revert hlater
  decide

end EcommerceIntegration
