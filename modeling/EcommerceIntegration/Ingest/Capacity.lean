import EcommerceIntegration.Domain.Amounts
import EcommerceIntegration.Library.Outcomes
import EcommerceIntegration.Ingest.System
import Mathlib.Algebra.Order.BigOperators.Group.List
import Mathlib.Algebra.Order.Group.Nat

/-!
# Orders that the columns cannot hold

The contract of an order bounds the price of an item, but neither its quantity nor the
totals. A value that a column cannot hold makes the driver refuse the order each time.
-/

namespace EcommerceIntegration

set_option autoImplicit false

open Transaction

/-! ## What fits -/

/-- Every value that the order stores fits its column. -/
structure OrderCreatedData.FitsColumns (d : OrderCreatedData) : Prop where
  quantity : ∀ i ∈ d.items, i.quantity < maxInteger
  unitPrice : ∀ i ∈ d.items, i.unitPrice.val < maxNumeric
  lineTotal : ∀ i ∈ d.items, i.lineTotal < maxNumeric
  totalAmount : d.totalAmount < maxNumeric

theorem maxNumeric_le : maxNumeric ≤ 10 ^ (decimalPrecision - 1) := by decide

theorem lineTotal_lt_iff (i : OrderItemPayload) :
    i.lineTotal < maxNumeric ↔ i.unitPrice.val * i.quantity < maxNumeric :=
  decimalRound_lt_iff maxNumeric_le

theorem lineTotal_eq {i : OrderItemPayload} (h : i.lineTotal < maxNumeric) :
    i.lineTotal = i.unitPrice.val * i.quantity :=
  decimalRound_of_bound maxNumeric_le ((lineTotal_lt_iff i).mp h)

/-- The total of lines that fit is below the limit exactly when their exact total is. -/
theorem totalAmount_lt_iff {d : OrderCreatedData} (h : ∀ i ∈ d.items, i.lineTotal < maxNumeric) :
    d.totalAmount < maxNumeric ↔ d.exactTotal < maxNumeric := by
  have hlines : d.items.map OrderItemPayload.lineTotal =
      d.items.map fun i => i.unitPrice.val * i.quantity :=
    List.map_congr_left fun i hi => lineTotal_eq (h i hi)
  rw [totalAmount_eq_foldl, hlines]
  exact (Decimal.foldl_roundTo (by decide) maxNumeric_le _).1

theorem fitsColumns_iff (d : OrderCreatedData) :
    d.FitsColumns ↔ (∀ i ∈ d.items, i.quantity < maxInteger) ∧ d.exactTotal < maxNumeric := by
  constructor
  · intro h
    exact ⟨h.quantity, (totalAmount_lt_iff h.lineTotal).mp h.totalAmount⟩
  · rintro ⟨hquantity, htotal⟩
    have hlines : ∀ i ∈ d.items, i.lineTotal < maxNumeric := by
      intro i hi
      apply (lineTotal_lt_iff i).mpr
      have hle : i.unitPrice.val * i.quantity ≤ d.exactTotal :=
        List.le_sum_of_mem (List.mem_map.mpr ⟨i, hi, rfl⟩)
      omega
    exact ⟨hquantity, fun i _ => i.unitPrice.property, hlines, (totalAmount_lt_iff hlines).mpr htotal⟩

/-! ## What fits of a received order -/

/-- The number is one of a Numeric(19, 4) column. -/
def FitsNumeric (x : ℚ) : Prop := ∃ n < maxNumeric, x = (⟨n, -4⟩ : Decimal).value

theorem fitsNumeric_iff {n : Nat} : FitsNumeric (⟨n, -4⟩ : Decimal).value ↔ n < maxNumeric := by
  constructor
  · rintro ⟨m, hm, heq⟩
    rwa [Decimal.value_inj.mp heq]
  · exact fun hn => ⟨n, hn, rfl⟩

/-- Every value that is computed for the received order is one of its column. -/
structure ReceivedOrder.FitsColumns (r : ReceivedOrder) : Prop where
  quantity : ∀ i ∈ r.items, i.quantity < maxInteger
  unitPrice : ∀ i ∈ r.items, ∃ d, i.storedPrice = some d ∧ FitsNumeric d.value
  lineTotal : ∀ i ∈ r.items, ∃ d, i.lineTotal = some d ∧ FitsNumeric d.value
  totalAmount : FitsNumeric r.totalAmount.value

theorem ReceivedOrder.Counts.forall_iff {r : ReceivedOrder} {d : OrderCreatedData}
    (h : r.Counts d) {P : ReceivedItem → Prop} {Q : OrderItemPayload → Prop}
    (hPQ : ∀ i item, i.Counts item → (P i ↔ Q item)) :
    (∀ i ∈ r.items, P i) ↔ ∀ item ∈ d.items, Q item := by
  have hitems := h.items
  generalize r.items = is at hitems
  generalize d.items = items at hitems
  induction hitems with
  | nil => simp
  | cons hi _ ih => simp only [List.forall_mem_cons, hPQ _ _ hi, ih]

/-- Counted in ten-thousandths, the values that fit are the same. -/
theorem ReceivedOrder.Counts.fitsColumns_iff {r : ReceivedOrder} {d : OrderCreatedData}
    (h : r.Counts d) : r.FitsColumns ↔ d.FitsColumns := by
  have hquantity : (∀ i ∈ r.items, i.quantity < maxInteger) ↔
      ∀ item ∈ d.items, item.quantity < maxInteger :=
    h.forall_iff fun i item hi => by rw [hi.quantity]
  have hprice : (∀ i ∈ r.items, ∃ d, i.storedPrice = some d ∧ FitsNumeric d.value) ↔
      ∀ item ∈ d.items, item.unitPrice.val < maxNumeric :=
    h.forall_iff fun i item hi => by
      simp [i.storedPrice_eq, hi.unitPrice, fitsNumeric_iff]
  have hline : (∀ i ∈ r.items, ∃ d, i.lineTotal = some d ∧ FitsNumeric d.value) ↔
      ∀ item ∈ d.items, item.lineTotal < maxNumeric :=
    h.forall_iff fun i item hi => by
      simp [i.lineTotal_eq, hi.amount, fitsNumeric_iff]
  have htotal : FitsNumeric r.totalAmount.value ↔ d.totalAmount < maxNumeric := by
    rw [h.totalAmount, fitsNumeric_iff]
  constructor
  · intro hfits
    exact ⟨hquantity.mp hfits.quantity, hprice.mp hfits.unitPrice, hline.mp hfits.lineTotal,
      htotal.mp hfits.totalAmount⟩
  · intro hfits
    exact ⟨hquantity.mpr hfits.quantity, hprice.mpr hfits.unitPrice, hline.mpr hfits.lineTotal,
      htotal.mpr hfits.totalAmount⟩

/-- An order whose prices are numbers of the column can be counted. -/
theorem ReceivedOrder.exists_counts {r : ReceivedOrder}
    (h : ∀ i ∈ r.items, FitsNumeric i.unitPrice.value) : ∃ d, r.Counts d := by
  have hitems : ∀ is : List ReceivedItem, (∀ i ∈ is, FitsNumeric i.unitPrice.value) →
      ∃ items, List.Forall₂ ReceivedItem.Counts is items := by
    intro is
    induction is with
    | nil => exact fun _ => ⟨[], .nil⟩
    | cons i is ih =>
      intro hprices
      obtain ⟨⟨n, hn, hprice⟩, hrest⟩ := List.forall_mem_cons.mp hprices
      obtain ⟨items, hcounts⟩ := ih hrest
      exact ⟨⟨i.sku, i.description, i.quantity, i.quantity_pos, ⟨n, hn⟩⟩ :: items,
        .cons ⟨rfl, rfl, rfl, hprice⟩ hcounts⟩
  obtain ⟨items, hcounts⟩ := hitems r.items h
  have hnonempty : items ≠ [] := by
    rintro rfl
    exact r.items_nonempty (List.forall₂_nil_right_iff.mp hcounts)
  exact ⟨⟨r.orderUid, r.clientUid, r.shippingAddressUid, r.billingAddressUid, r.currency,
    r.placedAt, items, hnonempty⟩, rfl, rfl, rfl, rfl, rfl, rfl, hcounts⟩

theorem value_tenThousandths (n : Nat) : (⟨n, -4⟩ : Decimal).value = n / 10000 := by
  rw [Decimal.value, zpow_neg, ← div_eq_mul_inv]
  norm_num

/-- No price is above the total. -/
theorem ReceivedOrder.price_le {r : ReceivedOrder} {i : ReceivedItem} (hi : i ∈ r.items) :
    i.unitPrice.value ≤ r.exactTotal := by
  have hpos : ∀ d : Decimal, 0 ≤ d.value := fun d =>
    mul_nonneg (Nat.cast_nonneg _) (zpow_nonneg (by norm_num) _)
  have hone : (1 : ℚ) ≤ i.quantity := by exact_mod_cast i.quantity_pos
  refine (le_mul_of_one_le_right (hpos _) hone).trans ?_
  refine List.single_le_sum (fun x hx => ?_) _ (List.mem_map.mpr ⟨i, hi, rfl⟩)
  obtain ⟨i', _, rfl⟩ := List.mem_map.mp hx
  exact mul_nonneg (hpos _) (Nat.cast_nonneg _)

theorem ReceivedOrder.fitsColumns_iff (r : ReceivedOrder) :
    r.FitsColumns ↔ (∀ i ∈ r.items, i.quantity ≤ 2147483647) ∧
      (∀ i ∈ r.items, ∃ n : Nat, i.unitPrice.value = n / 10000) ∧
        r.exactTotal ≤ 9999999999999999999 / 10000 := by
  have hlimits : ∀ d, r.Counts d → (r.FitsColumns ↔ (∀ i ∈ r.items, i.quantity ≤ 2147483647) ∧
      r.exactTotal ≤ 9999999999999999999 / 10000) := by
    intro d hd
    have hquantity : (∀ i ∈ r.items, i.quantity ≤ 2147483647) ↔
        ∀ item ∈ d.items, item.quantity < maxInteger :=
      hd.forall_iff fun i item hi => by rw [hi.quantity, maxInteger]; omega
    have htotal : r.exactTotal ≤ 9999999999999999999 / 10000 ↔ d.exactTotal < maxNumeric := by
      rw [hd.exactTotal, value_tenThousandths, div_le_div_iff_of_pos_right (by norm_num), maxNumeric]
      norm_cast
      omega
    rw [hd.fitsColumns_iff, EcommerceIntegration.fitsColumns_iff, hquantity, htotal]
  constructor
  · intro hfits
    have hprices : ∀ i ∈ r.items, FitsNumeric i.unitPrice.value := by
      intro i hi
      obtain ⟨d, hd, hfit⟩ := hfits.unitPrice i hi
      obtain rfl := Option.some.inj (i.storedPrice_eq.symm.trans hd)
      exact hfit
    obtain ⟨d, hd⟩ := exists_counts hprices
    obtain ⟨hquantity, htotal⟩ := (hlimits d hd).mp hfits
    refine ⟨hquantity, fun i hi => ?_, htotal⟩
    obtain ⟨n, _, heq⟩ := hprices i hi
    exact ⟨n, heq.trans (value_tenThousandths n)⟩
  · rintro ⟨hquantity, hprices, htotal⟩
    have hfit : ∀ i ∈ r.items, FitsNumeric i.unitPrice.value := by
      intro i hi
      obtain ⟨n, heq⟩ := hprices i hi
      have hle : (n : ℚ) / 10000 ≤ 9999999999999999999 / 10000 :=
        heq ▸ (price_le hi).trans htotal
      rw [div_le_div_iff_of_pos_right (by norm_num)] at hle
      rw [heq, ← value_tenThousandths, fitsNumeric_iff, maxNumeric]
      exact_mod_cast Nat.lt_succ_of_le (by exact_mod_cast hle)
    obtain ⟨d, hd⟩ := exists_counts hfit
    exact (hlimits d hd).mpr ⟨hquantity, htotal⟩

/-! ## The refusal of the driver -/

def outOfRange : String := "Numeric value out of range"

/-- The detail that the processor reports for an exception. -/
def retryDetail : Exn → String
  | .app (.dependencyNotReady message) => message
  | e => String.ofList (((exnText e).toList.takeWhile (· ∉ lineBoundaries)).take 220)

def Otherwise (e : Exn) : Prop := retryDetail e ≠ outOfRange

def NotRefused (r : Result) : Prop := r ≠ ⟨.retry, outOfRange⟩

theorem notRefused_of_outcome {r : Result} (h : r.outcome ≠ .retry) : NotRefused r :=
  fun heq => h (congrArg Result.outcome heq)

/-- The first line of a text starts as the text does. -/
theorem head?_of_firstLine {text : List Char} {p : Char → Bool} {n : Nat} {c : Char}
    (h : ((text.takeWhile p).take n).head? = some c) : text.head? = some c := by
  cases text with
  | nil => simp at h
  | cons d text =>
    cases n with
    | zero => simp at h
    | succ n =>
      cases hp : p d with
      | false => simp [hp] at h
      | true => simpa [hp] using h

theorem otherwise_integrity (c : Constraint) : Otherwise (.integrity c) := by
  have hhead : c.text.toList.head? ≠ some 'N' := by
    cases c <;> simp only [Constraint.text] <;> decide
  intro heq
  apply hhead
  have hline := congrArg (fun s => s.toList.head?) heq
  simp only [retryDetail, String.toList_ofList] at hline
  exact head?_of_firstLine hline

theorem otherwise_dependency {message suffix : String} {c : Char} (hc : c ≠ 'N')
    (hmessage : message.toList.head? = some c) :
    Otherwise (.app (.dependencyNotReady (message ++ suffix))) := by
  intro heq
  have hhead := congrArg (fun s => s.toList.head?) heq
  simp only [retryDetail, String.toList_append, List.head?_append, hmessage] at hhead
  exact hc (Option.some.inj hhead)

section Ends
variable {α : Type} {P : α → Prop} {Q : Exn → Prop}

theorem perform_ends (o : Op store) : (perform o).Ends Otherwise (fun _ => True) Otherwise :=
  Program.Ends.perform (fun _ he => he) o

theorem select_ends (query : Database → α) :
    (select query).Ends Otherwise (fun _ => True) Otherwise :=
  (perform_ends .select).andThen fun _ _ => trivial

theorem requireDependency_ends {message : String} (o : Option α)
    (hmessage : Otherwise (.app (.dependencyNotReady message))) :
    (requireDependency message o).Ends Otherwise (fun _ => True) Otherwise := by
  cases o with
  | none => exact hmessage
  | some a => trivial

theorem requireFits_ends {fits : Bool} (h : fits = true) :
    (requireFits fits).Ends Otherwise (fun _ => True) Otherwise := by
  rw [h]
  trivial

theorem requireCurrentAddress_ends (uid : String) :
    (OrderCreatedHandler.requireCurrentAddress uid).Ends Otherwise (fun _ => True) Otherwise := by
  refine (select_ends _).andThen fun a _ => requireDependency_ends a ?_
  rw [String.append_assoc]
  exact otherwise_dependency (c := 'e') (by decide) (by decide)

theorem resolveBillingAddress_ends (data : OrderCreatedData) (shipping : Address) :
    (OrderCreatedHandler.resolveBillingAddress data shipping).Ends Otherwise (fun _ => True)
      Otherwise := by
  unfold OrderCreatedHandler.resolveBillingAddress
  split
  · trivial
  · split
    · trivial
    · exact requireCurrentAddress_ends _

theorem addItems_ends {items : List OrderItemPayload} (orderId : Nat)
    (h : ∀ i ∈ items, i.quantity < maxInteger ∧ i.lineTotal < maxNumeric) :
    (OrderRepository.addItems orderId items).Ends Otherwise (fun _ => True) Otherwise := by
  induction items with
  | nil => trivial
  | cons item items ih =>
    have hitem := h item List.mem_cons_self
    refine (requireFits_ends ?_).andThen fun _ _ => (perform_ends _).andThen fun _ _ => ?_
    · simp [hitem.1, hitem.2]
    · exact ih fun i hi => h i (List.mem_cons_of_mem _ hi)

/-- An order that fits its columns is not refused for its values. -/
theorem orderHandler_ends {i : EventEnvelope} {data : OrderCreatedData}
    (hdata : i.data.orderCreated = .ok data) (hfits : data.FitsColumns) :
    (OrderCreatedHandler.handle i).Ends Otherwise (fun _ => True) Otherwise := by
  simp only [OrderCreatedHandler.handle, hdata, validate, OrderRepository.create,
    OrderRepository.exists, ClientRepository.getByUid, Program.bind_eq, Program.pure_eq,
    Program.done_andThen]
  refine (select_ends _).andThen fun stored _ => ?_
  split
  · trivial
  · refine (select_ends _).andThen fun client _ =>
      (requireDependency_ends client ?_).andThen fun client _ =>
        (requireCurrentAddress_ends _).andThen fun shipping _ =>
          (resolveBillingAddress_ends data shipping).andThen fun billing _ =>
            Program.Ends.andThen (P := fun _ => True) ?_ fun _ _ => trivial
    · rw [String.append_assoc]
      exact otherwise_dependency (c := 'c') (by decide) (by decide)
    · refine (requireFits_ends (by simpa using hfits.totalAmount)).andThen fun _ _ =>
        (perform_ends _).andThen fun orderId _ => (addItems_ends orderId ?_).andThen fun _ _ => trivial
      exact fun item hi => ⟨hfits.quantity item hi, hfits.lineTotal item hi⟩

/-! ## What the processor makes of it -/

theorem release_ends (eventId : String) :
    (RedisDeduplicator.release eventId).Ends Otherwise (fun _ => True) fun _ => False := by
  refine Program.Ends.handle (Q := Otherwise) ?_ fun _ _ => trivial
  exact (perform_ends _).andThen fun _ _ => trivial

theorem claim_ends (eventId : String) :
    (RedisDeduplicator.claim eventId).Ends Otherwise (fun _ => True) fun _ => False :=
  Program.Ends.handle (perform_ends _) fun _ _ => trivial

theorem scope_ends {body : Session α} (hbody : body.Ends Otherwise P Otherwise) :
    (UnitOfWork.scope body).Ends Otherwise P Otherwise := by
  unfold UnitOfWork.scope
  refine Program.Ends.andThen (P := EndsIn P Otherwise) ?_ fun result hresult => ?_
  · refine Program.Ends.handle (Q := Otherwise) ?_ fun e he => ?_
    · exact hbody.andThen fun a ha => ha
    · exact (perform_ends .rollback).andThen fun _ _ => he
  · refine (perform_ends .rollback).andThen fun _ _ => ?_
    cases result with
    | ok a => exact hresult
    | error e => exact hresult

theorem claimInLedger_ends (i : EventEnvelope) :
    (EventProcessor.claimInLedger i).Ends Otherwise (fun _ => True) Otherwise := by
  refine Program.Ends.handle (Q := Otherwise) ?_ fun e he => ?_
  · exact (perform_ends _).andThen fun _ _ => trivial
  · cases e with
    | integrity c => exact (perform_ends .rollback).andThen fun _ _ => trivial
    | fault m => exact he
    | app e => exact he

theorem applyHandler_ends {handler : EventHandler} {i : EventEnvelope}
    (h : (handler i).Ends Otherwise (fun _ => True) Otherwise) :
    (EventProcessor.applyHandler handler i).Ends Otherwise NotRefused Otherwise := by
  refine Program.Ends.handle (Q := Otherwise) ?_ fun e he => ?_
  · exact h.andThen fun _ _ =>
      (perform_ends .commit).andThen fun _ _ => notRefused_of_outcome (by decide)
  · cases e with
    | integrity c =>
      exact (perform_ends .rollback).andThen fun _ _ => notRefused_of_outcome (by decide)
    | fault m => exact he
    | app e => exact he

theorem failed_ends (i : EventEnvelope) {e : Exn} (he : Otherwise e) :
    (EventProcessor.failed i e).Ends Otherwise NotRefused fun _ => True := by
  have hdetail : NotRefused ⟨.retry, retryDetail e⟩ := fun heq => he (congrArg Result.detail heq)
  have hsummary : ∀ e : Exn, NotRefused ⟨.retry, String.ofList
      (((exnText e).toList.takeWhile (· ∉ lineBoundaries)).take 220)⟩ →
      (do return ⟨.retry, ← summarize e⟩ : Session Result).Ends Otherwise NotRefused
        fun _ => True := by
    intro e hrefused
    unfold summarize
    split
    · trivial
    · exact hrefused
  refine ((release_ends i.eventId).mono (fun _ h => h) fun _ h => h.elim).andThen fun _ _ => ?_
  cases e with
  | integrity c => exact hsummary _ hdetail
  | fault m => exact hsummary _ hdetail
  | app e =>
    cases e with
    | dependencyNotReady message => exact hdetail
    | validation | keyError | attributeError | indexError => exact hsummary _ hdetail

theorem ingest_ends {i : EventEnvelope}
    (h : (handlerOf i.eventType i).Ends Otherwise (fun _ => True) Otherwise) :
    (ingest i).Ends Otherwise NotRefused fun _ => True := by
  unfold ingest EventProcessor.process
  split
  · refine ((claim_ends i.eventId).mono (fun _ h => h) fun _ h => h.elim).andThen
      fun claimed _ => ?_
    split
    · refine Program.Ends.handle (Q := Otherwise) ?_ fun e he => failed_ends i he
      unfold EventProcessor.apply
      simp only [HandlerRegistry.get, find_buildRegistry, Program.pure_eq, Program.bind_eq,
        Program.done_andThen]
      refine scope_ends ((claimInLedger_ends i).andThen fun first _ => ?_)
      split
      · exact applyHandler_ends h
      · exact notRefused_of_outcome (by decide)
    · exact notRefused_of_outcome (by decide)
  · exact notRefused_of_outcome (by simp)

end Ends

/-! ## Which orders are never refused -/

/-- No attempt at an event with these data is refused for a value that a column cannot hold,
whatever other attempts do and whichever other faults there are. -/
def NeverRefused (data : OrderCreatedData) : Prop :=
  ∀ clock reserved ls s, ingestRun (initial clock reserved) ls = some s →
    (∀ n m applied, .exec n (.fault m applied) ∈ ls → Otherwise (.fault m)) →
    ∀ r ∈ s.returned, r.input.eventType = .orderCreated ∧ r.input.data.orderCreated = .ok data →
      r.result ≠ .ok ⟨.retry, outOfRange⟩

theorem neverRefused_of_fits {data : OrderCreatedData} (hfits : data.FitsColumns) :
    NeverRefused data := by
  intro clock reserved ls s hrun hfaults r hr hinput heq
  have hends := run_ends (J := fun i : EventEnvelope =>
      i.eventType = .orderCreated ∧ i.data.orderCreated = .ok data)
    (fun i hi => ingest_ends (by rw [hi.1]; exact orderHandler_ends hi.2 hfits))
    otherwise_integrity hfaults hrun
  have hresult := hends.returned r hr hinput
  rw [heq] at hresult
  exact hresult rfl

/-- All values of an order fit their columns, and it is never refused, if and only if every
quantity is a 32-bit integer, every price is a number of ten-thousandths and the exact total
has at most 15 digits before the point. -/
theorem storable_iff (r : ReceivedOrder) :
    (r.FitsColumns ∧ ∀ data, r.Counts data → NeverRefused data) ↔
      (∀ i ∈ r.items, i.quantity ≤ 2147483647) ∧
        (∀ i ∈ r.items, ∃ n : Nat, i.unitPrice.value = n / 10000) ∧
          r.exactTotal ≤ 9999999999999999999 / 10000 := by
  rw [← r.fitsColumns_iff]
  constructor
  · exact fun h => h.1
  · exact fun h => ⟨h, fun data hdata => neverRefused_of_fits (hdata.fitsColumns_iff.mp h)⟩

/-! ## A quantity of 2147483648 -/

namespace Sample

def manyItems : OrderItemPayload :=
  { item with
    quantity := 2147483648
    quantity_pos := by decide
    unitPrice := ⟨1, by decide⟩ }

def manyOrder : OrderCreatedData :=
  { order pedido1 with
    items := [manyItems]
    items_nonempty := by decide }

/-- The same order as it is received. -/
def manyReceived : ReceivedOrder where
  orderUid := manyOrder.orderUid
  clientUid := manyOrder.clientUid
  shippingAddressUid := manyOrder.shippingAddressUid
  billingAddressUid := manyOrder.billingAddressUid
  currency := manyOrder.currency
  placedAt := manyOrder.placedAt
  items := [⟨manyItems.sku, manyItems.description, 2147483648, by decide, ⟨1, -4⟩⟩]
  items_nonempty := by decide

theorem manyReceived_counts : manyReceived.Counts manyOrder :=
  ⟨rfl, rfl, rfl, rfl, rfl, rfl, .cons ⟨rfl, rfl, rfl, rfl⟩ .nil⟩

def manyEvent : EventEnvelope :=
  envelope evtOrder1 .orderCreated { invalid with orderCreated := .ok manyOrder }

def manyRun : List IngestLabel := attempt 0 clientEvent 10 ++ attempt 1 manyEvent 9

theorem manyRun_isSome : (after manyRun).isSome = true := by decide +kernel

/-- What the attempt at the order returned. -/
def manyReturned : Returned store EventEnvelope Result :=
  ((after manyRun).get manyRun_isSome).returned.get ⟨1, by decide +kernel⟩

end Sample

/-- An order of 2147483648 items at 0.0001 is valid, and is not stored. -/
theorem manyOrder_refused :
    (¬ ∀ (r : ReceivedOrder) (data : OrderCreatedData), r.Counts data → r.FitsColumns) ∧
    ¬ ∀ (r : ReceivedOrder) (data : OrderCreatedData), r.Counts data → NeverRefused data := by
  constructor
  · intro hall
    have hfits := hall _ _ Sample.manyReceived_counts
    have hquantity := hfits.quantity _ List.mem_cons_self
    revert hquantity
    decide
  · intro hall
    refine hall _ _ Sample.manyReceived_counts _ _ _ _ (Sample.after_run Sample.manyRun_isSome) ?_
      Sample.manyReturned (List.get_mem _ _) ⟨rfl, rfl⟩ rfl
    intro n m applied hmem
    revert hmem
    simp [Sample.manyRun, Sample.attempt, Sample.steps]

end EcommerceIntegration
