import EcommerceIntegration.Domain.Events
import EcommerceIntegration.Library.DecimalText

/-!
# The amounts of an order

The source computes with decimals in the notation of the payload, once on the validated
items and once on items whose prices have been written out and read again. Both give the
amounts that the model counts in ten-thousandths.
-/

namespace EcommerceIntegration

set_option autoImplicit false

/-! ## Rounding -/

theorem excessDigits_eq {fuel n : Nat} (hn : n ≤ fuel) :
    excessDigits fuel n = Decimal.digitCount n - decimalPrecision := by
  induction fuel generalizing n with
  | zero =>
    obtain rfl := Nat.le_zero.mp hn
    decide
  | succ fuel ih =>
    unfold excessDigits
    have hcount : Decimal.digitCount n ≤ decimalPrecision ↔ n < 10 ^ decimalPrecision :=
      Decimal.digitCount_le_iff (by decide)
    split
    · rename_i hlt
      exact (Nat.sub_eq_zero_of_le (hcount.mpr hlt)).symm
    · rename_i hge
      have hten : 10 ≤ n := by
        unfold decimalPrecision at hge
        omega
      have hmore : decimalPrecision < Decimal.digitCount n :=
        Nat.not_le.mp fun hle => hge (hcount.mp hle)
      rw [Decimal.digitCount_of_le hten] at hmore ⊢
      rw [ih (by omega)]
      omega

theorem decimalRound_eq (n : Nat) : decimalRound n = Decimal.roundTo decimalPrecision n := by
  unfold decimalRound
  rw [excessDigits_eq (Nat.le_refl n)]
  rfl

section Bound
variable {bound : Nat}

theorem decimalRound_lt_iff (hbound : bound ≤ 10 ^ (decimalPrecision - 1)) {n : Nat} :
    decimalRound n < bound ↔ n < bound := by
  rw [decimalRound_eq]
  exact Decimal.roundTo_lt_iff (by decide) hbound

theorem decimalRound_of_bound (hbound : bound ≤ 10 ^ (decimalPrecision - 1)) {n : Nat}
    (hn : n < bound) : decimalRound n = n := by
  rw [decimalRound_eq]
  exact Decimal.roundTo_of_bound (by decide) hbound hn

theorem totalAmount_eq_foldl (d : OrderCreatedData) : d.totalAmount =
    (d.items.map OrderItemPayload.lineTotal).foldl
      (fun acc n => Decimal.roundTo decimalPrecision (acc + n)) 0 := by
  rw [List.foldl_map]
  simp only [OrderCreatedData.totalAmount, decimalRound_eq]

end Bound

/-! ## Prices as they are written -/

/-- An item with its price in the notation of the payload. -/
structure WrittenItem where
  item : OrderItemPayload
  unitPrice : Decimal
  price_value : unitPrice.value = (⟨item.unitPrice, -4⟩ : Decimal).value

/-- `i.unit_price * i.quantity`, on a validated item. -/
def WrittenItem.amount (w : WrittenItem) : Decimal :=
  Decimal.mul decimalPrecision w.unitPrice (.ofNat w.item.quantity)

/-- `sum((i.unit_price * i.quantity for i in self.items), Decimal("0"))`. -/
def writtenTotal (ws : List WrittenItem) : Decimal :=
  ws.foldl (fun acc w => Decimal.add decimalPrecision acc w.amount) (.ofNat 0)

/-- `Decimal(str(item["unit_price"])) * quantity`, on a dumped item. -/
def WrittenItem.lineTotal (w : WrittenItem) : Option Decimal :=
  (Decimal.ofText? w.unitPrice.text).map fun unitPrice =>
    Decimal.mul decimalPrecision unitPrice (.ofNat w.item.quantity)

theorem WrittenItem.lineTotal_eq (w : WrittenItem) : w.lineTotal = some w.amount := by
  rw [WrittenItem.lineTotal, Decimal.ofText?_text]
  rfl

theorem WrittenItem.value_amount (w : WrittenItem) :
    w.amount.value = (⟨w.item.lineTotal, -4⟩ : Decimal).value := by
  unfold OrderItemPayload.lineTotal
  rw [decimalRound_eq]
  exact Decimal.value_mul_ofNat (by decide) w.price_value _

/-- The sum of the amounts of the lines is the total of the model, whatever their notation. -/
theorem value_foldl_amounts {d : OrderCreatedData} {amounts : List Decimal}
    (hlines : List.Forall₂ (fun (amount : Decimal) n => amount.value = (⟨n, -4⟩ : Decimal).value)
      amounts (d.items.map OrderItemPayload.lineTotal)) :
    (amounts.foldl (Decimal.add decimalPrecision) (.ofNat 0)).value =
      (⟨d.totalAmount, -4⟩ : Decimal).value := by
  rw [totalAmount_eq_foldl]
  exact Decimal.value_foldl_add (by decide) hlines (by simp [Decimal.value, Decimal.ofNat])

theorem value_writtenTotal {d : OrderCreatedData} {ws : List WrittenItem}
    (hws : ws.map WrittenItem.item = d.items) :
    (writtenTotal ws).value = (⟨d.totalAmount, -4⟩ : Decimal).value := by
  have hlines : List.Forall₂
      (fun (amount : Decimal) n => amount.value = (⟨n, -4⟩ : Decimal).value)
      (ws.map WrittenItem.amount) (d.items.map OrderItemPayload.lineTotal) := by
    rw [← hws, List.map_map, List.forall₂_map_left_iff, List.forall₂_map_right_iff]
    exact List.forall₂_same.mpr fun w _ => w.value_amount
  rw [writtenTotal, ← List.foldl_map]
  exact value_foldl_amounts hlines

/-! ## Orders as they are received -/

/-- An item with any price, as far as validation lets it through. -/
structure ReceivedItem where
  sku : Text 0 40
  description : Text 0 200
  quantity : Nat
  quantity_pos : 0 < quantity
  unitPrice : Decimal

structure ReceivedOrder where
  orderUid : Text 1 64
  clientUid : Text 1 64
  shippingAddressUid : Text 1 64
  billingAddressUid : Option String
  currency : Text 3 3
  placedAt : DateTime
  items : List ReceivedItem
  items_nonempty : items ≠ []

/-- `Decimal(str(item["unit_price"]))`, on a dumped item. -/
def ReceivedItem.storedPrice (i : ReceivedItem) : Option Decimal := Decimal.ofText? i.unitPrice.text

/-- `unit_price * quantity`, on a dumped item. -/
def ReceivedItem.lineTotal (i : ReceivedItem) : Option Decimal :=
  i.storedPrice.map fun unitPrice => Decimal.mul decimalPrecision unitPrice (.ofNat i.quantity)

/-- `i.unit_price * i.quantity`, on a validated item. -/
def ReceivedItem.amount (i : ReceivedItem) : Decimal :=
  Decimal.mul decimalPrecision i.unitPrice (.ofNat i.quantity)

/-- `sum((i.unit_price * i.quantity for i in self.items), Decimal("0"))`. -/
def ReceivedOrder.totalAmount (r : ReceivedOrder) : Decimal :=
  (r.items.map ReceivedItem.amount).foldl (Decimal.add decimalPrecision) (.ofNat 0)

/-- The exact total. -/
def ReceivedOrder.exactTotal (r : ReceivedOrder) : ℚ :=
  (r.items.map fun i => i.unitPrice.value * (i.quantity : ℚ)).sum

/-- The item with its price counted in ten-thousandths. -/
structure ReceivedItem.Counts (i : ReceivedItem) (item : OrderItemPayload) : Prop where
  sku : i.sku = item.sku
  description : i.description = item.description
  quantity : i.quantity = item.quantity
  unitPrice : i.unitPrice.value = (⟨item.unitPrice, -4⟩ : Decimal).value

/-- The order with its prices counted in ten-thousandths. -/
structure ReceivedOrder.Counts (r : ReceivedOrder) (d : OrderCreatedData) : Prop where
  orderUid : r.orderUid = d.orderUid
  clientUid : r.clientUid = d.clientUid
  shippingAddressUid : r.shippingAddressUid = d.shippingAddressUid
  billingAddressUid : r.billingAddressUid = d.billingAddressUid
  currency : r.currency = d.currency
  placedAt : r.placedAt = d.placedAt
  items : List.Forall₂ ReceivedItem.Counts r.items d.items

theorem ReceivedItem.storedPrice_eq (i : ReceivedItem) : i.storedPrice = some i.unitPrice :=
  Decimal.ofText?_text i.unitPrice

theorem ReceivedItem.lineTotal_eq (i : ReceivedItem) : i.lineTotal = some i.amount := by
  rw [lineTotal, storedPrice_eq]
  rfl

theorem ReceivedItem.Counts.amount {i : ReceivedItem} {item : OrderItemPayload}
    (h : i.Counts item) : i.amount.value = (⟨item.lineTotal, -4⟩ : Decimal).value := by
  rw [ReceivedItem.amount, h.quantity]
  exact (WrittenItem.mk item i.unitPrice h.unitPrice).value_amount

theorem ReceivedOrder.Counts.totalAmount {r : ReceivedOrder} {d : OrderCreatedData}
    (h : r.Counts d) : r.totalAmount.value = (⟨d.totalAmount, -4⟩ : Decimal).value := by
  have hlines : List.Forall₂
      (fun (amount : Decimal) n => amount.value = (⟨n, -4⟩ : Decimal).value)
      (r.items.map ReceivedItem.amount) (d.items.map OrderItemPayload.lineTotal) := by
    rw [List.forall₂_map_left_iff, List.forall₂_map_right_iff]
    exact h.items.imp fun _ _ hi => hi.amount
  exact value_foldl_amounts hlines

/-! ## Amounts that fit -/

/-- The exact total, in ten-thousandths. -/
def OrderCreatedData.exactTotal (d : OrderCreatedData) : Nat :=
  (d.items.map fun i => i.unitPrice.val * i.quantity).sum

theorem ReceivedOrder.Counts.exactTotal {r : ReceivedOrder} {d : OrderCreatedData}
    (h : r.Counts d) : r.exactTotal = (⟨d.exactTotal, -4⟩ : Decimal).value := by
  have hsum : ∀ {is : List ReceivedItem} {items : List OrderItemPayload},
      List.Forall₂ ReceivedItem.Counts is items →
      (is.map fun i => i.unitPrice.value * (i.quantity : ℚ)).sum =
        (⟨(items.map fun i => i.unitPrice.val * i.quantity).sum, -4⟩ : Decimal).value := by
    intro is items hitems
    induction hitems with
    | nil => simp [Decimal.value]
    | cons hi _ ih =>
      rw [List.map_cons, List.sum_cons, ih, List.map_cons, List.sum_cons, hi.unitPrice, hi.quantity]
      simp only [Decimal.value, Nat.cast_add, Nat.cast_mul]
      ring
  exact hsum h.items

end EcommerceIntegration
