import EcommerceIntegration.BulkLoad.Catalog
import Mathlib.Data.List.Range
import Mathlib.Data.List.Nodup
import Mathlib.Tactic.Ring

/-!
# Generation of the order history

The planner cuts the volume into chunks. The generator numbers the orders of a chunk
from the index of the chunk times the size of this chunk, so a short last chunk repeats
numbers of the chunks before it.
-/

namespace EcommerceIntegration.BulkLoad

set_option autoImplicit false

def cpfPoolSize : Nat := 5000
def clientUniverse : Nat := 900000
def maxItemsPerOrder : Nat := 4
def maxFreight : Nat := 8990
def statusWeights : List Nat := [70, 20, 7, 3]
def orderDateSpanDays : Nat := 1000
def chunkSeedOffset : Nat := 1000

/-- The format `0<width>d`. -/
def zeroPad (width n : Nat) : String :=
  String.ofList ((Nat.toDigits 10 n).leftpad width '0')

/-- A row of the history. The date is in days after the first order date. -/
structure OrderRow (F : Type) where
  orderUid : String
  clientUid : String
  clientDocument : String
  orderDate : Nat
  channel : String
  paymentMethod : String
  status : String
  sku : String
  productName : String
  category : String
  quantity : Nat
  unitPrice : F
  freightAmount : F
  totalAmount : F
  state : String
  city : String

def orderUid (sequence : Nat) : String := "HIST-" ++ zeroPad 12 sequence

section Rows
variable {G F : Type} (rng : Random G F)

/-- The body of the loop. -/
def generateRow (cpfPool : {l : List String // l.length = cpfPoolSize}) (sequence : Nat) :
    StateM G (OrderRow F) := do
  let product ← rng.choice products (by decide)
  let (state, city, _) ← rng.choice locations (by decide)
  let quantity ← rng.randint 1 maxItemsPerOrder
  let unitPrice := rng.round2
    (← rng.uniform (rng.ofCents product.minPrice) (rng.ofCents product.maxPrice))
  let freight := rng.round2 (← rng.uniform (rng.ofCents 0) (rng.ofCents maxFreight))
  let client ← rng.randint 1 clientUniverse
  let orderDate ← rng.randint 0 orderDateSpanDays
  let channel ← rng.choice channels (by decide)
  let paymentMethod ← rng.choice paymentMethods (by decide)
  let status ← rng.choices orderStatuses statusWeights (by decide) rfl
  return {
    orderUid := orderUid sequence
    clientUid := "CLI-" ++ zeroPad 8 client
    clientDocument := cpfPool.1.get ⟨sequence % cpfPoolSize, by
      rw [cpfPool.2]
      exact Nat.mod_lt _ (by decide)⟩
    orderDate := orderDate
    channel := channel
    paymentMethod := paymentMethod
    status := status
    sku := product.sku
    productName := product.name
    category := product.category
    quantity := quantity
    unitPrice := unitPrice
    freightAmount := freight
    totalAmount := rng.round2 (rng.total unitPrice quantity freight)
    state := state
    city := city }

/-- `remaining` rows from `offset` on. -/
def rowsFrom (cpfPool : {l : List String // l.length = cpfPoolSize}) (firstSequence : Nat) :
    (offset remaining : Nat) → G → List (OrderRow F)
  | _, 0, _ => []
  | offset, remaining + 1, g =>
    let drawn := generateRow rng cpfPool (firstSequence + offset) g
    drawn.1 :: rowsFrom cpfPool firstSequence (offset + 1) remaining drawn.2

def generateRows (chunkIndex rowCount : Nat) : List (OrderRow F) :=
  let firstSequence := chunkIndex * rowCount
  let drawn := drawMany (generateCpf rng) cpfPoolSize (rng.seed (chunkSeedOffset + chunkIndex))
  rowsFrom rng drawn.1 firstSequence 0 rowCount drawn.2

end Rows

structure Chunk where
  chunkIndex : Nat
  rowCount : Nat
  deriving DecidableEq

/-- The loop of `plan_chunks`. -/
def planLoop (chunkSize : Nat) (hpos : 0 < chunkSize) (remaining : Nat) (chunks : List Chunk) :
    List Chunk :=
  if 0 < remaining then
    let size := min chunkSize remaining
    planLoop chunkSize hpos (remaining - size) (chunks ++ [⟨chunks.length, size⟩])
  else chunks
termination_by remaining
decreasing_by omega

def planChunks (rowCount chunkSize : Int) : Except String (List Chunk) :=
  if h : rowCount ≤ 0 ∨ chunkSize ≤ 0 then
    .error "row_count e chunk_size precisam ser positivos"
  else
    .ok (planLoop chunkSize.toNat (by omega) rowCount.toNat [])

/-! ## The plan -/

/-- The number of chunks. -/
def chunkCount (rowCount chunkSize : Nat) : Nat := (rowCount + chunkSize - 1) / chunkSize

theorem planLoop_eq {chunkSize : Nat} (hpos : 0 < chunkSize) (remaining : Nat)
    (chunks : List Chunk) :
    planLoop chunkSize hpos remaining chunks =
      chunks ++ (List.range (chunkCount remaining chunkSize)).map fun k =>
        ⟨chunks.length + k, min chunkSize (remaining - k * chunkSize)⟩ := by
  induction remaining using Nat.strong_induction_on generalizing chunks with
  | _ remaining ih =>
    rw [planLoop]
    split
    · rename_i hrem
      have hcount : chunkCount remaining chunkSize =
          chunkCount (remaining - min chunkSize remaining) chunkSize + 1 := by
        unfold chunkCount
        rw [← Nat.add_div_right _ hpos]
        rcases Nat.le_total chunkSize remaining with hle | hle
        · rw [Nat.min_eq_left hle]
          congr 1
          omega
        · have hone : (remaining + chunkSize - 1) / chunkSize = 1 :=
            Nat.div_eq_of_lt_le (by omega) (by omega)
          have hone' : (0 + chunkSize - 1 + chunkSize) / chunkSize = 1 :=
            Nat.div_eq_of_lt_le (by omega) (by omega)
          rw [Nat.min_eq_right hle, Nat.sub_self, hone, hone']
      rw [ih _ (by omega), hcount, List.range_succ_eq_map, List.map_cons, List.map_map,
        List.append_assoc, List.singleton_append]
      congr 1
      refine List.cons_eq_cons.mpr ⟨by simp, List.map_congr_left fun k hk => ?_⟩
      have hlt := List.mem_range.mp hk
      simp only [List.length_append, List.length_singleton, Function.comp_apply, Chunk.mk.injEq,
        Nat.succ_eq_add_one, Nat.add_mul]
      refine ⟨by omega, ?_⟩
      rcases Nat.le_total chunkSize remaining with hle | hle
      · rw [Nat.min_eq_left hle]
        congr 1
        omega
      · rw [Nat.min_eq_right hle, Nat.sub_self] at hlt
        rw [chunkCount, Nat.div_eq_of_lt (by omega)] at hlt
        omega
    · rename_i hrem
      have hzero : chunkCount remaining chunkSize = 0 := by
        rw [chunkCount, Nat.div_eq_of_lt (by omega)]
      simp [hzero]

/-- What `plan_chunks` answers. -/
theorem planChunks_eq {rowCount chunkSize : Nat} (hr : 0 < rowCount) (hc : 0 < chunkSize) :
    planChunks rowCount chunkSize =
      .ok ((List.range (chunkCount rowCount chunkSize)).map fun k =>
        ⟨k, min chunkSize (rowCount - k * chunkSize)⟩) := by
  have hpos : ¬ ((rowCount : Int) ≤ 0 ∨ (chunkSize : Int) ≤ 0) := by omega
  rw [planChunks, dif_neg hpos]
  simp only [Int.toNat_natCast, planLoop_eq, List.nil_append, List.length_nil, Nat.zero_add]

/-! ## The numbers of the orders -/

theorem ofDigitChars_zeroPad (width n : Nat) :
    Nat.ofDigitChars 10 (zeroPad width n).toList 0 = n := by
  rw [zeroPad, String.toList_ofList, List.leftpad, Nat.ofDigitChars_append,
    Nat.ofDigitChars_replicate_zero, Nat.mul_zero, Nat.ofDigitChars_ten_toDigits]

theorem zeroPad_injective (width : Nat) : Function.Injective (zeroPad width) := by
  intro m n h
  calc
    m = Nat.ofDigitChars 10 (zeroPad width m).toList 0 := (ofDigitChars_zeroPad width m).symm
    _ = Nat.ofDigitChars 10 (zeroPad width n).toList 0 := by rw [h]
    _ = n := ofDigitChars_zeroPad width n

theorem orderUid_injective : Function.Injective orderUid := by
  intro m n h
  exact zeroPad_injective 12 (String.append_right_inj _ |>.mp h)

section Uids
variable {G F : Type} (rng : Random G F)

theorem generateRow_orderUid (cpfPool : {l : List String // l.length = cpfPoolSize})
    (sequence : Nat) (g : G) : (generateRow rng cpfPool sequence g).1.orderUid = orderUid sequence :=
  rfl

theorem rowsFrom_orderUid (cpfPool : {l : List String // l.length = cpfPoolSize})
    (firstSequence offset remaining : Nat) (g : G) :
    (rowsFrom rng cpfPool firstSequence offset remaining g).map OrderRow.orderUid =
      (List.range' offset remaining).map fun k => orderUid (firstSequence + k) := by
  induction remaining generalizing offset g with
  | zero => rfl
  | succ remaining ih =>
    simp only [rowsFrom, List.map_cons, generateRow_orderUid, ih, List.range'_succ]

/-- The sequence numbers of a chunk. -/
def sequences (c : Chunk) : List Nat := (List.range c.rowCount).map (c.chunkIndex * c.rowCount + ·)

theorem generateRows_orderUid (c : Chunk) :
    (generateRows rng c.chunkIndex c.rowCount).map OrderRow.orderUid =
      (sequences c).map orderUid := by
  rw [generateRows, rowsFrom_orderUid, sequences, List.map_map, List.range_eq_range']
  rfl

/-- The order uids of all chunks, in the order of the plan. -/
def historyUids (chunks : List Chunk) : List String :=
  chunks.flatMap fun c => (generateRows rng c.chunkIndex c.rowCount).map OrderRow.orderUid

theorem historyUids_eq (chunks : List Chunk) :
    historyUids rng chunks = (chunks.flatMap sequences).map orderUid := by
  simp only [historyUids, generateRows_orderUid, List.map_flatMap]

end Uids

/-- Blocks of one size, one after the other. -/
theorem flatMap_blocks (n size : Nat) :
    ((List.range n).flatMap fun k => (List.range size).map (k * size + ·)) =
      List.range (n * size) := by
  induction n with
  | zero => simp
  | succ n ih =>
    rw [List.range_succ, List.flatMap_append, ih, List.flatMap_singleton, Nat.succ_mul,
      List.range_add]

/-- All chunks but a short last one number their orders without a gap. -/
theorem planned_sequences {rowCount chunkSize : Nat} (hc : 0 < chunkSize) :
    ((List.range (chunkCount rowCount chunkSize)).map fun k =>
        (⟨k, min chunkSize (rowCount - k * chunkSize)⟩ : Chunk)).flatMap sequences =
      List.range (rowCount / chunkSize * chunkSize) ++
        (List.range (rowCount % chunkSize)).map
          (rowCount / chunkSize * (rowCount % chunkSize) + ·) := by
  have hdiv : rowCount / chunkSize * chunkSize + rowCount % chunkSize = rowCount :=
    Nat.div_add_mod' rowCount chunkSize
  have hmod := Nat.mod_lt rowCount hc
  generalize hq : rowCount / chunkSize = q at hdiv ⊢
  generalize hr : rowCount % chunkSize = r at hdiv hmod ⊢
  have hfull : ((List.range q).flatMap fun k =>
      sequences ⟨k, min chunkSize (rowCount - k * chunkSize)⟩) = List.range (q * chunkSize) := by
    rw [← flatMap_blocks]
    refine List.flatMap_congr fun k hk => ?_
    have hlt := List.mem_range.mp hk
    have hle : k * chunkSize + chunkSize ≤ q * chunkSize := by
      rw [← Nat.succ_mul]
      exact Nat.mul_le_mul_right _ hlt
    rw [sequences, Nat.min_eq_left (by omega)]
  rw [List.flatMap_map]
  by_cases hzero : r = 0
  · subst hzero
    have hcount : chunkCount rowCount chunkSize = q := by
      unfold chunkCount
      exact Nat.div_eq_of_lt_le (by omega) (by rw [Nat.succ_mul]; omega)
    simpa [hcount] using hfull
  · have hcount : chunkCount rowCount chunkSize = q + 1 := by
      unfold chunkCount
      exact Nat.div_eq_of_lt_le (by rw [Nat.succ_mul]; omega) (by
        rw [Nat.succ_mul, Nat.succ_mul]; omega)
    have hlast : min chunkSize (rowCount - q * chunkSize) = r := by omega
    rw [hcount, List.range_succ, List.flatMap_append, hfull, List.flatMap_singleton, hlast]
    rfl

/-- The numbers are distinct exactly when there is no short chunk after a full one. -/
theorem nodup_sequences_iff {rowCount chunkSize : Nat} (hc : 0 < chunkSize) :
    (List.range (rowCount / chunkSize * chunkSize) ++
      (List.range (rowCount % chunkSize)).map
        (rowCount / chunkSize * (rowCount % chunkSize) + ·)).Nodup ↔
      chunkSize ∣ rowCount ∨ rowCount ≤ chunkSize := by
  have hmod := Nat.mod_lt rowCount hc
  constructor
  · intro hnodup
    by_contra hnot
    obtain ⟨hndvd, hlt⟩ := not_or.mp hnot
    have hr : 0 < rowCount % chunkSize :=
      Nat.pos_of_ne_zero fun hzero => hndvd (Nat.dvd_of_mod_eq_zero hzero)
    have hq : 0 < rowCount / chunkSize := Nat.div_pos (by omega) hc
    -- the first number of the last chunk has been used
    refine List.disjoint_of_nodup_append hnodup
      (a := rowCount / chunkSize * (rowCount % chunkSize)) ?_ ?_
    · exact List.mem_range.mpr (Nat.mul_lt_mul_of_pos_left hmod hq)
    · exact List.mem_map.mpr ⟨0, List.mem_range.mpr hr, rfl⟩
  · rintro (hdvd | hle)
    · simp [Nat.mod_eq_zero_of_dvd hdvd, List.nodup_range]
    · rcases Nat.lt_or_eq_of_le hle with hlt | rfl
      · simp [Nat.div_eq_of_lt hlt, List.nodup_range]
      · simp [List.nodup_range]

theorem sequences_eq_range {rowCount chunkSize : Nat}
    (h : chunkSize ∣ rowCount ∨ rowCount ≤ chunkSize) :
    List.range (rowCount / chunkSize * chunkSize) ++
      (List.range (rowCount % chunkSize)).map
        (rowCount / chunkSize * (rowCount % chunkSize) + ·) = List.range rowCount := by
  rcases h with hdvd | hle
  · simp [Nat.mod_eq_zero_of_dvd hdvd, Nat.div_mul_cancel hdvd]
  · rcases Nat.lt_or_eq_of_le hle with hlt | rfl
    · simp [Nat.div_eq_of_lt hlt, Nat.mod_eq_of_lt hlt]
    · rcases Nat.eq_zero_or_pos rowCount with rfl | hpos
      · simp
      · simp [Nat.div_self hpos]

/-- The uids are the ones of the first `rowCount` numbers, each once. -/
def GeneratedOnce (uids : List String) (rowCount : Nat) : Prop :=
  uids.Nodup ∧ ∀ uid, uid ∈ uids ↔ ∃ n, n < rowCount ∧ uid = orderUid n

/-- Every order is generated once exactly when the chunk size divides the volume or one
chunk takes it all. -/
theorem generatedOnce_iff {G F : Type} (rng : Random G F) {rowCount chunkSize : Nat}
    (hr : 0 < rowCount) (hc : 0 < chunkSize) :
    ∃ chunks, planChunks rowCount chunkSize = .ok chunks ∧
      (GeneratedOnce (historyUids rng chunks) rowCount ↔
        chunkSize ∣ rowCount ∨ rowCount ≤ chunkSize) := by
  refine ⟨_, planChunks_eq hr hc, ?_⟩
  rw [historyUids_eq, planned_sequences hc]
  constructor
  · rintro ⟨hnodup, _⟩
    exact (nodup_sequences_iff hc).mp (List.Nodup.of_map _ hnodup)
  · intro h
    rw [sequences_eq_range h]
    refine ⟨List.nodup_range.map orderUid_injective, fun uid => ?_⟩
    simp only [List.mem_map, List.mem_range, eq_comm]

/-! ## Three rows in chunks of two -/

/-- Always the first choice. -/
def firstChoice : Random Unit Unit where
  seed _ := ()
  randbelow _ h := pure ⟨0, h⟩
  uniform _ _ := pure ()
  weighted _ h := pure ⟨0, h⟩
  ofCents _ := ()
  round2 _ := ()
  total _ _ _ := ()

theorem generatedOnce_sixRows : ∃ chunks, planChunks 6 2 = .ok chunks ∧
    (GeneratedOnce (historyUids firstChoice chunks) 6 ↔ 2 ∣ 6 ∨ 6 ≤ 2) :=
  generatedOnce_iff firstChoice (by decide) (by decide)

theorem threeRows_repeat : ¬ ∀ (rowCount chunkSize : Nat) (chunks : List Chunk),
    0 < rowCount → 0 < chunkSize → planChunks rowCount chunkSize = .ok chunks →
    GeneratedOnce (historyUids firstChoice chunks) rowCount := by
  intro hall
  have hplan := planChunks_eq (by decide : 0 < 3) (by decide : 0 < 2)
  have hnodup := (hall 3 2 _ (by decide) (by decide) hplan).1
  rw [historyUids_eq] at hnodup
  exact absurd (List.Nodup.of_map _ hnodup) (by decide)

end EcommerceIntegration.BulkLoad
