import EcommerceIntegration.BulkLoad.Dag

/-!
# Reading a file in batches

The generator hands out a batch as soon as it is full and, at the end of the file, the
rows that are left. The loader sends every batch and counts its rows.
-/

namespace EcommerceIntegration.BulkLoad

set_option autoImplicit false

section Reading
variable {R : Type}

/-- The loop over the rows of the reader; `batch` is not full. -/
def readRows (batchSize : Nat) : (batch rows : List R) → List (List R)
  | batch, [] => if batch.isEmpty then [] else [batch]
  | batch, row :: rows =>
    if batchSize ≤ (batch ++ [row]).length then
      (batch ++ [row]) :: readRows batchSize [] rows
    else readRows batchSize (batch ++ [row]) rows

/-- The first row of the file is its header. -/
def readInBatches (batchSize : Nat) (file : List R) : List (List R) :=
  readRows batchSize [] file.tail

section Loading
variable {C ε : Type} (executemany : C → List R → Except ε C)

def executeBatches : List (List R) → (total : Nat) → C → Except ε (Nat × C)
  | [], total, cursor => .ok (total, cursor)
  | batch :: batches, total, cursor => do
    let cursor ← executemany cursor batch
    executeBatches batches (total + batch.length) cursor

/-- What it returns, and the cursor at the end. -/
def loadWithFastExecutemany (file : List R) (cursor : C) : Except ε (Nat × C) :=
  executeBatches executemany (readInBatches executemanyBatchSize file) 0 cursor

end Loading

/-- The batches hold the rows in order, and all but the last are full. -/
structure Batched (batchSize : Nat) (rows : List R) (batches : List (List R)) : Prop where
  rows : batches.flatten = rows
  nonempty : ∀ b ∈ batches, b ≠ []
  full : ∀ b ∈ batches.dropLast, b.length = batchSize
  bounded : ∀ b ∈ batches, b.length ≤ batchSize

section Batched
variable {batchSize : Nat} {rows : List R} {batches : List (List R)} {batch : List R}

theorem Batched.nil : Batched batchSize ([] : List R) [] :=
  ⟨rfl, by simp, by simp, by simp⟩

theorem Batched.single (hne : batch ≠ []) (hle : batch.length ≤ batchSize) :
    Batched batchSize batch [batch] :=
  ⟨by simp, by simpa using hne, by simp, by simpa using hle⟩

theorem Batched.cons (h : Batched batchSize rows batches) (hne : batch ≠ [])
    (hlength : batch.length = batchSize) : Batched batchSize (batch ++ rows) (batch :: batches) where
  rows := by rw [List.flatten_cons, h.rows]
  nonempty := List.forall_mem_cons.mpr ⟨hne, h.nonempty⟩
  full b hb := by
    cases batches with
    | nil => cases hb
    | cons b' bs =>
      rw [List.dropLast_cons_cons] at hb
      rcases List.mem_cons.mp hb with rfl | hb
      · exact hlength
      · exact h.full b hb
  bounded := List.forall_mem_cons.mpr ⟨Nat.le_of_eq hlength, h.bounded⟩

/-- The loop keeps the rows of the batch that it has begun. -/
theorem readRows_batched (hlt : batch.length < batchSize) :
    Batched batchSize (batch ++ rows) (readRows batchSize batch rows) := by
  induction rows generalizing batch with
  | nil =>
    rw [List.append_nil, readRows]
    split
    · rename_i hempty
      rw [List.isEmpty_iff.mp hempty]
      exact .nil
    · rename_i hempty
      exact .single (by simpa using hempty) (Nat.le_of_lt hlt)
  | cons row rows ih =>
    have hlength : (batch ++ [row]).length = batch.length + 1 := by simp
    rw [readRows, ← List.singleton_append, ← List.append_assoc]
    split
    · rename_i hfull
      have hempty : ([] : List R).length < batchSize := Nat.lt_of_le_of_lt (Nat.zero_le _) hlt
      exact (ih hempty).cons (by simp) (by omega)
    · rename_i hmore
      exact ih (by omega)

/-- The place of a batch among the rows. -/
theorem Batched.batch_at (h : Batched batchSize rows batches) {k : Nat}
    (hk : batches[k]? = some batch) : batch = (rows.drop (k * batchSize)).take batchSize := by
  obtain ⟨rfl, hnonempty, hfull, hbounded⟩ := h
  clear hnonempty
  induction batches generalizing k with
  | nil => cases hk
  | cons b bs ih =>
    have hb : b.length ≤ batchSize := hbounded b List.mem_cons_self
    cases bs with
    | nil =>
      cases k with
      | zero =>
        cases hk
        simp [List.take_of_length_le hb]
      | succ k => cases hk
    | cons b' bs =>
      have hlength : b.length = batchSize := hfull b (by simp)
      cases k with
      | zero =>
        cases hk
        simp [← hlength]
      | succ k =>
        have hrest := ih hk (fun x hx => hfull x (by simp [hx]))
          fun x hx => hbounded x (List.mem_cons_of_mem _ hx)
        have hdrop : (b :: b' :: bs).flatten.drop batchSize = (b' :: bs).flatten := by
          rw [List.flatten_cons, ← hlength, List.drop_left]
        rw [hrest, Nat.add_mul, Nat.one_mul, Nat.add_comm, ← List.drop_drop, hdrop]

theorem readInBatches_batched (hsize : 0 < batchSize) (header : R) (rows : List R) :
    Batched batchSize rows (readInBatches batchSize (header :: rows)) := by
  have hread : Batched batchSize ([] ++ rows) (readRows batchSize [] rows) :=
    readRows_batched hsize
  exact hread

end Batched

section Loading
variable {C ε : Type} {executemany : C → List R → Except ε C}

/-- The total counts the rows of the batches. -/
theorem executeBatches_total {batches : List (List R)} {total n : Nat} {cursor cursor' : C}
    (h : executeBatches executemany batches total cursor = .ok (n, cursor')) :
    n = total + batches.flatten.length := by
  induction batches generalizing total cursor with
  | nil =>
    cases h
    simp
  | cons b bs ih =>
    simp only [executeBatches] at h
    cases hb : executemany cursor b with
    | error e =>
      rw [hb] at h
      cases h
    | ok cursor₁ =>
      rw [hb] at h
      rw [ih h, List.flatten_cons, List.length_append, Nat.add_assoc]

/-- Only a batch that is refused ends the load. -/
theorem executeBatches_refused {batches : List (List R)} {total : Nat} {cursor : C} {e : ε}
    (h : executeBatches executemany batches total cursor = .error e) :
    ∃ cursor' b, executemany cursor' b = .error e := by
  induction batches generalizing total cursor with
  | nil => cases h
  | cons b bs ih =>
    simp only [executeBatches] at h
    cases hb : executemany cursor b with
    | error e' =>
      rw [hb] at h
      cases h
      exact ⟨cursor, b, hb⟩
    | ok cursor₁ =>
      rw [hb] at h
      exact ih h

end Loading

/-- Whatever the number of rows, the batches are the file without its header, and the load
returns how many rows that is. -/
theorem readInBatches_complete {batchSize : Nat} (hsize : 1 ≤ batchSize) (header : R)
    (rows : List R) {C ε : Type} (executemany : C → List R → Except ε C) (cursor : C) :
    Batched batchSize rows (readInBatches batchSize (header :: rows)) ∧
    (∀ total cursor', loadWithFastExecutemany executemany (header :: rows) cursor =
      .ok (total, cursor') → total = rows.length) ∧
    ∀ e, loadWithFastExecutemany executemany (header :: rows) cursor = .error e →
      ∃ cursor' b, executemany cursor' b = .error e := by
  refine ⟨readInBatches_batched hsize header rows, fun total cursor' h => ?_, fun e h => ?_⟩
  · have hsize : 0 < executemanyBatchSize := by decide
    rw [executeBatches_total h, (readInBatches_batched hsize header rows).rows, Nat.zero_add]
  · exact executeBatches_refused h

theorem readInBatches_complete_remainder :
    Batched 2 [1, 2, 3] (readInBatches 2 [0, 1, 2, 3]) ∧
      loadWithFastExecutemany (fun c b => (.ok (c ++ b) : Except Unit (List Nat))) [0, 1, 2, 3] [] =
        .ok (3, [1, 2, 3]) := by
  refine ⟨(readInBatches_complete (by decide) 0 [1, 2, 3]
    (fun c b => (.ok (c ++ b) : Except Unit (List Nat))) []).1, by decide⟩

end Reading

/-! ## The batches of a chunk -/

/-- The rows of the chunk's file that a load appends at once are a batch that is read. -/
theorem LoadParams.batchRows_read (p : LoadParams) (chunk : Chunk) (header : StagedRow) {k : Nat}
    {batch : List StagedRow}
    (hk : (readInBatches p.strategy.batchSize
      (header :: (List.range chunk.rowCount).map fun offset =>
        ⟨chunk.chunkIndex, offset⟩))[k]? = some batch) :
    batch = p.batchRows chunk k := by
  have hbatched := readInBatches_batched p.strategy.batchSize_pos header
    ((List.range chunk.rowCount).map fun offset => ⟨chunk.chunkIndex, offset⟩)
  rw [hbatched.batch_at hk, LoadParams.batchRows, ← List.map_drop, ← List.map_take,
    List.range_eq_range', List.drop_range', Nat.zero_add, Nat.mul_one]
  congr 1
  rcases Nat.le_total p.strategy.batchSize (chunk.rowCount - k * p.strategy.batchSize) with h | h
  · rw [Nat.min_eq_left h, List.take_range'_of_length_ge h]
  · rw [Nat.min_eq_right h, List.take_range'_of_length_le h]

end EcommerceIntegration.BulkLoad
