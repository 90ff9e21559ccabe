import EcommerceIntegration.Db.Keys

/-!
# The outbox table

The statements of a dispatch worker. Each one is a transaction of its own, and a claim
takes its rows with it, so that two workers never hold one row through the same claim.
-/

namespace EcommerceIntegration

set_option autoImplicit false

abbrev OutboxTable := List OutboxMessage

structure OutboxItem where
  outboxId : Nat
  aggregateId : String
  eventType : String
  payload : OrderPayload
  attempts : Nat
  deriving DecidableEq

namespace OutboxReader

def staleLockSeconds : Nat := 120

def toItem (m : OutboxMessage) : OutboxItem where
  outboxId := m.outboxId
  aggregateId := m.aggregateId
  eventType := m.eventType
  payload := m.payload
  attempts := m.attempts

def claimable (now : Time) (m : OutboxMessage) : Bool :=
  m.status == .pending && decide (m.nextAttemptAt ≤ now)

def claimRow (workerId : String) (now : Time) (m : OutboxMessage) : OutboxMessage :=
  { m with
    status := .inFlight
    attempts := m.attempts + 1
    lockedBy := some workerId
    lockedAt := some now }

/-- The rows that the claim takes. There is no ORDER BY, and rows that are locked are
skipped, so it is up to the database which of the claimable rows are `picked`. -/
def taken (now : Time) (picked : List Nat) (m : OutboxMessage) : Bool :=
  claimable now m && picked.contains m.outboxId

def claim (workerId : String) (now : Time) (picked : List Nat) (rows : OutboxTable) :
    OutboxTable × List OutboxItem :=
  (updateWhere (taken now picked) (claimRow workerId now) rows,
    (rows.filter (taken now picked)).map fun m => toItem (claimRow workerId now m))

/-- A comparison with NULL does not hold. -/
def stale (now : Time) (m : OutboxMessage) : Bool :=
  m.status == .inFlight && m.lockedAt.any fun t => decide (t < now - staleLockSeconds * 1000000)

def releaseRow (m : OutboxMessage) : OutboxMessage :=
  { m with status := .pending, lockedBy := none, lockedAt := none }

def releaseAbandoned (now : Time) (rows : OutboxTable) : OutboxTable :=
  updateWhere (stale now) releaseRow rows

end OutboxReader

namespace OutboxRepository

def maxErrorLength : Nat := 1000

def truncated (error : String) : String := String.ofList (error.toList.take maxErrorLength)

/-- UPDATE ... WHERE outbox_id = ..., whatever else is in the row. -/
def update (outboxId : Nat) (values : OutboxMessage → OutboxMessage) (rows : OutboxTable) :
    OutboxTable :=
  updateWhere (·.outboxId == outboxId) values rows

def sentRow (now : Time) (m : OutboxMessage) : OutboxMessage :=
  { m with
    status := .sent, sentAt := some now, lockedBy := none, lockedAt := none, lastError := none }

def retryRow (nextAttemptAt : Time) (error : String) (m : OutboxMessage) : OutboxMessage :=
  { m with
    status := .pending, nextAttemptAt := nextAttemptAt, lastError := some (truncated error)
    lockedBy := none, lockedAt := none }

def deadLetterRow (error : String) (m : OutboxMessage) : OutboxMessage :=
  { m with
    status := .dlq, lastError := some (truncated error), lockedBy := none, lockedAt := none }

def markSent (outboxId : Nat) (now : Time) : OutboxTable → OutboxTable :=
  update outboxId (sentRow now)

def markRetry (outboxId : Nat) (nextAttemptAt : Time) (error : String) :
    OutboxTable → OutboxTable :=
  update outboxId (retryRow nextAttemptAt error)

def markDeadLetter (outboxId : Nat) (error : String) : OutboxTable → OutboxTable :=
  update outboxId (deadLetterRow error)

end OutboxRepository

/-! ## Rows by their primary key -/

namespace OutboxTable

def get (rows : OutboxTable) (outboxId : Nat) : Option OutboxMessage :=
  rows.find? (·.outboxId == outboxId)

variable {rows : OutboxTable} {id : Nat} {m : OutboxMessage}

theorem id_of_get (h : get rows id = some m) : m.outboxId = id := by
  simpa using List.find?_some h

theorem mem_of_get (h : get rows id = some m) : m ∈ rows := List.mem_of_find?_eq_some h

theorem get_of_mem (hrows : (rows.map OutboxMessage.outboxId).Nodup) (hm : m ∈ rows) :
    get rows m.outboxId = some m := by
  cases h : get rows m.outboxId with
  | none => simpa using List.find?_eq_none.mp h m hm
  | some m' => exact congrArg some (List.inj_on_of_nodup_map hrows (mem_of_get h) hm (id_of_get h))

/-- A statement that keeps the primary keys works row by row. -/
theorem get_updateWhere {matching : OutboxMessage → Bool} {set : OutboxMessage → OutboxMessage}
    (hset : ∀ m, (set m).outboxId = m.outboxId) :
    get (updateWhere matching set rows) id =
      (get rows id).map fun m => if matching m then set m else m := by
  have hid : (fun m => m.outboxId == id) ∘ (fun m => if matching m then set m else m) =
      fun m => m.outboxId == id := by
    funext m
    rw [Function.comp_apply]
    split
    · rw [hset]
    · rfl
  rw [get, updateWhere, List.find?_map, hid, get]

theorem get_releaseAbandoned (now : Time) :
    get (OutboxReader.releaseAbandoned now rows) id =
      (get rows id).map fun m =>
        if OutboxReader.stale now m then OutboxReader.releaseRow m else m :=
  get_updateWhere fun _ => rfl

theorem get_claim (workerId : String) (now : Time) (picked : List Nat) :
    get (OutboxReader.claim workerId now picked rows).1 id =
      (get rows id).map fun m =>
        if OutboxReader.taken now picked m then OutboxReader.claimRow workerId now m else m :=
  get_updateWhere fun _ => rfl

theorem get_update {outboxId : Nat} {values : OutboxMessage → OutboxMessage}
    (hset : ∀ m, (values m).outboxId = m.outboxId) :
    get (OutboxRepository.update outboxId values rows) id =
      if id = outboxId then (get rows id).map values else get rows id := by
  rw [OutboxRepository.update, get_updateWhere hset]
  cases h : get rows id with
  | none => simp
  | some m =>
    have hid := id_of_get h
    by_cases heq : id = outboxId
    · simp [hid, heq]
    · simp [hid, heq]

theorem get_concat (hnew : m.outboxId ∉ rows.map OutboxMessage.outboxId) :
    get (rows ++ [m]) id = if id = m.outboxId then some m else get rows id := by
  rw [get, List.find?_append]
  by_cases heq : id = m.outboxId
  · have hnone : rows.find? (·.outboxId == id) = none := by
      rw [List.find?_eq_none]
      intro r hr hid
      exact hnew (List.mem_map.mpr ⟨r, hr, by simpa [heq] using hid⟩)
    rw [hnone]
    simp [heq]
  · have hne : ¬ m.outboxId = id := fun h => heq h.symm
    cases hfind : rows.find? (·.outboxId == id) <;> simp [get, hfind, heq, hne]

end OutboxTable

end EcommerceIntegration
