import EcommerceIntegration.Dispatch.ErpClient
import EcommerceIntegration.Dispatch.Outbox
import EcommerceIntegration.Library.Transition
import Mathlib.Logic.Function.Basic

/-!
# The board of the dispatch workers

What the workers share: the table, one task for every item that has been claimed and not
yet marked, and the requests sent to the ERP.
-/

namespace EcommerceIntegration

set_option autoImplicit false

inductive Verdict
  | sent
  | retry (error : String)
  | deadLetter (error : String)
  deriving DecidableEq

def Verdict.status : Verdict → OutboxStatus
  | sent => .sent
  | retry _ => .pending
  | deadLetter _ => .dlq

namespace DispatchWorker

def releaseStaleEveryNCycles : Nat := 60

def idempotencyKey (item : OutboxItem) : String := "outbox-" ++ toString item.outboxId

def reschedule (settings : Settings) (item : OutboxItem) (error : String) : Verdict :=
  if settings.dispatchMaxAttempts ≤ item.attempts then
    .deadLetter ("tentativas esgotadas: " ++ error)
  else .retry error

/-- What `_reschedule` adds to `utcnow()`; `none` where a number or the date overflows. -/
def retryDelay (settings : Settings) (item : OutboxItem) (readAt : Time) (u : ℚ) : Option Nat :=
  (backoffDelay item.attempts settings u).bind fun seconds =>
    if readAt + timedelta seconds ≤ datetimeMax then some (timedelta seconds) else none

theorem retryDelay_eq_some {settings : Settings} {item : OutboxItem} {readAt : Time} {u : ℚ}
    {delay : Nat} : retryDelay settings item readAt u = some delay ↔
    ∃ seconds, backoffDelay item.attempts settings u = some seconds ∧
      timedelta seconds = delay ∧ readAt + delay ≤ datetimeMax := by
  rw [retryDelay, Option.bind_eq_some_iff]
  constructor
  · rintro ⟨seconds, hseconds, h⟩
    split at h
    · rename_i hdate
      cases h
      exact ⟨seconds, hseconds, rfl, hdate⟩
    · cases h
  · rintro ⟨seconds, hseconds, rfl, hdate⟩
    exact ⟨seconds, hseconds, if_pos hdate⟩

/-- Only a retry draws a delay. -/
def markDelay (settings : Settings) (item : OutboxItem) (readAt : Time) (u : ℚ) :
    Verdict → Option Nat
  | .retry _ => retryDelay settings item readAt u
  | .sent | .deadLetter _ => some 0

/-- How the row is to be marked, or what leaves the task uncaught. -/
def dispatch (settings : Settings) (item : OutboxItem) :
    Except ErpError ErpResponse → Except String Verdict
  | .ok _ => .ok .sent
  | .error (.temporary message) => .ok (reschedule settings item message)
  | .error (.permanent message) => .ok (.deadLetter message)
  | .error (.other message) => .error message

/-- The statement that marks a row. -/
def mark (verdict : Verdict) (outboxId : Nat) (now : Time) (delay : Nat) :
    OutboxTable → OutboxTable :=
  match verdict with
  | .sent => OutboxRepository.markSent outboxId now
  | .retry error => OutboxRepository.markRetry outboxId (now + delay) error
  | .deadLetter error => OutboxRepository.markDeadLetter outboxId error

end DispatchWorker

/-- What a mark writes into its row. -/
def Verdict.row (verdict : Verdict) (now : Time) (delay : Nat) : OutboxMessage → OutboxMessage :=
  match verdict with
  | .sent => OutboxRepository.sentRow now
  | .retry error => OutboxRepository.retryRow (now + delay) error
  | .deadLetter error => OutboxRepository.deadLetterRow error

theorem DispatchWorker.mark_eq (verdict : Verdict) (outboxId : Nat) (now : Time) (delay : Nat) :
    mark verdict outboxId now delay =
      OutboxRepository.update outboxId (verdict.row now delay) := by
  cases verdict <;> rfl

section Row
variable (verdict : Verdict) (now : Time) (delay : Nat) (m : OutboxMessage)

@[simp] theorem Verdict.row_outboxId : (verdict.row now delay m).outboxId = m.outboxId := by
  cases verdict <;> rfl

@[simp] theorem Verdict.row_status : (verdict.row now delay m).status = verdict.status := by
  cases verdict <;> rfl

@[simp] theorem Verdict.row_attempts : (verdict.row now delay m).attempts = m.attempts := by
  cases verdict <;> rfl

end Row

inductive Stage
  | claimed
  | posted
  | answered (verdict : Verdict)
  deriving DecidableEq

structure Task where
  worker : Nat
  item : OutboxItem
  stage : Stage
  deriving DecidableEq

structure ErpRequest where
  task : Nat
  item : OutboxItem
  deriving DecidableEq

/-- Tasks are numbered in the order in which they are created. -/
structure Board where
  outbox : OutboxTable := []
  tasks : Nat → Option Task := fun _ => none
  created : Nat := 0
  requests : List ErpRequest := []

/-- What a step does to the board. -/
inductive Action
  | enqueue (m : OutboxMessage)
  | release (now : Time)
  | claim (worker : Nat) (workerId : String) (now : Time) (picked : List Nat)
  | post (t : Nat)
  | answer (t : Nat) (verdict : Verdict)
  | mark (t : Nat) (now : Time) (delay : Nat)
  | drop (t : Nat)

def Action.inserted (id : Nat) : Action → Option OutboxMessage
  | .enqueue m => if m.outboxId = id then some m else none
  | _ => none

/-- A row as the ingest workers insert it. -/
def OutboxMessage.isNew (m : OutboxMessage) : Bool :=
  m.status == .pending && m.attempts == 0 && m.lockedBy == none && m.lockedAt == none &&
    m.lastError == none && m.sentAt == none

namespace Board

def setTask (b : Board) (t : Nat) (task : Option Task) : Board :=
  { b with tasks := Function.update b.tasks t task }

def addTasks (b : Board) (worker : Nat) (items : List OutboxItem) : Board :=
  { b with
    tasks := fun t =>
      if t < b.created then b.tasks t
      else (items[t - b.created]?).map fun item => ⟨worker, item, .claimed⟩
    created := b.created + items.length }

def act (b : Board) : Action → Option Board
  | .enqueue m =>
    if m.isNew && !(b.outbox.map OutboxMessage.outboxId).contains m.outboxId then
      some { b with outbox := b.outbox ++ [m] }
    else none
  | .release now => some { b with outbox := OutboxReader.releaseAbandoned now b.outbox }
  | .claim worker workerId now picked =>
    let claimed := OutboxReader.claim workerId now picked b.outbox
    some { b.addTasks worker claimed.2 with outbox := claimed.1 }
  | .post t =>
    match b.tasks t with
    | some ⟨worker, item, .claimed⟩ =>
      some { b.setTask t (some ⟨worker, item, .posted⟩) with
        requests := b.requests ++ [⟨t, item⟩] }
    | _ => none
  | .answer t verdict =>
    match b.tasks t with
    | some ⟨worker, item, .posted⟩ => some (b.setTask t (some ⟨worker, item, .answered verdict⟩))
    | _ => none
  | .mark t now delay =>
    match b.tasks t with
    | some ⟨_, item, .answered verdict⟩ =>
      some { b.setTask t none with
        outbox := DispatchWorker.mark verdict item.outboxId now delay b.outbox }
    | _ => none
  | .drop t => (b.tasks t).map fun _ => b.setTask t none

/-! ## What an action does -/

section Act
variable {b b' : Board} {t : Nat}

theorem act_enqueue {m : OutboxMessage} (h : b.act (.enqueue m) = some b') :
    m.isNew = true ∧ m.outboxId ∉ b.outbox.map OutboxMessage.outboxId ∧
      b' = { b with outbox := b.outbox ++ [m] } := by
  simp only [act] at h
  split at h
  · rename_i hnew
    simp only [Bool.and_eq_true, Bool.not_eq_true', List.contains_eq_mem,
      decide_eq_false_iff_not] at hnew
    exact ⟨hnew.1, hnew.2, (Option.some.inj h).symm⟩
  · cases h

theorem act_post (h : b.act (.post t) = some b') :
    ∃ worker item, b.tasks t = some ⟨worker, item, .claimed⟩ ∧
      b' = { b.setTask t (some ⟨worker, item, .posted⟩) with
        requests := b.requests ++ [⟨t, item⟩] } := by
  simp only [act] at h
  split at h
  · rename_i worker item ht
    exact ⟨worker, item, ht, (Option.some.inj h).symm⟩
  · cases h

theorem act_answer {verdict : Verdict} (h : b.act (.answer t verdict) = some b') :
    ∃ worker item, b.tasks t = some ⟨worker, item, .posted⟩ ∧
      b' = b.setTask t (some ⟨worker, item, .answered verdict⟩) := by
  simp only [act] at h
  split at h
  · rename_i worker item ht
    exact ⟨worker, item, ht, (Option.some.inj h).symm⟩
  · cases h

theorem act_mark {now : Time} {delay : Nat} (h : b.act (.mark t now delay) = some b') :
    ∃ worker item verdict, b.tasks t = some ⟨worker, item, .answered verdict⟩ ∧
      b' = { b.setTask t none with
        outbox := DispatchWorker.mark verdict item.outboxId now delay b.outbox } := by
  simp only [act] at h
  split at h
  · rename_i worker item verdict ht
    exact ⟨worker, item, verdict, ht, (Option.some.inj h).symm⟩
  · cases h

theorem act_drop (h : b.act (.drop t) = some b') :
    (b.tasks t).isSome = true ∧ b' = b.setTask t none := by
  obtain ⟨task, ht, rfl⟩ := Option.map_eq_some_iff.mp h
  exact ⟨by simp [ht], rfl⟩

/-- What the action makes of a row of the table. -/
def rowAfter (b : Board) (m : OutboxMessage) : Action → OutboxMessage
  | .release now => if OutboxReader.stale now m then OutboxReader.releaseRow m else m
  | .claim _ workerId now picked =>
    if OutboxReader.taken now picked m then OutboxReader.claimRow workerId now m else m
  | .mark t now delay =>
    match b.tasks t with
    | some ⟨_, item, .answered verdict⟩ =>
      if m.outboxId = item.outboxId then verdict.row now delay m else m
    | _ => m
  | .enqueue _ | .post _ | .answer .. | .drop _ => m

/-- A row only appears by its insertion. -/
theorem get_act {a : Action} (h : b.act a = some b') (id : Nat) :
    OutboxTable.get b'.outbox id =
      ((OutboxTable.get b.outbox id).map fun m => b.rowAfter m a).or (a.inserted id) := by
  cases a with
  | enqueue m =>
    obtain ⟨_, hnew, rfl⟩ := act_enqueue h
    rw [OutboxTable.get_concat hnew]
    by_cases hid : id = m.outboxId
    · subst hid
      have hnone : OutboxTable.get b.outbox m.outboxId = none := by
        rw [OutboxTable.get, List.find?_eq_none]
        intro r hr hid
        exact hnew (List.mem_map.mpr ⟨r, hr, by simpa using hid⟩)
      simp [hnone, Action.inserted]
    · have hne : ¬ m.outboxId = id := fun h => hid h.symm
      simp [hid, hne, rowAfter, Action.inserted]
  | release now =>
    cases h
    simp [OutboxTable.get_releaseAbandoned, rowAfter, Action.inserted]
  | claim worker workerId now picked =>
    cases h
    simp [OutboxTable.get_claim, rowAfter, Action.inserted]
  | post t =>
    obtain ⟨_, _, _, rfl⟩ := act_post h
    simp [rowAfter, setTask, Action.inserted]
  | answer t verdict =>
    obtain ⟨_, _, _, rfl⟩ := act_answer h
    simp [rowAfter, setTask, Action.inserted]
  | drop t =>
    obtain ⟨_, rfl⟩ := act_drop h
    simp [rowAfter, setTask, Action.inserted]
  | mark t now delay =>
    obtain ⟨worker, item, verdict, ht, rfl⟩ := act_mark h
    simp only [DispatchWorker.mark_eq, Action.inserted, Option.or_none]
    rw [OutboxTable.get_update (Verdict.row_outboxId verdict now delay)]
    cases hget : OutboxTable.get b.outbox id with
    | none => simp
    | some m =>
      have hid := OutboxTable.id_of_get hget
      by_cases heq : id = item.outboxId <;> simp [rowAfter, ht, hid, heq]

/-- The item of a task never changes; a new task is for a row that has just been taken. -/
theorem task_of_act {a : Action} (h : b.act a = some b') {task' : Task}
    (ht : b'.tasks t = some task') :
    (∃ task, b.tasks t = some task ∧ task'.item = task.item ∧
        (task'.stage = .claimed → task = task')) ∨
      ∃ worker workerId now picked m, a = .claim worker workerId now picked ∧ b.created ≤ t ∧
        (b.outbox.filter (OutboxReader.taken now picked))[t - b.created]? = some m ∧
        task' = ⟨worker, OutboxReader.toItem (OutboxReader.claimRow workerId now m), .claimed⟩ := by
  have kept {k : Nat} {new : Option Task} (hnew : ∀ task ∈ new, task.stage ≠ .claimed ∧
      ∃ old, b.tasks k = some old ∧ task.item = old.item)
      (ht : Function.update b.tasks k new t = some task') :
      ∃ task, b.tasks t = some task ∧ task'.item = task.item ∧
        (task'.stage = .claimed → task = task') := by
    rw [Function.update_apply] at ht
    split at ht
    · rename_i heq
      obtain ⟨hstage, old, hold, hitem⟩ := hnew task' ht
      exact ⟨old, heq ▸ hold, hitem, fun hclaimed => absurd hclaimed hstage⟩
    · exact ⟨task', ht, rfl, fun _ => rfl⟩
  cases a with
  | enqueue m =>
    obtain ⟨_, _, rfl⟩ := act_enqueue h
    exact .inl ⟨task', ht, rfl, fun _ => rfl⟩
  | release now =>
    cases h
    exact .inl ⟨task', ht, rfl, fun _ => rfl⟩
  | claim worker workerId now picked =>
    cases h
    simp only [addTasks, OutboxReader.claim] at ht
    split at ht
    · exact .inl ⟨task', ht, rfl, fun _ => rfl⟩
    · rename_i hnew
      obtain ⟨item, hitem, rfl⟩ := Option.map_eq_some_iff.mp ht
      rw [List.getElem?_map, Option.map_eq_some_iff] at hitem
      obtain ⟨m, hm, rfl⟩ := hitem
      exact .inr ⟨worker, workerId, now, picked, m, rfl, by omega, hm, rfl⟩
  | post k =>
    obtain ⟨worker, item, hk, rfl⟩ := act_post h
    exact .inl (kept (by simp [hk]) ht)
  | answer k verdict =>
    obtain ⟨worker, item, hk, rfl⟩ := act_answer h
    exact .inl (kept (by simp [hk]) ht)
  | mark k now delay =>
    obtain ⟨worker, item, verdict, hk, rfl⟩ := act_mark h
    exact .inl (kept (by simp) ht)
  | drop k =>
    obtain ⟨_, rfl⟩ := act_drop h
    exact .inl (kept (by simp) ht)

/-- Requests are only sent for tasks that have not sent one. -/
theorem requests_act {a : Action} (h : b.act a = some b') :
    b'.requests = b.requests ∨
      ∃ t worker item, a = .post t ∧ b.tasks t = some ⟨worker, item, .claimed⟩ ∧
        b'.requests = b.requests ++ [⟨t, item⟩] := by
  cases a with
  | enqueue m =>
    obtain ⟨_, _, rfl⟩ := act_enqueue h
    exact .inl rfl
  | release | claim =>
    cases h
    exact .inl rfl
  | post t =>
    obtain ⟨worker, item, ht, rfl⟩ := act_post h
    exact .inr ⟨t, worker, item, rfl, ht, rfl⟩
  | answer t verdict =>
    obtain ⟨_, _, _, rfl⟩ := act_answer h
    exact .inl rfl
  | mark t now delay =>
    obtain ⟨_, _, _, _, rfl⟩ := act_mark h
    exact .inl rfl
  | drop t =>
    obtain ⟨_, rfl⟩ := act_drop h
    exact .inl rfl

end Act

/-! ## Well-formed boards -/

structure WellFormed (b : Board) : Prop where
  ids : (b.outbox.map OutboxMessage.outboxId).Nodup
  created : ∀ t task, b.tasks t = some task → t < b.created
  stored : ∀ t task, b.tasks t = some task →
    ∃ m, OutboxTable.get b.outbox task.item.outboxId = some m

section WellFormed
variable {b b' : Board} {a : Action}

/-- Apart from an insertion, an action leaves alone the columns that the statements of the
workers do not set. -/
theorem columns_act {β : Type} (column : OutboxMessage → β)
    (hclaim : ∀ workerId now m, column (OutboxReader.claimRow workerId now m) = column m)
    (hrelease : ∀ m, column (OutboxReader.releaseRow m) = column m)
    (hmark : ∀ (verdict : Verdict) now delay m, column (verdict.row now delay m) = column m)
    (h : b.act a = some b') :
    b'.outbox.map column = b.outbox.map column ∨
      ∃ m, a = .enqueue m ∧ m.outboxId ∉ b.outbox.map OutboxMessage.outboxId ∧
        b'.outbox = b.outbox ++ [m] := by
  cases a with
  | enqueue m =>
    obtain ⟨_, hnew, rfl⟩ := act_enqueue h
    exact .inr ⟨m, rfl, hnew, rfl⟩
  | release now =>
    cases h
    exact .inl (map_updateWhere hrelease _)
  | claim worker workerId now picked =>
    cases h
    exact .inl (map_updateWhere (hclaim workerId now) _)
  | post t =>
    obtain ⟨_, _, _, rfl⟩ := act_post h
    exact .inl rfl
  | answer t verdict =>
    obtain ⟨_, _, _, rfl⟩ := act_answer h
    exact .inl rfl
  | mark t now delay =>
    obtain ⟨_, _, verdict, _, rfl⟩ := act_mark h
    dsimp only
    rw [DispatchWorker.mark_eq]
    exact .inl (map_updateWhere (hmark verdict now delay) _)
  | drop t =>
    obtain ⟨_, rfl⟩ := act_drop h
    exact .inl rfl

theorem ids_act (h : b.act a = some b') :
    b'.outbox.map OutboxMessage.outboxId = b.outbox.map OutboxMessage.outboxId ∨
      ∃ m, a = .enqueue m ∧ m.outboxId ∉ b.outbox.map OutboxMessage.outboxId ∧
        b'.outbox = b.outbox ++ [m] :=
  columns_act _ (fun _ _ _ => rfl) (fun _ => rfl) Verdict.row_outboxId h

/-- A row that is there stays. -/
theorem get_act_of_some (h : b.act a = some b') {id : Nat} {m : OutboxMessage}
    (hm : OutboxTable.get b.outbox id = some m) :
    OutboxTable.get b'.outbox id = some (b.rowAfter m a) := by
  simp [get_act h, hm]

theorem get_of_taken (hb : b.WellFormed) {now : Time} {picked : List Nat} {k : Nat}
    {m : OutboxMessage} (hm : (b.outbox.filter (OutboxReader.taken now picked))[k]? = some m) :
    OutboxTable.get b.outbox m.outboxId = some m ∧ OutboxReader.taken now picked m = true := by
  obtain ⟨hmem, htaken⟩ := List.mem_filter.mp (List.mem_of_getElem? hm)
  exact ⟨OutboxTable.get_of_mem hb.ids hmem, htaken⟩

/-- A claim takes a row once. -/
theorem taken_unique (hb : b.WellFormed) {now : Time} {picked : List Nat} {j k : Nat}
    {m m' : OutboxMessage} (hm : (b.outbox.filter (OutboxReader.taken now picked))[j]? = some m)
    (hm' : (b.outbox.filter (OutboxReader.taken now picked))[k]? = some m')
    (hid : m.outboxId = m'.outboxId) : j = k := by
  have hnodup : ((b.outbox.filter (OutboxReader.taken now picked)).map
      OutboxMessage.outboxId).Nodup :=
    hb.ids.sublist (List.filter_sublist.map _)
  have hj := (List.getElem?_eq_some_iff.mp hm).1
  refine (List.getElem?_inj (by simpa using hj) hnodup).mp ?_
  simp [List.getElem?_map, hm, hm', hid]

theorem created_act (h : b.act a = some b') : b.created ≤ b'.created := by
  cases a with
  | enqueue m =>
    obtain ⟨_, _, rfl⟩ := act_enqueue h
    exact Nat.le_refl _
  | release now =>
    cases h
    exact Nat.le_refl _
  | claim worker workerId now picked =>
    cases h
    exact Nat.le_add_right _ _
  | post t =>
    obtain ⟨_, _, _, rfl⟩ := act_post h
    exact Nat.le_refl _
  | answer t verdict =>
    obtain ⟨_, _, _, rfl⟩ := act_answer h
    exact Nat.le_refl _
  | mark t now delay =>
    obtain ⟨_, _, _, _, rfl⟩ := act_mark h
    exact Nat.le_refl _
  | drop t =>
    obtain ⟨_, rfl⟩ := act_drop h
    exact Nat.le_refl _

theorem WellFormed.act (hb : b.WellFormed) (h : b.act a = some b') : b'.WellFormed where
  ids := by
    rcases ids_act h with heq | ⟨m, _, hnew, heq⟩
    · exact heq ▸ hb.ids
    · rw [heq, List.map_append, List.nodup_append]
      refine ⟨hb.ids, List.nodup_singleton _, fun x hx y hy => ?_⟩
      obtain rfl := List.mem_singleton.mp hy
      exact fun heq => hnew (heq ▸ hx)
  created := by
    intro t task' ht
    rcases task_of_act h ht with ⟨task, hold, _, _⟩ | ⟨_, _, _, _, m, rfl, hle, hm, _⟩
    · exact Nat.lt_of_lt_of_le (hb.created t task hold) (created_act h)
    · cases h
      have hlt := (List.getElem?_eq_some_iff.mp hm).1
      simp only [addTasks, OutboxReader.claim, List.length_map]
      omega
  stored := by
    intro t task' ht
    rcases task_of_act h ht with ⟨task, hold, hitem, _⟩ | ⟨_, _, _, _, m, _, _, hm, rfl⟩
    · obtain ⟨m, hm⟩ := hb.stored t task hold
      exact ⟨_, get_act_of_some h (hitem ▸ hm)⟩
    · exact ⟨_, get_act_of_some h (get_of_taken hb hm).1⟩

theorem WellFormed.empty : ({} : Board).WellFormed := by
  refine ⟨List.nodup_nil, fun t task ht => ?_, fun t task ht => ?_⟩ <;> cases ht

end WellFormed

end Board

end EcommerceIntegration
