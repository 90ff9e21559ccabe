import EcommerceIntegration.Dispatch.Finality

/-!
# How an answer of the ERP is classified

A task ends with its row marked, unless the answer is a success or a redirection whose
body cannot be read. Then the exception leaves the task and ends the worker.
-/

namespace EcommerceIntegration

set_option autoImplicit false

/-- Success is a status from 200 to 299. -/
def successful (statusCode : Nat) : Bool := decide (200 ≤ statusCode ∧ statusCode < 300)

/-- The status of the row that an answer asks for. -/
def HttpResult.rowStatus (settings : Settings) (attempts : Nat) : HttpResult → OutboxStatus
  | .response statusCode _ _ | .decodingError statusCode _ =>
    if successful statusCode then .sent
    else if statusCode ∈ ErpClient.retryableStatusCodes ∧ attempts < settings.dispatchMaxAttempts then
      .pending
    else .dlq
  | .timeout _ | .transportError _ =>
    if attempts < settings.dispatchMaxAttempts then .pending else .dlq

/-- A failure at the level of the transport or from 400 on, or a success with an object in
its body. -/
def HttpResult.readable : HttpResult → Bool
  | .response statusCode _ body =>
    decide (ErpClient.clientErrorThreshold ≤ statusCode) ||
      (successful statusCode && match body with | .ok _ => true | .error _ => false)
  | .timeout _ | .transportError _ => true
  | .decodingError _ _ => false

namespace ErpClient
variable {statusCode : Nat} {text : String} {body : Except String ErpResponse}

theorem not_retryable_of_lt (h : statusCode < clientErrorThreshold) :
    statusCode ∉ retryableStatusCodes := by
  unfold clientErrorThreshold at h
  simp only [retryableStatusCodes, List.mem_cons, List.not_mem_nil, or_false]
  omega

theorem not_successful_of_le (h : clientErrorThreshold ≤ statusCode) :
    successful statusCode = false := by
  unfold clientErrorThreshold at h
  simp only [successful, decide_eq_false_iff_not]
  omega

theorem sendOrder_retryable (h : statusCode ∈ retryableStatusCodes) :
    sendOrder (.response statusCode text body) =
      .error (.temporary ("ERP respondeu " ++ toString statusCode)) := by
  simp [sendOrder, post, raiseForStatus, h, bind, Except.bind]

theorem sendOrder_refused (h : statusCode ∉ retryableStatusCodes)
    (hle : clientErrorThreshold ≤ statusCode) :
    sendOrder (.response statusCode text body) = .error (.permanent ("ERP recusou (" ++
      toString statusCode ++ "): " ++ String.ofList (text.toList.take 200))) := by
  simp [sendOrder, post, raiseForStatus, h, hle, bind, Except.bind]

/-- Below 400 the status does not matter. -/
theorem sendOrder_read (h : statusCode < clientErrorThreshold) :
    sendOrder (.response statusCode text body) = body.mapError .other := by
  simp [sendOrder, post, raiseForStatus, not_retryable_of_lt h, Nat.not_le_of_lt h, bind,
    Except.bind]

end ErpClient

namespace DispatchWorker
open ErpClient
variable (settings : Settings) (item : OutboxItem)

theorem reschedule_status (error : String) : (reschedule settings item error).status =
    if item.attempts < settings.dispatchMaxAttempts then .pending else .dlq := by
  unfold reschedule
  by_cases h : item.attempts < settings.dispatchMaxAttempts
  · rw [if_neg (Nat.not_le_of_lt h), if_pos h]
    rfl
  · rw [if_pos (Nat.le_of_not_lt h), if_neg h]
    rfl

/-- An answer gets the status it asks for exactly if it is readable. -/
theorem dispatch_status_iff (result : HttpResult) :
    (∃ verdict, dispatch settings item (sendOrder result) = .ok verdict ∧
      verdict.status = result.rowStatus settings item.attempts) ↔ result.readable = true := by
  cases result with
  | timeout text | transportError text =>
    refine ⟨fun _ => rfl, fun _ => ⟨_, rfl, ?_⟩⟩
    rw [reschedule_status]
    rfl
  | decodingError statusCode text =>
    constructor
    · rintro ⟨verdict, hverdict, _⟩
      cases hverdict
    · intro h
      cases h
  | response statusCode text body =>
    simp only [HttpResult.readable, HttpResult.rowStatus]
    rcases Nat.lt_or_ge statusCode clientErrorThreshold with hlt | hge
    · have hretry := not_retryable_of_lt hlt
      rw [sendOrder_read hlt]
      simp only [hretry, false_and, if_false, Nat.not_le_of_lt hlt, decide_false, Bool.false_or]
      cases body with
      | error message =>
        constructor
        · rintro ⟨verdict, hverdict, _⟩
          cases hverdict
        · intro h
          simp at h
      | ok response =>
        simp only [Bool.and_true]
        constructor
        · rintro ⟨verdict, hverdict, hstatus⟩
          cases hverdict
          by_contra hnot
          rw [if_neg hnot] at hstatus
          cases hstatus
        · intro h
          exact ⟨.sent, rfl, (if_pos h).symm⟩
    · have hnot := not_successful_of_le hge
      simp only [hge, decide_true, Bool.true_or, hnot, Bool.false_eq_true, if_false, iff_true]
      by_cases hretry : statusCode ∈ retryableStatusCodes
      · rw [sendOrder_retryable hretry]
        refine ⟨_, rfl, ?_⟩
        rw [reschedule_status]
        simp [hretry]
      · rw [sendOrder_refused hretry hge]
        refine ⟨_, rfl, ?_⟩
        simp [hretry, Verdict.status]

end DispatchWorker

/-! ## Rescheduling -/

/-- Whatever `backoff_delay` draws up to `deadline`, it is positive and leads to a date. -/
structure Retriable (settings : Settings) (attempts : Nat) (deadline : Time) : Prop where
  power : attempts ≤ maxFloatExponent
  base : 1 / 2000000 < settings.dispatchBackoffBaseSeconds
  date : deadline + timedelta (backoffLimit attempts settings) ≤ datetimeMax

namespace DispatchWorker
variable {settings : Settings} {item : OutboxItem} {start deadline readAt : Time} {u : ℚ}
  {verdict : Verdict}

theorem retryDelay_of_retriable (h : Retriable settings item.attempts deadline)
    (hreadAt : readAt ≤ deadline) (h0 : 0 ≤ u) (h1 : u ≤ 1) :
    ∃ delay, retryDelay settings item readAt u = some delay ∧ 0 < delay := by
  have hsome : backoffDelay item.attempts settings u = some (uniform
      settings.dispatchBackoffBaseSeconds (backoffLimit item.attempts settings) u) :=
    if_pos h.power
  obtain ⟨hbase, hlimit⟩ := backoffDelay_bounds hsome h0 h1
  have hdate := h.date
  have hle := timedelta_mono hlimit
  exact ⟨_, retryDelay_eq_some.mpr ⟨_, hsome, rfl, by lia⟩,
    timedelta_pos_iff.mpr (h.base.trans_le hbase)⟩

/-- The shortest delay shows that the base is positive, the longest that there is a date. -/
theorem retriable_of_retryDelay
    (h : ∀ u, 0 ≤ u → u ≤ 1 → ∃ delay, retryDelay settings item deadline u = some delay ∧ 0 < delay) :
    Retriable settings item.attempts deadline := by
  obtain ⟨_, hshort, hpos⟩ := h 0 (le_refl _) (by norm_num)
  obtain ⟨_, hlong, _⟩ := h 1 (by norm_num) (le_refl _)
  obtain ⟨seconds, hseconds, rfl, _⟩ := retryDelay_eq_some.mp hshort
  obtain ⟨seconds', hseconds', rfl, hdate⟩ := retryDelay_eq_some.mp hlong
  have hpower : item.attempts ≤ maxFloatExponent := by
    by_contra hnot
    rw [backoffDelay, if_neg hnot] at hseconds
    cases hseconds
  rw [backoffDelay, if_pos hpower, uniform_zero] at hseconds
  rw [backoffDelay, if_pos hpower, uniform_one] at hseconds'
  cases hseconds
  cases hseconds'
  exact ⟨hpower, timedelta_pos_iff.mp hpos, hdate⟩

/-- The marks that a verdict asks for can be written, and put a retry off, exactly if a retry
is retriable. -/
theorem markDelay_iff (hle : start ≤ deadline) :
    (∀ readAt u, start ≤ readAt → readAt ≤ deadline → 0 ≤ u → u ≤ 1 →
      ∃ delay, markDelay settings item readAt u verdict = some delay ∧
        (verdict.status = .pending → 0 < delay)) ↔
      (verdict.status = .pending → Retriable settings item.attempts deadline) := by
  cases verdict with
  | sent | deadLetter =>
    refine ⟨fun _ hpending => ?_, fun _ _ _ _ _ _ _ => ⟨0, rfl, fun hpending => ?_⟩⟩ <;>
      cases hpending
  | retry error =>
    constructor
    · intro h _
      refine retriable_of_retryDelay fun u h0 h1 => ?_
      obtain ⟨delay, hdelay, hpos⟩ := h deadline u hle (le_refl _) h0 h1
      exact ⟨delay, hdelay, hpos rfl⟩
    · intro h readAt u _ hreadAt h0 h1
      obtain ⟨delay, hdelay, hpos⟩ := retryDelay_of_retriable (h rfl) hreadAt h0 h1
      exact ⟨delay, hdelay, fun _ => hpos⟩

end DispatchWorker

namespace DispatchState

/-- The task `k` is over and its row has the status; nothing else has changed. -/
structure Marked (s s' : DispatchState) (k outboxId : Nat) (readAt : Time)
    (status : OutboxStatus) : Prop where
  row : ∃ m, OutboxTable.get s'.board.outbox outboxId = some m ∧ m.status = status ∧
    (status = .pending → readAt < m.nextAttemptAt)
  rows : ∀ id, id ≠ outboxId →
    OutboxTable.get s'.board.outbox id = OutboxTable.get s.board.outbox id
  task : s'.board.tasks k = none
  tasks : ∀ j, j ≠ k → s'.board.tasks j = s.board.tasks j
  workers : s'.workers = s.workers

/-- The task goes on after the answer, and whatever happens for the time `horizon` until it
marks its row, the mark gives the row the status that the answer asks for, whichever delay is
drawn. Nobody else is affected. -/
def Classified (settings : Settings) (s : DispatchState) (k : Nat) (task : Task)
    (result : HttpResult) (horizon : Nat) : Prop :=
  ∃ verdict s₁, step settings s (.reply k result) = some s₁ ∧
    s₁ = { s with board := s.board.setTask k (some { task with stage := .answered verdict }) } ∧
    ∀ ls s₂, s₁.run settings ls = some s₂ → s₂.clock ≤ s.clock + horizon →
      s₂.board.tasks k = some { task with stage := .answered verdict } →
      ∀ readAt u, s.clock ≤ readAt → readAt ≤ s₂.clock → 0 ≤ u → u ≤ 1 →
        ∃ s₃, step settings s₂ (.mark k readAt u) = some s₃ ∧
          Marked s₂ s₃ k task.item.outboxId readAt (result.rowStatus settings task.item.attempts)

variable {settings : Settings} {clock : Time} {ls : List DispatchLabel} {s : DispatchState}

theorem step_reply (settings : Settings) (result : HttpResult) {k : Nat} {task : Task}
    (ht : s.board.tasks k = some task) (hposted : task.stage = .posted) :
    step settings s (.reply k result) =
      match DispatchWorker.dispatch settings task.item (ErpClient.sendOrder result) with
      | .ok verdict => some
          { s with board := s.board.setTask k (some { task with stage := .answered verdict }) }
      | .error _ => some { s.failTask k with board := s.board.setTask k none } := by
  obtain ⟨worker, item, stage⟩ := task
  cases hposted
  simp only [step, control, action, taskItem, ht, Option.map_some]
  cases DispatchWorker.dispatch settings item (ErpClient.sendOrder result) with
  | ok verdict => simp [Board.act, ht]
  | error message => simp [Board.act, ht]

/-- The row that a mark has found, and what it makes of the table. -/
theorem get_marked (readAt : Time) (delay : Nat) {k : Nat} {task : Task} {verdict : Verdict}
    (hs : s.board.WellFormed)
    (ht : s.board.tasks k = some { task with stage := .answered verdict }) :
    ∃ m, ∀ id, OutboxTable.get
        (DispatchWorker.mark verdict task.item.outboxId readAt delay s.board.outbox) id =
      if id = task.item.outboxId then some (verdict.row readAt delay m)
      else OutboxTable.get s.board.outbox id := by
  obtain ⟨m, hm⟩ := hs.stored k _ ht
  refine ⟨m, fun id => ?_⟩
  rw [DispatchWorker.mark_eq, OutboxTable.get_update (Verdict.row_outboxId verdict readAt delay)]
  split
  · rename_i hid
    rw [hid, hm]
    rfl
  · rfl

theorem nextAttemptAt_of_pending {verdict : Verdict} {now : Time} {delay : Nat} {m : OutboxMessage}
    (h : verdict.status = .pending) : (verdict.row now delay m).nextAttemptAt = now + delay := by
  cases verdict with
  | retry error => rfl
  | sent => cases h
  | deadLetter error => cases h

/-- The mark of a task that is still there. -/
theorem marked_iff {k : Nat} {task : Task} {verdict : Verdict} {readAt : Time} {u : ℚ}
    {status : OutboxStatus} (hs : s.board.WellFormed)
    (ht : s.board.tasks k = some { task with stage := .answered verdict })
    (hread : readAt ≤ s.clock) (h0 : 0 ≤ u) (h1 : u ≤ 1) :
    (∃ s', step settings s (.mark k readAt u) = some s' ∧
        Marked s s' k task.item.outboxId readAt status) ↔
      verdict.status = status ∧ ∃ delay,
        DispatchWorker.markDelay settings task.item readAt u verdict = some delay ∧
          (verdict.status = .pending → 0 < delay) := by
  cases hdelay : DispatchWorker.markDelay settings task.item readAt u verdict with
  | none => simp [step, control, ht, hdelay]
  | some delay =>
    have hst : step settings s (.mark k readAt u) = some { s with
        board := { s.board.setTask k none with
          outbox := DispatchWorker.mark verdict task.item.outboxId readAt delay
            s.board.outbox } } := by
      simp [step, control, action, Board.act, ht, hdelay, hread, h0, h1]
    obtain ⟨m, hrows⟩ := get_marked readAt delay hs ht
    have hown := hrows task.item.outboxId
    rw [if_pos rfl] at hown
    constructor
    · rintro ⟨s', hst', ⟨m', hm', hstatus, hlater⟩, _, _, _, _⟩
      obtain rfl := Option.some.inj (hst.symm.trans hst')
      obtain rfl := Option.some.inj (hown.symm.trans hm')
      rw [Verdict.row_status] at hstatus
      refine ⟨hstatus, delay, rfl, fun hpending => ?_⟩
      have hlt := hlater (hstatus.symm.trans hpending)
      rw [nextAttemptAt_of_pending hpending] at hlt
      lia
    · rintro ⟨rfl, delay', hsame, hpos⟩
      obtain rfl := Option.some.inj hsame
      refine ⟨_, hst, ⟨_, hown, Verdict.row_status _ _ _ _, fun hpending => ?_⟩, ?_, ?_, ?_, rfl⟩
      · have hlater := hpos hpending
        rw [nextAttemptAt_of_pending hpending]
        lia
      · intro id hid
        exact (hrows id).trans (if_neg hid)
      · simp [Board.setTask]
      · intro j hj
        simp [Board.setTask, Function.update_of_ne hj]

/-- A posted item is classified by the answer exactly if the answer is readable and, where it
asks for a retry, the row can be put off. -/
theorem classified_iff (hrun : (initial clock).run settings ls = some s) {k : Nat} {task : Task}
    (ht : s.board.tasks k = some task) (hposted : task.stage = .posted) (result : HttpResult)
    (horizon : Nat) :
    Classified settings s k task result horizon ↔
      result.readable = true ∧ (result.rowStatus settings task.item.attempts = .pending →
        Retriable settings task.item.attempts (s.clock + horizon)) := by
  have hreply := step_reply settings result ht hposted
  have hwf : ∀ {ls' : List DispatchLabel} {s₁ s₂ : DispatchState},
      step settings s (.reply k result) = some s₁ → s₁.run settings ls' = some s₂ →
      s₂.board.WellFormed := by
    intro ls' s₁ s₂ hst hafter
    exact wellFormed_run (Transition.run_append_eq_some.mpr
      ⟨s, hrun, Transition.run_cons_eq_some.mpr ⟨s₁, hst, hafter⟩⟩)
  have hlater : s.clock ≤ s.clock + horizon := by lia
  rw [← DispatchWorker.dispatch_status_iff settings task.item]
  constructor
  · rintro ⟨verdict, s₁, hst, rfl, hmark⟩
    -- nothing happens until the end of the time
    have hafter : ({ s with
        board := s.board.setTask k (some { task with stage := .answered verdict }) } :
        DispatchState).run settings [.tick horizon] = some { s with
          board := s.board.setTask k (some { task with stage := .answered verdict })
          clock := s.clock + horizon } := rfl
    have htask : (s.board.setTask k (some { task with stage := .answered verdict })).tasks k =
        some { task with stage := .answered verdict } := by simp [Board.setTask]
    have hmarked := fun readAt u hstart hread h0 h1 =>
      (marked_iff (hwf hst hafter) htask hread h0 h1).mp
        (hmark _ _ hafter (Int.le_refl _) htask readAt u hstart hread h0 h1)
    have hstatus : verdict.status = result.rowStatus settings task.item.attempts :=
      (hmarked s.clock 0 (Int.le_refl _) hlater (le_refl _) (by norm_num)).1
    refine ⟨⟨verdict, ?_, hstatus⟩, ?_⟩
    · rw [hreply] at hst
      split at hst
      · rename_i verdict' hverdict
        have hsame : ({ task with stage := .answered verdict' } : Task) =
            { task with stage := .answered verdict } := by
          have heq := congrArg (fun s => s.board.tasks k) (Option.some.inj hst)
          simpa [Board.setTask] using heq
        obtain rfl := Stage.answered.inj (congrArg Task.stage hsame)
        exact hverdict
      · have heq := congrArg (fun s => s.board.tasks k) (Option.some.inj hst)
        simp [Board.setTask] at heq
    · rw [← hstatus]
      exact (DispatchWorker.markDelay_iff hlater).mp fun readAt u hstart hread h0 h1 =>
        (hmarked readAt u hstart hread h0 h1).2
  · rintro ⟨⟨verdict, hverdict, hstatus⟩, hretriable⟩
    rw [hverdict] at hreply
    rw [← hstatus] at hretriable
    refine ⟨verdict, _, hreply, rfl, fun ls' s₂ hafter hclock htask readAt u hstart hread h0 h1 => ?_⟩
    have hdelays := (DispatchWorker.markDelay_iff hlater).mpr hretriable
    exact (marked_iff (hwf hreply hafter) htask hread h0 h1).mpr
      ⟨hstatus, hdelays readAt u hstart (Int.le_trans hread hclock) h0 h1⟩

/-! ## One item that is posted -/

namespace Sample

def toPost : List DispatchLabel :=
  [.enqueue message, .start "a", .poll 0, .claim 0 [1], .post 0]

def postedEnd : DispatchState := (after {} toPost).get (by decide)

def postedTask : Task := ⟨0, OutboxReader.toItem (OutboxReader.claimRow "a" 0 message), .posted⟩

/-- A success whose body is a list. -/
def listBody : HttpResult := .response 200 "[]" (.error "'list' object has no attribute 'get'")

end Sample

/-- A minute is left to mark the row. -/
theorem classified_iff_unavailable :
    Classified {} Sample.postedEnd 0 Sample.postedTask (.response 503 "" (.error "")) 60000000 :=
  (classified_iff (Sample.after_run (by decide)) (by decide) rfl _ _).mpr
    ⟨by decide, fun _ => ⟨by decide +kernel, by decide +kernel, by decide +kernel⟩⟩

theorem listBody_escapes :
    ¬ ∀ (settings : Settings) (clock : Time) (ls : List DispatchLabel) (s : DispatchState)
      (k : Nat) (task : Task) (result : HttpResult) (horizon : Nat),
      (initial clock).run settings ls = some s → s.board.tasks k = some task →
      task.stage = .posted → Classified settings s k task result horizon := by
  intro hall
  obtain ⟨verdict, s₁, hst, rfl, _⟩ := hall {} 0 Sample.toPost Sample.postedEnd 0 Sample.postedTask
    Sample.listBody 0 (Sample.after_run (by decide)) (by decide) rfl
  -- the worker is gone, and nobody marks the row
  have hgone : ((step {} Sample.postedEnd (.reply 0 Sample.listBody)).map fun s =>
      (s.board.tasks 0).isNone) = some true := by decide
  rw [hst] at hgone
  simp [Board.setTask] at hgone

end DispatchState

end EcommerceIntegration
