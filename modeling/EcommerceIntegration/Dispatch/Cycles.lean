import EcommerceIntegration.Dispatch.Acknowledged
import EcommerceIntegration.Library.Leads

/-!
# What one dispatch worker can do

A worker that is not disturbed, with a service that works, posts all that it claims. Once
nothing is left to claim, it comes to its 60th cycle and releases what others hold, so the
rows that are open get fewer until none is left.
-/

namespace EcommerceIntegration

set_option autoImplicit false

open Transition

/-! ## Steps of a worker -/

namespace DispatchState
variable {settings : Settings} {s : DispatchState} {w k : Nat} {workerId : String}

theorem inPhase_of_worker {phase : Phase} (hw : s.workers w = some ⟨workerId, k, phase⟩) :
    s.inPhase w phase = some ⟨workerId, k, phase⟩ := by
  simp [inPhase, hw]

theorem poll_eq (hw : s.workers w = some ⟨workerId, k, .polling⟩) :
    s.step settings (.poll w) = some (s.setWorker w (some ⟨workerId, k + 1,
      if (k + 1) % DispatchWorker.releaseStaleEveryNCycles = 0 then .releasing else .claiming⟩)) := by
  simp only [step, control, inPhase_of_worker hw, Option.map_some, Option.bind_some, action]

theorem release_eq (hw : s.workers w = some ⟨workerId, k, .releasing⟩) :
    s.step settings (.release w) = some { s.setWorker w (some ⟨workerId, k, .claiming⟩) with
      board := { s.board with
        outbox := OutboxReader.releaseAbandoned s.clock s.board.outbox } } := by
  simp only [step, control, inPhase_of_worker hw, Option.map_some, Option.bind_some, action,
    Board.act]

theorem claim_eq (hw : s.workers w = some ⟨workerId, k, .claiming⟩) {picked : List Nat}
    (hfew : (s.claimedNow picked).length ≤ settings.dispatchBatchSize) :
    s.step settings (.claim w picked) = some
      { s.setWorker w (some ⟨workerId, k,
          if s.claimedNow picked = [] then .polling else .gathering⟩) with
        board :=
          let claimed := OutboxReader.claim workerId s.clock picked s.board.outbox
          { s.board.addTasks w claimed.2 with outbox := claimed.1 } } := by
  simp only [step, control, inPhase_of_worker hw, Option.bind_some, hfew, if_true, action, hw,
    Option.map_some, Board.act]

theorem gathered_eq (hw : s.workers w = some ⟨workerId, k, .gathering⟩)
    (hnone : s.hasTask w = false) :
    s.step settings (.gathered w) =
      some (s.setWorker w (some ⟨workerId, k, .polling⟩)) := by
  simp [step, control, inPhase_of_worker hw, hnone, action]

theorem post_eq {t : Nat} {item : OutboxItem} (ht : s.board.tasks t = some ⟨w, item, .claimed⟩) :
    s.step settings (.post t) = some { s with
      board := { s.board.setTask t (some ⟨w, item, .posted⟩) with
        requests := s.board.requests ++ [⟨t, item⟩] } } := by
  simp only [step, control, Option.bind_some, action, Board.act, ht, Option.map_some]

/-- The answer of the service that has the order. -/
theorem reply_eq {t : Nat} {item : OutboxItem} (ht : s.board.tasks t = some ⟨w, item, .posted⟩)
    (ack : ErpMock.ErpAck) :
    s.step settings (.reply t (ErpMock.httpResult (.ok ack))) = some { s with
      board := s.board.setTask t (some ⟨w, item, .answered .sent⟩) } := by
  have hverdict : DispatchWorker.dispatch settings item
      (ErpClient.sendOrder (ErpMock.httpResult (.ok ack))) = .ok .sent := rfl
  simp only [step, control, ht, hverdict, Option.bind_some, action, taskItem, Option.map_some,
    Board.act]

theorem mark_eq {t : Nat} {item : OutboxItem}
    (ht : s.board.tasks t = some ⟨w, item, .answered .sent⟩) :
    s.step settings (.mark t s.clock 0) = some { s with
      board := { s.board.setTask t none with
        outbox := OutboxRepository.markSent item.outboxId s.clock s.board.outbox } } := by
  simp [step, control, ht, action, Board.act, DispatchWorker.mark, DispatchWorker.markDelay]

end DispatchState

/-! ## One task from its claim to its mark -/

namespace ErpSystem
open ErpMock

/-- One worker that starts and is not disturbed, that claims as much as it can, and a service
that works. -/
def Undisturbed (settings : Settings) (s : ErpSystem) : ErpLabel → Prop
  | .worker l =>
    match l with
    | .claim _ picked => (s.dispatch.claimedNow picked).length = min settings.dispatchBatchSize
        (s.dispatch.board.outbox.countP (OutboxReader.claimable s.dispatch.clock))
    | .start _ | .tick _ | .poll _ | .release _ | .post _ | .mark .. | .gathered _ => True
    | .enqueue _ | .stop _ | .reply .. | .markFails _ | .die _ | .lose _ => False
  | .receive _ | .wake _ (.works ..) | .deliver _ => True
  | .wake _ (.fails _) | .wake _ (.stalls _) | .fail _ => False

/-- The request `r` of the task is being handled. -/
structure Sending (d : DispatchState) (r : Nat) (handling : Option Handling) (s : ErpSystem) :
    Prop where
  sound : Sound s
  dispatch : s.dispatch = d
  handled : s.handling r = handling

/-- The task has been posted and is now at that stage. -/
def atStage (d : DispatchState) (t w : Nat) (item : OutboxItem) (stage : Stage) : DispatchState :=
  { d with
    board := { d.board.setTask t (some ⟨w, item, stage⟩) with
      requests := d.board.requests ++ [⟨t, item⟩] } }

/-- The task is over and its row is SENT. -/
def sentState (d : DispatchState) (t : Nat) (item : OutboxItem) : DispatchState :=
  { d with
    board := { d.board.setTask t none with
      requests := d.board.requests ++ [⟨t, item⟩]
      outbox := OutboxRepository.markSent item.outboxId d.clock d.board.outbox } }

section Task
variable {settings : Settings} {s : ErpSystem} {d d' : DispatchState} {t w r : Nat}
  {item : OutboxItem}

theorem worker_eq {l : DispatchLabel} (hl : unanswered l = true)
    (hst : s.dispatch.step settings l = some d) :
    s.step settings (.worker l) = some { s with dispatch := d } := by
  simp only [ErpSystem.step, hl, if_true, hst, Option.map_some]

theorem post_leads (ht : d.board.tasks t = some ⟨w, item, .claimed⟩) :
    Leads (step settings) (Undisturbed settings) (fun s => Sound s ∧ s.dispatch = d)
      (Sending (atStage d t w item .posted) d.board.requests.length none) := by
  refine Leads.single fun s hs => ?_
  obtain ⟨hsound, rfl⟩ := hs
  have hst : s.step settings (.worker (.post t)) =
      some { s with dispatch := atStage s.dispatch t w item .posted } :=
    worker_eq rfl (DispatchState.post_eq ht)
  refine ⟨.worker (.post t), _, trivial, hst, hsound.step hst, rfl, ?_⟩
  -- the service handles only what was sent
  refine Option.not_isSome_iff_eq_none.mp fun hsome => ?_
  exact absurd (hsound.received _ hsome) (Nat.lt_irrefl _)

/-- The service finds the order under the key, or goes on with the request. -/
theorem receive_leads (hr : d.board.requests[r]? = some ⟨t, item⟩) :
    Leads (step settings) (Undisturbed settings) (Sending d r none) fun s =>
      Sending d r (some .sleeping) s ∨ ∃ ack, Sending d r (some (.answered (.ok ack))) s := by
  refine Leads.single fun s hs => ?_
  obtain ⟨hsound, rfl, hhandled⟩ := hs
  have hst : s.step settings (.receive r) = some (s.handle r (key ⟨t, item⟩)
      (lookup s.server (key ⟨t, item⟩))) := by
    simp only [ErpSystem.step, request, hr, hhandled]
  refine ⟨.receive r, _, trivial, hst, ?_⟩
  have hkey : key ⟨t, item⟩ ≠ "" := messageKey_ne_empty item.outboxId
  cases hrecord : s.server.acknowledgedByKey (key ⟨t, item⟩) with
  | none =>
    refine .inl ⟨hsound.step hst, rfl, ?_⟩
    simp [handle, lookup, hkey, hrecord]
  | some record =>
    refine .inr ⟨⟨record.erpOrderId, true⟩, hsound.step hst, rfl, ?_⟩
    simp [handle, lookup, hkey, hrecord]

theorem wake_leads (hr : d.board.requests[r]? = some ⟨t, item⟩) :
    Leads (step settings) (Undisturbed settings) (Sending d r (some .sleeping)) fun s =>
      ∃ ack, Sending d r (some (.answered (.ok ack))) s := by
  refine Leads.single fun s hs => ?_
  obtain ⟨hsound, rfl, hhandled⟩ := hs
  have hkey : key ⟨t, item⟩ ≠ "" := messageKey_ne_empty item.outboxId
  have hst : s.step settings (.wake r (.works "ERP" 0)) = some { s.handle r (key ⟨t, item⟩)
      (.answered (.ok ⟨"ERP", false⟩)) with
      server := file (key ⟨t, item⟩) item.payload "ERP" 0 s.server } := by
    simp [ErpSystem.step, request, hr, hhandled, wake, file, register, hkey]
  refine ⟨.wake r (.works "ERP" 0), _, trivial, hst, ⟨"ERP", false⟩, hsound.step hst, rfl, ?_⟩
  simp [handle]

theorem deliver_leads {ack : ErpAck} :
    Leads (step settings) (Undisturbed settings)
      (Sending (atStage d t w item .posted) d.board.requests.length (some (.answered (.ok ack))))
      fun s => Sound s ∧ s.dispatch = atStage d t w item (.answered .sent) := by
  refine Leads.single fun s hs => ?_
  obtain ⟨hsound, hd, hhandled⟩ := hs
  have hr : s.request d.board.requests.length = some ⟨t, item⟩ := by simp [request, hd, atStage]
  have ht : s.dispatch.board.tasks t = some ⟨w, item, .posted⟩ := by
    simp [hd, atStage, Board.setTask]
  have hst : s.step settings (.deliver d.board.requests.length) = some { s with
      dispatch := { s.dispatch with
        board := s.dispatch.board.setTask t (some ⟨w, item, .answered .sent⟩) } } := by
    simp only [ErpSystem.step, hr, hhandled, DispatchState.reply_eq ht, Option.map_some]
  refine ⟨.deliver _, _, trivial, hst, hsound.step hst, ?_⟩
  simp [hd, atStage, Board.setTask, Function.update_idem]

theorem mark_leads :
    Leads (step settings) (Undisturbed settings)
      (fun s => Sound s ∧ s.dispatch = atStage d t w item (.answered .sent))
      fun s => Sound s ∧ s.dispatch = sentState d t item := by
  refine Leads.single fun s hs => ?_
  obtain ⟨hsound, hd⟩ := hs
  have ht : s.dispatch.board.tasks t = some ⟨w, item, .answered .sent⟩ := by
    simp [hd, atStage, Board.setTask]
  have hst : s.step settings (.worker (.mark t s.dispatch.clock 0)) = _ :=
    worker_eq rfl (DispatchState.mark_eq ht)
  refine ⟨.worker (.mark t s.dispatch.clock 0), _, trivial, hst, hsound.step hst, ?_⟩
  simp [hd, atStage, sentState, Board.setTask, Function.update_idem]

/-- A claimed task is brought to its end, and nothing else changes for the workers. -/
theorem task_leads (ht : d.board.tasks t = some ⟨w, item, .claimed⟩) :
    Leads (step settings) (Undisturbed settings) (fun s => Sound s ∧ s.dispatch = d)
      fun s => Sound s ∧ s.dispatch = sentState d t item := by
  have hr : (atStage d t w item .posted).board.requests[d.board.requests.length]? =
      some ⟨t, item⟩ := by
    simp [atStage]
  have hanswered : Leads (step settings) (Undisturbed settings)
      (fun s => ∃ ack, Sending (atStage d t w item .posted) d.board.requests.length
        (some (.answered (.ok ack))) s)
      fun s => Sound s ∧ s.dispatch = sentState d t item :=
    Leads.exists_left fun _ => deliver_leads.trans mark_leads
  exact (post_leads ht).trans ((receive_leads hr).trans
    (((wake_leads hr).trans hanswered).or hanswered))

end Task

/-! ## The work of one worker -/

end ErpSystem

def OutboxMessage.isOpen (m : OutboxMessage) : Bool :=
  m.status == .pending || m.status == .inFlight

theorem OutboxMessage.isOpen_of_pending {m : OutboxMessage} (h : m.status = .pending) :
    m.isOpen = true := by
  simp [isOpen, h]

theorem OutboxMessage.isOpen_of_inFlight {m : OutboxMessage} (h : m.status = .inFlight) :
    m.isOpen = true := by
  simp [isOpen, h]

theorem OutboxMessage.inFlight_of_stale {now : Time} {m : OutboxMessage}
    (h : OutboxReader.stale now m = true) : m.status = .inFlight :=
  beq_iff_eq.mp (Bool.and_eq_true_iff.mp h).1

namespace ErpSystem

/-- The worker `w` has claimed the rows of `batch` and has no other task. What is not yet due
or still locked has been waited for; all rows that are open are `left`, and no row of `hopes`
is a dead letter. -/
structure Working (w : Nat) (hopes : List Nat) (batch : List (Nat × OutboxItem))
    (left : List Nat) (s : ErpSystem) : Prop where
  sound : Sound s
  own : ∀ t task, s.dispatch.board.tasks t = some task → task.worker = w →
    t ∈ batch.map Prod.fst
  claimed : ∀ x ∈ batch, s.dispatch.board.tasks x.1 = some ⟨w, x.2, .claimed⟩ ∧
    ∃ m, OutboxTable.get s.dispatch.board.outbox x.2.outboxId = some m ∧ m.status = .inFlight
  numbers : (batch.map Prod.fst).Nodup
  rows : (batch.map fun x => x.2.outboxId).Nodup
  due : ∀ m ∈ s.dispatch.board.outbox, m.isOpen = true → m.nextAttemptAt ≤ s.dispatch.clock
  inFlight : ∀ m ∈ s.dispatch.board.outbox, m.status = .inFlight →
    OutboxReader.stale s.dispatch.clock m = true ∨ m.outboxId ∈ batch.map fun x => x.2.outboxId
  left : ∀ m ∈ s.dispatch.board.outbox, m.isOpen = true → m.outboxId ∈ left
  hopes : ∀ id ∈ hopes, ∃ m, OutboxTable.get s.dispatch.board.outbox id = some m ∧
    m.status ≠ .dlq

def HasWorker (w k : Nat) (phase : Phase) (s : ErpSystem) : Prop :=
  ∃ workerId, s.dispatch.workers w = some ⟨workerId, k, phase⟩

/-- The worker is in its cycle `k`. -/
structure Cycle (w : Nat) (hopes : List Nat) (k : Nat) (phase : Phase)
    (batch : List (Nat × OutboxItem)) (left : List Nat) (s : ErpSystem) : Prop where
  working : Working w hopes batch left s
  worker : s.HasWorker w k phase

section Cycle
variable {settings : Settings} {s : ErpSystem} {w k : Nat} {hopes left : List Nat}
  {batch : List (Nat × OutboxItem)}

/-- The board stays as it is. -/
theorem Working.control {d : DispatchState} (hs : Working w hopes batch left s)
    (hsound : Sound { s with dispatch := d }) (hboard : d.board = s.dispatch.board)
    (hclock : d.clock = s.dispatch.clock) :
    Working w hopes batch left { s with dispatch := d } where
  sound := hsound
  own := hboard ▸ hs.own
  claimed := hboard ▸ hs.claimed
  numbers := hs.numbers
  rows := hs.rows
  due := by
    dsimp only
    rw [hboard, hclock]
    exact hs.due
  inFlight := by
    dsimp only
    rw [hboard, hclock]
    exact hs.inFlight
  left := hboard ▸ hs.left
  hopes := hboard ▸ hs.hopes

theorem poll_leads (next : Phase) (heq : next =
      if (k + 1) % DispatchWorker.releaseStaleEveryNCycles = 0 then .releasing else .claiming) :
    Leads (step settings) (Undisturbed settings) (Cycle w hopes k .polling batch left)
      (Cycle w hopes (k + 1) next batch left) := by
  subst heq
  refine Leads.single fun s hs => ?_
  obtain ⟨workerId, hw⟩ := hs.worker
  have hst : s.step settings (.worker (.poll w)) = _ := worker_eq rfl (DispatchState.poll_eq hw)
  refine ⟨.worker (.poll w), _, trivial, hst,
    hs.working.control (hs.working.sound.step hst) rfl rfl, workerId, ?_⟩
  simp [DispatchState.setWorker]

/-- Without a task of its own, the worker goes on. -/
theorem gathered_leads :
    Leads (step settings) (Undisturbed settings) (Cycle w hopes k .gathering [] left)
      (Cycle w hopes k .polling [] left) := by
  refine Leads.single fun s hs => ?_
  obtain ⟨workerId, hw⟩ := hs.worker
  have hnone : s.dispatch.hasTask w = false := by
    refine List.any_eq_false.mpr fun t _ htask => ?_
    obtain ⟨task, ht, hworker⟩ := (Option.any_eq_true _ _).mp htask
    exact absurd (hs.working.own t task ht (beq_iff_eq.mp hworker)) List.not_mem_nil
  have hst : s.step settings (.worker (.gathered w)) = _ :=
    worker_eq rfl (DispatchState.gathered_eq hw hnone)
  refine ⟨.worker (.gathered w), _, trivial, hst,
    hs.working.control (hs.working.sound.step hst) rfl rfl, workerId, ?_⟩
  simp [DispatchState.setWorker]

/-! ## Release -/

/-- All rows that are open are PENDING after the release. -/
theorem release_leads :
    Leads (step settings) (Undisturbed settings) (Cycle w hopes k .releasing [] left) fun s =>
      Cycle w hopes k .claiming [] left s ∧
        ∀ m ∈ s.dispatch.board.outbox, m.status ≠ .inFlight := by
  refine Leads.single fun s hs => ?_
  obtain ⟨hs, workerId, hw⟩ := hs
  have hst : s.step settings (.worker (.release w)) = _ :=
    worker_eq rfl (DispatchState.release_eq hw)
  have hlocked : ∀ m ∈ s.dispatch.board.outbox, OutboxReader.stale s.dispatch.clock m = false →
      m.status ≠ .inFlight := by
    intro m hm hfresh hinFlight
    rcases hs.inFlight m hm hinFlight with hstale | hbatch
    · exact absurd (hfresh.symm.trans hstale) Bool.false_ne_true
    · cases hbatch
  have hnone : ∀ m ∈ OutboxReader.releaseAbandoned s.dispatch.clock s.dispatch.board.outbox,
      m.status ≠ .inFlight := by
    intro m hm hinFlight
    obtain ⟨m₀, hm₀, ⟨_, rfl⟩ | ⟨hfresh, rfl⟩⟩ := mem_updateWhere.mp hm
    · cases hinFlight
    · exact hlocked m hm₀ hfresh hinFlight
  refine ⟨.worker (.release w), _, trivial, hst, ⟨{
    sound := hs.sound.step hst
    own := hs.own
    claimed := fun x hx => by cases hx
    numbers := hs.numbers
    rows := hs.rows
    due := fun m hm hopen => ?_
    inFlight := fun m hm hinFlight => absurd hinFlight (hnone m hm)
    left := fun m hm hopen => ?_
    hopes := fun id hid => ?_ }, workerId, ?_⟩, hnone⟩
  · obtain ⟨m₀, hm₀, ⟨hstale, rfl⟩ | ⟨_, rfl⟩⟩ := mem_updateWhere.mp hm
    · exact hs.due m₀ hm₀ (OutboxMessage.isOpen_of_inFlight (OutboxMessage.inFlight_of_stale hstale))
    · exact hs.due m hm₀ hopen
  · obtain ⟨m₀, hm₀, ⟨hstale, rfl⟩ | ⟨_, rfl⟩⟩ := mem_updateWhere.mp hm
    · exact hs.left m₀ hm₀ (OutboxMessage.isOpen_of_inFlight (OutboxMessage.inFlight_of_stale hstale))
    · exact hs.left m hm₀ hopen
  · obtain ⟨m, hm, hhope⟩ := hs.hopes id hid
    refine ⟨if OutboxReader.stale s.dispatch.clock m then OutboxReader.releaseRow m else m, ?_, ?_⟩
    · exact (OutboxTable.get_releaseAbandoned s.dispatch.clock).trans (by rw [hm, Option.map_some])
    · split
      · simp [OutboxReader.releaseRow]
      · exact hhope
  · simp [DispatchState.setWorker]

/-! ## Claim -/

/-- The rows with the first keys are the first rows. -/
theorem filter_take {α β : Type} [DecidableEq β] {f : α → β} {l : List α} (h : (l.map f).Nodup)
    (n : Nat) : l.filter (fun a => ((l.take n).map f).contains (f a)) = l.take n := by
  have hsplit := List.take_append_drop n l
  have hparts : ((l.take n).map f ++ (l.drop n).map f).Nodup := by
    rwa [← List.map_append, hsplit]
  have hdisjoint := (List.nodup_append.mp hparts).2.2
  calc
    l.filter (fun a => ((l.take n).map f).contains (f a)) =
        (l.take n ++ l.drop n).filter (fun a => ((l.take n).map f).contains (f a)) := by
      rw [hsplit]
    _ = l.take n ++ [] := by
      rw [List.filter_append]
      congr 1
      · refine List.filter_eq_self.mpr fun a ha => ?_
        rw [List.contains_eq_mem, decide_eq_true_eq]
        exact List.mem_map_of_mem ha
      · refine List.filter_eq_nil_iff.mpr fun a ha hmem => ?_
        have hfirst : f a ∈ (l.take n).map f := by
          rwa [List.contains_eq_mem, decide_eq_true_eq] at hmem
        exact hdisjoint _ hfirst _ (List.mem_map_of_mem ha) rfl
    _ = l.take n := List.append_nil _

/-- What the worker claims: as many rows as it may. -/
def greedy (settings : Settings) (d : DispatchState) : List Nat :=
  ((d.board.outbox.filter (OutboxReader.claimable d.clock)).take
    settings.dispatchBatchSize).map OutboxMessage.outboxId

theorem claimedNow_greedy {d : DispatchState} (hd : d.board.WellFormed) :
    d.claimedNow (greedy settings d) =
      (d.board.outbox.filter (OutboxReader.claimable d.clock)).take settings.dispatchBatchSize := by
  have hids : ((d.board.outbox.filter (OutboxReader.claimable d.clock)).map
      OutboxMessage.outboxId).Nodup := hd.ids.sublist (List.filter_sublist.map _)
  rw [← filter_take hids, List.filter_filter]
  refine List.filter_congr fun m _ => ?_
  exact Bool.and_comm _ _

/-- The tasks of a claim with their items. -/
def claimedTasks (created : Nat) (items : List OutboxItem) : List (Nat × OutboxItem) :=
  (items.zipIdx created).map Prod.swap

theorem claimedTasks_fst (created : Nat) (items : List OutboxItem) :
    (claimedTasks created items).map Prod.fst = List.range' created items.length := by
  rw [claimedTasks, List.map_map]
  exact List.zipIdx_map_snd created items

theorem claimedTasks_snd {β : Type} (f : OutboxItem → β) (created : Nat)
    (items : List OutboxItem) :
    (claimedTasks created items).map (fun x => f x.2) = items.map f := by
  have hfst : (items.zipIdx created).map Prod.fst = items := List.zipIdx_map_fst created items
  conv_rhs => rw [← hfst, List.map_map]
  rw [claimedTasks, List.map_map]
  rfl

theorem mem_claimedTasks {created : Nat} {items : List OutboxItem} {x : Nat × OutboxItem} :
    x ∈ claimedTasks created items ↔ created ≤ x.1 ∧ items[x.1 - created]? = some x.2 := by
  obtain ⟨t, item⟩ := x
  simp only [claimedTasks, List.mem_map, Prod.exists, Prod.swap_prod_mk, Prod.mk.injEq]
  constructor
  · rintro ⟨item', t', hmem, rfl, rfl⟩
    exact List.mk_mem_zipIdx_iff_le_and_getElem?_sub.mp hmem
  · intro h
    exact ⟨item, t, List.mk_mem_zipIdx_iff_le_and_getElem?_sub.mpr h, rfl, rfl⟩

/-- The claimed rows are the batch of the worker. -/
theorem Working.claim {d : DispatchState} {workerId : String} {picked : List Nat}
    (hs : Working w hopes [] left s) (hsound : Sound { s with dispatch := d })
    (hclock : d.clock = s.dispatch.clock)
    (hboard : d.board =
      let claimed := OutboxReader.claim workerId s.dispatch.clock picked s.dispatch.board.outbox
      { s.dispatch.board.addTasks w claimed.2 with outbox := claimed.1 }) :
    Working w hopes (claimedTasks s.dispatch.board.created
      (OutboxReader.claim workerId s.dispatch.clock picked s.dispatch.board.outbox).2) left
      { s with dispatch := d } := by
  have hkeys : ((OutboxReader.claim workerId s.dispatch.clock picked
      s.dispatch.board.outbox).2.map OutboxItem.outboxId) =
      (s.dispatch.claimedNow picked).map OutboxMessage.outboxId := by
    simp only [OutboxReader.claim, List.map_map]
    rfl
  have hget : ∀ id, OutboxTable.get d.board.outbox id = (OutboxTable.get s.dispatch.board.outbox
      id).map fun m => if OutboxReader.taken s.dispatch.clock picked m then
        OutboxReader.claimRow workerId s.dispatch.clock m else m := by
    intro id
    rw [hboard]
    exact OutboxTable.get_claim workerId s.dispatch.clock picked
  have hrow : ∀ m ∈ d.board.outbox, ∃ m₀ ∈ s.dispatch.board.outbox,
      (OutboxReader.taken s.dispatch.clock picked m₀ = true ∧
        m = OutboxReader.claimRow workerId s.dispatch.clock m₀) ∨
      (OutboxReader.taken s.dispatch.clock picked m₀ = false ∧ m = m₀) := by
    intro m hm
    rw [hboard] at hm
    exact mem_updateWhere.mp hm
  have hpending : ∀ m, OutboxReader.taken s.dispatch.clock picked m = true →
      m.status = .pending := by
    intro m htaken
    simp only [OutboxReader.taken, OutboxReader.claimable, Bool.and_eq_true, beq_iff_eq] at htaken
    exact htaken.1.1
  refine ⟨hsound, fun t task ht hworker => ?_, fun x hx => ⟨?_, ?_⟩, ?_, ?_, fun m hm hopen => ?_,
    fun m hm hinFlight => ?_, fun m hm hopen => ?_, fun id hid => ?_⟩
  · -- a task of the worker is one that it has just got
    dsimp only at ht
    rw [hboard] at ht
    simp only [Board.addTasks] at ht
    split at ht
    · exact absurd (hs.own t task ht hworker) List.not_mem_nil
    · rename_i hnew
      obtain ⟨item, hitem, rfl⟩ := Option.map_eq_some_iff.mp ht
      exact List.mem_map.mpr ⟨(t, item), mem_claimedTasks.mpr ⟨Nat.not_lt.mp hnew, hitem⟩, rfl⟩
  · obtain ⟨hle, hitem⟩ := mem_claimedTasks.mp hx
    dsimp only
    rw [hboard]
    simp [Board.addTasks, Nat.not_lt.mpr hle, hitem]
  · obtain ⟨_, hitem⟩ := mem_claimedTasks.mp hx
    simp only [OutboxReader.claim, List.getElem?_map, Option.map_eq_some_iff] at hitem
    obtain ⟨m, hm, heq⟩ := hitem
    obtain ⟨hfound, htaken⟩ := Board.get_of_taken hs.sound.wellFormed hm
    have hid : x.2.outboxId = m.outboxId := by
      rw [← heq]
      rfl
    refine ⟨OutboxReader.claimRow workerId s.dispatch.clock m, ?_, rfl⟩
    dsimp only
    rw [hget, hid, hfound, Option.map_some, if_pos htaken]
  · rw [claimedTasks_fst]
    exact List.nodup_range'
  · rw [claimedTasks_snd, hkeys]
    exact hs.sound.wellFormed.ids.sublist (List.filter_sublist.map _)
  · obtain ⟨m₀, hm₀, ⟨htaken, rfl⟩ | ⟨_, rfl⟩⟩ := hrow m hm
    · exact hclock ▸ hs.due m₀ hm₀ (OutboxMessage.isOpen_of_pending (hpending m₀ htaken))
    · exact hclock ▸ hs.due m hm₀ hopen
  · obtain ⟨m₀, hm₀, ⟨htaken, rfl⟩ | ⟨_, rfl⟩⟩ := hrow m hm
    · refine .inr ?_
      rw [claimedTasks_snd, hkeys]
      exact List.mem_map.mpr ⟨m₀, List.mem_filter.mpr ⟨hm₀, htaken⟩, rfl⟩
    · rcases hs.inFlight m hm₀ hinFlight with hstale | hbatch
      · exact .inl (hclock ▸ hstale)
      · cases hbatch
  · obtain ⟨m₀, hm₀, ⟨htaken, rfl⟩ | ⟨_, rfl⟩⟩ := hrow m hm
    · exact hs.left m₀ hm₀ (OutboxMessage.isOpen_of_pending (hpending m₀ htaken))
    · exact hs.left m hm₀ hopen
  · obtain ⟨m, hm, hhope⟩ := hs.hopes id hid
    refine ⟨_, (hget id).trans (by rw [hm, Option.map_some]), ?_⟩
    split
    · simp [OutboxReader.claimRow]
    · exact hhope

/-- Either nothing is PENDING, or the worker has got a batch. -/
theorem claim_leads (hbatch : 1 ≤ settings.dispatchBatchSize) (rows : OutboxTable) :
    Leads (step settings) (Undisturbed settings)
      (fun s => Cycle w hopes k .claiming [] left s ∧ s.dispatch.board.outbox = rows) fun s =>
      (Cycle w hopes k .polling [] left s ∧ s.dispatch.board.outbox = rows ∧
        ∀ m ∈ rows, m.status ≠ .pending) ∨
      ∃ batch, batch ≠ [] ∧ Cycle w hopes k .gathering batch left s := by
  refine Leads.single fun s hs => ?_
  obtain ⟨⟨hs, workerId, hw⟩, rfl⟩ := hs
  have hnow : s.dispatch.claimedNow (greedy settings s.dispatch) =
      (s.dispatch.board.outbox.filter (OutboxReader.claimable s.dispatch.clock)).take
        settings.dispatchBatchSize := claimedNow_greedy hs.sound.wellFormed
  have hlength : (s.dispatch.claimedNow (greedy settings s.dispatch)).length =
      min settings.dispatchBatchSize
        (s.dispatch.board.outbox.countP (OutboxReader.claimable s.dispatch.clock)) := by
    rw [hnow, List.length_take, List.countP_eq_length_filter]
  have hfew : (s.dispatch.claimedNow (greedy settings s.dispatch)).length ≤
      settings.dispatchBatchSize := hlength ▸ Nat.min_le_left _ _
  have hst : s.step settings (.worker (.claim w (greedy settings s.dispatch))) = _ :=
    worker_eq rfl (DispatchState.claim_eq hw hfew)
  have hworking := hs.claim (hs.sound.step hst) rfl rfl
  refine ⟨.worker (.claim w (greedy settings s.dispatch)), _, hlength, hst, ?_⟩
  by_cases hempty : s.dispatch.claimedNow (greedy settings s.dispatch) = []
  · left
    have hitems : (OutboxReader.claim workerId s.dispatch.clock (greedy settings s.dispatch)
        s.dispatch.board.outbox).2 = [] := List.map_eq_nil_iff.mpr hempty
    rw [hitems] at hworking
    have hnone : s.dispatch.board.outbox.filter (OutboxReader.claimable s.dispatch.clock) = [] := by
      rcases List.take_eq_nil_iff.mp (hnow.symm.trans hempty) with hzero | hnone
      · omega
      · exact hnone
    refine ⟨⟨hworking, workerId, ?_⟩, updateWhere_eq_self fun m hm => ?_, fun m hm hpending => ?_⟩
    · simp [DispatchState.setWorker, hempty]
    · exact Bool.not_eq_true _ ▸ List.filter_eq_nil_iff.mp hempty m hm
    · have hdue := hs.due m hm (OutboxMessage.isOpen_of_pending hpending)
      refine List.filter_eq_nil_iff.mp hnone m hm ?_
      simp [OutboxReader.claimable, hpending, hdue]
  · right
    refine ⟨_, fun hnil => hempty ?_, hworking, workerId, ?_⟩
    · have hlen := congrArg List.length hnil
      rw [← List.length_map Prod.fst, claimedTasks_fst, List.length_range'] at hlen
      exact List.map_eq_nil_iff.mp (List.length_eq_zero_iff.mp hlen)
    · simp [DispatchState.setWorker, hempty]

/-! ## The tasks of a batch -/

/-- The first task of the batch is over. -/
theorem Working.sent {t : Nat} {item : OutboxItem} {u : ErpSystem}
    (hs : Working w hopes ((t, item) :: batch) left s) (hsound : Sound u)
    (hdispatch : u.dispatch = sentState s.dispatch t item) :
    Working w hopes batch (left.erase item.outboxId) u := by
  have htasks : ∀ t', t' ≠ t → u.dispatch.board.tasks t' = s.dispatch.board.tasks t' := by
    intro t' hne
    simp [hdispatch, sentState, Board.setTask, hne]
  have hover : u.dispatch.board.tasks t = none := by
    simp [hdispatch, sentState, Board.setTask]
  have hclock : u.dispatch.clock = s.dispatch.clock := by rw [hdispatch, sentState]
  have hset : ∀ m, (OutboxRepository.sentRow s.dispatch.clock m).outboxId = m.outboxId :=
    fun _ => rfl
  have hget : ∀ id, OutboxTable.get u.dispatch.board.outbox id =
      if id = item.outboxId then (OutboxTable.get s.dispatch.board.outbox id).map
        (OutboxRepository.sentRow s.dispatch.clock)
      else OutboxTable.get s.dispatch.board.outbox id := by
    intro id
    rw [hdispatch]
    exact OutboxTable.get_update hset
  have hrow : ∀ m ∈ u.dispatch.board.outbox, m.isOpen = true →
      m ∈ s.dispatch.board.outbox ∧ m.outboxId ≠ item.outboxId := by
    intro m hm hopen
    rw [hdispatch] at hm
    obtain ⟨m₀, hm₀, ⟨_, rfl⟩ | ⟨hother, rfl⟩⟩ := mem_updateWhere.mp hm
    · cases hopen
    · exact ⟨hm₀, by simpa using hother⟩
  obtain ⟨hnotMem, hnumbers⟩ := List.nodup_cons.mp hs.numbers
  obtain ⟨hnotRow, hrows⟩ := List.nodup_cons.mp hs.rows
  refine ⟨hsound, fun t' task ht' hworker => ?_, fun x hx => ⟨?_, ?_⟩, hnumbers, hrows,
    fun m hm hopen => ?_, fun m hm hinFlight => ?_, fun m hm hopen => ?_, fun id hid => ?_⟩
  · have hne : t' ≠ t := by
      rintro rfl
      rw [hover] at ht'
      cases ht'
    rw [htasks t' hne] at ht'
    rcases List.mem_cons.mp (hs.own t' task ht' hworker) with heq | hmem
    · exact absurd heq hne
    · exact hmem
  · have hne : x.1 ≠ t := fun heq => hnotMem (List.mem_map.mpr ⟨x, hx, heq⟩)
    rw [htasks x.1 hne]
    exact (hs.claimed x (List.mem_cons_of_mem _ hx)).1
  · have hne : x.2.outboxId ≠ item.outboxId :=
      fun heq => hnotRow (List.mem_map.mpr ⟨x, hx, heq⟩)
    rw [hget, if_neg hne]
    exact (hs.claimed x (List.mem_cons_of_mem _ hx)).2
  · exact hclock ▸ hs.due m (hrow m hm hopen).1 hopen
  · obtain ⟨hm₀, hne⟩ := hrow m hm (OutboxMessage.isOpen_of_inFlight hinFlight)
    rcases hs.inFlight m hm₀ hinFlight with hstale | hmem
    · exact .inl (hclock ▸ hstale)
    · rcases List.mem_cons.mp hmem with heq | hmem
      · exact absurd heq hne
      · exact .inr hmem
  · obtain ⟨hm₀, hne⟩ := hrow m hm hopen
    exact (List.mem_erase_of_ne hne).mpr (hs.left m hm₀ hopen)
  · obtain ⟨m, hm, hhope⟩ := hs.hopes id hid
    rw [hget]
    split
    · exact ⟨_, by rw [hm, Option.map_some], by simp [OutboxRepository.sentRow]⟩
    · exact ⟨m, hm, hhope⟩

/-- The worker brings all tasks of its batch to their end. -/
theorem batch_leads (batch : List (Nat × OutboxItem)) (left : List Nat) :
    Leads (step settings) (Undisturbed settings) (Cycle w hopes k .gathering batch left)
      fun s => ∃ left', left'.length + batch.length = left.length ∧
        Cycle w hopes k .gathering [] left' s := by
  induction batch generalizing left with
  | nil => exact Leads.of_imp fun s hs => ⟨left, rfl, hs⟩
  | cons x batch ih =>
    obtain ⟨t, item⟩ := x
    intro s hs
    obtain ⟨ht, m, hm, hinFlight⟩ := hs.working.claimed (t, item) List.mem_cons_self
    have hmem : item.outboxId ∈ left := by
      have hopen := hs.working.left m (OutboxTable.mem_of_get hm)
        (OutboxMessage.isOpen_of_inFlight hinFlight)
      rwa [OutboxTable.id_of_get hm] at hopen
    have hfirst : Leads (step settings) (Undisturbed settings) (fun u => u = s)
        (Cycle w hopes k .gathering batch (left.erase item.outboxId)) := by
      intro u hu
      subst hu
      obtain ⟨ls, u', hls, hrun, hsound, hdispatch⟩ := task_leads ht u ⟨hs.working.sound, rfl⟩
      refine ⟨ls, u', hls, hrun, hs.working.sent hsound hdispatch, ?_⟩
      simp only [HasWorker, hdispatch, sentState]
      exact hs.worker
    obtain ⟨ls, u, hls, hrun, left', hlength, hu⟩ := (hfirst.trans (ih _)) s rfl
    refine ⟨ls, u, hls, hrun, left', ?_, hu⟩
    have herase := List.length_erase_of_mem hmem
    have hpos := List.length_pos_of_mem hmem
    simp only [List.length_cons]
    omega

/-! ## Until no row is open -/

/-- The worker is about to poll and at most that many rows are open. -/
def Remaining (w : Nat) (hopes : List Nat) (n : Nat) (s : ErpSystem) : Prop :=
  ∃ k left, left.length = n ∧ Cycle w hopes k .polling [] left s

theorem Cycle.remaining_zero (hs : Cycle w hopes k .polling [] left s)
    (hnone : ∀ m ∈ s.dispatch.board.outbox, m.isOpen = false) : Remaining w hopes 0 s := by
  refine ⟨k, [], rfl, { hs.working with left := fun m hm hopen => ?_ }, hs.worker⟩
  exact absurd ((hnone m hm).symm.trans hopen) Bool.false_ne_true

theorem Remaining.final (hs : Remaining w hopes 0 s) :
    ∀ m ∈ s.dispatch.board.outbox, m.isOpen = false := by
  obtain ⟨k, left, hlength, hs⟩ := hs
  obtain rfl := List.length_eq_zero_iff.mp hlength
  intro m hm
  refine Bool.eq_false_iff.mpr fun hopen => ?_
  exact absurd (hs.working.left m hm hopen) List.not_mem_nil

/-- One claim with what follows from it. -/
theorem claimed_leads (hbatch : 1 ≤ settings.dispatchBatchSize) (rows : OutboxTable) :
    Leads (step settings) (Undisturbed settings)
      (fun s => Cycle w hopes k .claiming [] left s ∧ s.dispatch.board.outbox = rows) fun s =>
      (Cycle w hopes k .polling [] left s ∧ s.dispatch.board.outbox = rows ∧
        ∀ m ∈ rows, m.status ≠ .pending) ∨
      ∃ n < left.length, Remaining w hopes n s := by
  refine (claim_leads hbatch rows).trans (Leads.or (Leads.of_imp fun s hs => .inl hs) ?_)
  refine Leads.exists_left fun batch => ?_
  intro s hs
  obtain ⟨hne, hs⟩ := hs
  have hgathered : Leads (step settings) (Undisturbed settings)
      (fun s => ∃ left', left'.length + batch.length = left.length ∧
        Cycle w hopes k .gathering [] left' s)
      fun s => ∃ n < left.length, Remaining w hopes n s := by
    refine Leads.exists_left fun left' => ?_
    intro s hs
    obtain ⟨hlength, hs⟩ := hs
    have hlast : Leads (step settings) (Undisturbed settings) (Cycle w hopes k .gathering [] left')
        (Cycle w hopes k .polling [] left') := gathered_leads
    obtain ⟨ls, t, hls, hrun, ht⟩ := hlast s hs
    have hpos := List.length_pos_iff.mpr hne
    exact ⟨ls, t, hls, hrun, left'.length, by omega, k, left', rfl, ht⟩
  obtain ⟨ls, t, hls, hrun, ht⟩ := ((batch_leads batch left).trans hgathered) s hs
  exact ⟨ls, t, hls, hrun, .inr ht⟩

/-- Within the cycles to the next release, some row comes to its end. -/
theorem cycles_leads (hbatch : 1 ≤ settings.dispatchBatchSize) (d : Nat) :
    ∀ k, k % DispatchWorker.releaseStaleEveryNCycles + d + 1 =
        DispatchWorker.releaseStaleEveryNCycles →
      Leads (step settings) (Undisturbed settings) (Cycle w hopes k .polling [] left) fun s =>
        Remaining w hopes 0 s ∨ ∃ n < left.length, Remaining w hopes n s := by
  induction d with
  | zero =>
    intro k hk
    have hnow : (k + 1) % DispatchWorker.releaseStaleEveryNCycles = 0 := by
      simp only [DispatchWorker.releaseStaleEveryNCycles] at hk ⊢
      omega
    refine (poll_leads .releasing (by rw [if_pos hnow])).trans (release_leads.trans ?_)
    intro s hs
    obtain ⟨hs, hnone⟩ := hs
    obtain ⟨ls, t, hls, hrun, ht⟩ := claimed_leads hbatch s.dispatch.board.outbox s ⟨hs, rfl⟩
    refine ⟨ls, t, hls, hrun, ht.imp_left fun ⟨ht, hrows, hpending⟩ => ?_⟩
    refine ht.remaining_zero fun m hm => ?_
    rw [hrows] at hm
    simp [OutboxMessage.isOpen, hpending m hm, hnone m hm]
  | succ d ih =>
    intro k hk
    have hlater : (k + 1) % DispatchWorker.releaseStaleEveryNCycles ≠ 0 := by
      simp only [DispatchWorker.releaseStaleEveryNCycles] at hk ⊢
      omega
    have hnext : (k + 1) % DispatchWorker.releaseStaleEveryNCycles + d + 1 =
        DispatchWorker.releaseStaleEveryNCycles := by
      simp only [DispatchWorker.releaseStaleEveryNCycles] at hk ⊢
      omega
    refine (poll_leads .claiming (by rw [if_neg hlater])).trans ?_
    intro s hs
    refine ((claimed_leads hbatch s.dispatch.board.outbox).trans (Leads.or ?_ ?_)) s ⟨hs, rfl⟩
    · -- nothing to claim yet
      intro t ht
      exact ih (k + 1) hnext t ht.1
    · exact Leads.of_imp fun t ht => .inr ht

theorem remaining_leads (hbatch : 1 ≤ settings.dispatchBatchSize) (n : Nat) :
    Leads (step settings) (Undisturbed settings) (Remaining w hopes n) (Remaining w hopes 0) := by
  refine Leads.countdown (fun n => ?_) n
  intro s hs
  obtain ⟨k, left, hlength, hs⟩ := hs
  have hlt : k % DispatchWorker.releaseStaleEveryNCycles <
      DispatchWorker.releaseStaleEveryNCycles := Nat.mod_lt k (by decide)
  obtain ⟨ls, t, hls, hrun, hzero | ⟨m, hm, ht⟩⟩ := cycles_leads hbatch
    (DispatchWorker.releaseStaleEveryNCycles - k % DispatchWorker.releaseStaleEveryNCycles - 1) k
    (by omega) s hs
  · exact ⟨ls, t, hls, hrun, 0, Nat.zero_le n, hzero⟩
  · exact ⟨ls, t, hls, hrun, m, by omega, ht⟩

end Cycle

end ErpSystem

end EcommerceIntegration
