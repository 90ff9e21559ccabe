import EcommerceIntegration.Dispatch.Cycles
import EcommerceIntegration.Dispatch.Locks

/-!
# The outbox can still be drained

Whatever has happened before, a worker that starts now and a service that works bring every
row to SENT that is not a dead letter: no state of the outbox is a trap.
-/

namespace EcommerceIntegration

set_option autoImplicit false

open Transition

/-! ## A worker that starts -/

/-- The tasks are those of workers that have been started. -/
structure DispatchState.Assigned (s : DispatchState) : Prop where
  workers : ∀ w, (s.workers w).isSome = true → w < s.started
  tasks : ∀ t task, s.board.tasks t = some task → task.worker < s.started

theorem Board.worker_act {b b' : Board} {a : Action} (h : b.act a = some b') {t : Nat} {task : Task}
    (ht : b'.tasks t = some task) :
    (∃ task₀, b.tasks t = some task₀ ∧ task₀.worker = task.worker) ∨
      ∃ workerId now picked, a = .claim task.worker workerId now picked := by
  have hset : ∀ {u : Nat} {v : Option Task}, (b.setTask u v).tasks t = some task →
      (t = u ∧ v = some task) ∨ b.tasks t = some task := by
    intro u v hv
    by_cases heq : t = u
    · subst heq
      exact .inl ⟨rfl, by simpa [setTask] using hv⟩
    · exact .inr (by simpa [setTask, heq] using hv)
  cases a with
  | enqueue m =>
    obtain ⟨_, _, rfl⟩ := act_enqueue h
    exact .inl ⟨task, ht, rfl⟩
  | release now =>
    cases h
    exact .inl ⟨task, ht, rfl⟩
  | claim worker workerId now picked =>
    cases h
    simp only [addTasks] at ht
    split at ht
    · exact .inl ⟨task, ht, rfl⟩
    · obtain ⟨item, _, rfl⟩ := Option.map_eq_some_iff.mp ht
      exact .inr ⟨workerId, now, picked, rfl⟩
  | post u =>
    obtain ⟨worker, item, hu, rfl⟩ := act_post h
    rcases hset ht with ⟨rfl, heq⟩ | ht
    · cases heq
      exact .inl ⟨_, hu, rfl⟩
    · exact .inl ⟨task, ht, rfl⟩
  | answer u verdict =>
    obtain ⟨worker, item, hu, rfl⟩ := act_answer h
    rcases hset ht with ⟨rfl, heq⟩ | ht
    · cases heq
      exact .inl ⟨_, hu, rfl⟩
    · exact .inl ⟨task, ht, rfl⟩
  | mark u now delay =>
    obtain ⟨_, _, _, _, rfl⟩ := act_mark h
    rcases hset ht with ⟨_, heq⟩ | ht
    · cases heq
    · exact .inl ⟨task, ht, rfl⟩
  | drop u =>
    obtain ⟨_, _, rfl⟩ := Option.map_eq_some_iff.mp h
    rcases hset ht with ⟨_, heq⟩ | ht
    · cases heq
    · exact .inl ⟨task, ht, rfl⟩

namespace DispatchState
variable {settings : Settings} {s t : DispatchState} {l : DispatchLabel}

/-- A worker is there after the step only if it was there before or has been started now. -/
theorem workers_setWorker {w v : Nat} {worker : Option Worker}
    (hs : ∀ w, (s.workers w).isSome = true → w < s.started)
    (hw : worker.isSome = true → w < s.started)
    (hv : ((s.setWorker w worker).workers v).isSome = true) : v < s.started := by
  by_cases heq : v = w
  · subst heq
    exact hw (by simpa [setWorker] using hv)
  · exact hs v (by simpa [setWorker, heq] using hv)

theorem isSome_of_inPhase {w : Nat} {phase : Phase} {worker : Worker}
    (h : s.inPhase w phase = some worker) : (s.workers w).isSome = true := by
  obtain ⟨hw, _⟩ := Option.filter_eq_some_iff.mp h
  rw [hw]
  rfl

theorem failTask_started (s : DispatchState) (k : Nat) : (s.failTask k).started = s.started := by
  unfold failTask
  split <;> rfl

theorem workers_failTask {k v : Nat} (hs : ∀ w, (s.workers w).isSome = true → w < s.started)
    (hv : ((s.failTask k).workers v).isSome = true) : v < (s.failTask k).started := by
  rw [failTask_started]
  unfold failTask at hv
  split at hv
  · exact workers_setWorker hs (fun hnone => by cases hnone) hv
  · exact hs v hv

theorem control_started (hs : ∀ w, (s.workers w).isSome = true → w < s.started)
    (h : s.control settings l = some t) :
    s.started ≤ t.started ∧ ∀ w, (t.workers w).isSome = true → w < t.started := by
  have hphase : ∀ {w phase worker} {next : Worker}, s.inPhase w phase = some worker →
      ∀ v, ((s.setWorker w (some next)).workers v).isSome = true → v < s.started := by
    intro w phase worker next hin v hv
    exact workers_setWorker hs (fun _ => hs w (isSome_of_inPhase hin)) hv
  have hgone : ∀ w v, ((s.setWorker w none).workers v).isSome = true → v < s.started :=
    fun w v hv => workers_setWorker hs (fun hnone => by cases hnone) hv
  cases l with
  | enqueue | post | tick =>
    cases h
    exact ⟨Nat.le_refl _, hs⟩
  | start workerId =>
    cases h
    refine ⟨Nat.le_succ _, fun w hw => ?_⟩
    by_cases heq : w = s.started
    · exact heq ▸ Nat.lt_succ_self w
    · exact Nat.lt_succ_of_lt (hs w (by simpa [setWorker, heq] using hw))
  | poll w | release w =>
    obtain ⟨worker, hw, rfl⟩ := Option.map_eq_some_iff.mp h
    exact ⟨Nat.le_refl _, hphase hw⟩
  | stop w | die w =>
    obtain ⟨_, _, rfl⟩ := Option.map_eq_some_iff.mp h
    exact ⟨Nat.le_refl _, hgone w⟩
  | claim w picked =>
    obtain ⟨worker, hw, h⟩ := Option.bind_eq_some_iff.mp h
    dsimp only at h
    split at h
    · cases h
      exact ⟨Nat.le_refl _, hphase hw⟩
    · cases h
  | reply k result =>
    simp only [control] at h
    split at h
    · split at h
      · cases h
        exact ⟨Nat.le_refl _, hs⟩
      · cases h
        exact ⟨(failTask_started s k).ge, fun v hv => workers_failTask hs hv⟩
    · cases h
  | mark k readAt u =>
    simp only [control] at h
    split at h
    · split at h
      · cases h
        exact ⟨Nat.le_refl _, hs⟩
      · cases h
    · cases h
  | markFails k =>
    simp only [control] at h
    split at h
    · cases h
      exact ⟨(failTask_started s k).ge, fun v hv => workers_failTask hs hv⟩
    · cases h
  | gathered w =>
    obtain ⟨worker, hw, h⟩ := Option.bind_eq_some_iff.mp h
    split at h
    · cases h
    · cases h
      exact ⟨Nat.le_refl _, hphase hw⟩
  | lose k =>
    obtain ⟨task, _, h⟩ := Option.bind_eq_some_iff.mp h
    split at h
    · cases h
      exact ⟨Nat.le_refl _, hs⟩
    · cases h

/-- Only a worker that is there claims. -/
theorem isSome_of_claims {worker : Nat} {workerId : String} {now : Time} {picked : List Nat}
    (h : s.action settings l = some (.claim worker workerId now picked)) :
    (s.workers worker).isSome = true := by
  cases l with
  | claim w picked =>
    obtain ⟨v, hw, heq⟩ := Option.map_eq_some_iff.mp h
    cases heq
    rw [hw]
    rfl
  | reply k result =>
    obtain ⟨item, _, heq⟩ := Option.map_eq_some_iff.mp h
    split at heq <;> cases heq
  | mark k readAt u =>
    obtain ⟨_, _, _, _, _, _, heq⟩ := action_mark h
    cases heq
  | enqueue | release | post | markFails | lose => cases h
  | start | poll | stop | gathered | die | tick => cases h

theorem Assigned.step (hs : s.Assigned) (hst : s.step settings l = some t) : t.Assigned := by
  obtain ⟨s', hcontrol, hst⟩ := Option.bind_eq_some_iff.mp hst
  obtain ⟨hle, hworkers⟩ := control_started hs.workers hcontrol
  have hboard := control_board hcontrol
  split at hst
  · rename_i a ha
    obtain ⟨board, hact, rfl⟩ := Option.map_eq_some_iff.mp hst
    refine ⟨hworkers, fun k task htask => ?_⟩
    rcases Board.worker_act hact htask with ⟨task₀, htask₀, heq⟩ | ⟨_, _, _, rfl⟩
    · exact heq ▸ Nat.lt_of_lt_of_le (hs.tasks k task₀ htask₀) hle
    · exact Nat.lt_of_lt_of_le (hs.workers _ (isSome_of_claims ha)) hle
  · cases hst
    refine ⟨hworkers, fun k task htask => ?_⟩
    rw [hboard] at htask
    exact Nat.lt_of_lt_of_le (hs.tasks k task htask) hle

theorem Assigned.initial (clock : Time) : (DispatchState.initial clock).Assigned where
  workers w hw := by cases hw
  tasks t task ht := by cases ht

end DispatchState

namespace ErpSystem

theorem exists_delay {α : Type} (f : α → Time) (now : Time) (l : List α) :
    ∃ d : Nat, ∀ a ∈ l, f a ≤ now + d := by
  induction l with
  | nil => exact ⟨0, fun a ha => by cases ha⟩
  | cons a l ih =>
    obtain ⟨d, hd⟩ := ih
    refine ⟨max d (f a - now).toNat, fun b hb => ?_⟩
    rcases List.mem_cons.mp hb with rfl | hb
    · lia
    · have := hd b hb
      lia

section Start
variable {settings : Settings} {s t : ErpSystem} {l : ErpLabel}

/-- The lock of a row is stale from that time on. -/
def staleFrom (m : OutboxMessage) : Time :=
  m.lockedAt.getD 0 + OutboxReader.staleLockSeconds * 1000000 + 1

/-- It takes time until all rows are due and all locks are old, then a worker starts. -/
theorem start_leads {hopes : List Nat} (hsound : Sound s)
    (hlocks : s.dispatch.board.LocksMatch) (hassigned : s.dispatch.Assigned)
    (hhopes : ∀ id ∈ hopes, ∃ m, OutboxTable.get s.dispatch.board.outbox id = some m ∧
      m.status ≠ .dlq) :
    Leads (step settings) (Undisturbed settings) (fun u => u = s)
      (Remaining s.dispatch.started hopes s.dispatch.board.outbox.length) := by
  intro u hu
  subst hu
  obtain ⟨d, hd⟩ := exists_delay (fun m => max m.nextAttemptAt (staleFrom m)) u.dispatch.clock
    u.dispatch.board.outbox
  refine ⟨[.worker (.tick d), .worker (.start "dispatch")], _,
    ⟨trivial, fun _ _ => ⟨trivial, fun _ _ => trivial⟩⟩, rfl, 0,
    u.dispatch.board.outbox.map OutboxMessage.outboxId, List.length_map _, {
      sound := hsound.board rfl
      own := fun t task ht hworker => ?_
      claimed := fun x hx => by cases hx
      numbers := List.nodup_nil
      rows := List.nodup_nil
      due := fun m hm _ => ?_
      inFlight := fun m hm hinFlight => ?_
      left := fun m hm _ => List.mem_map_of_mem hm
      hopes := hhopes }, "dispatch", ?_⟩
  · exact absurd hworker (Nat.ne_of_lt (hassigned.tasks t task ht))
  · have hmax := hd m hm
    exact Int.le_trans (Int.le_max_left _ _) hmax
  · left
    obtain ⟨_, hat⟩ := (hlocks.rows m hm).held.mpr hinFlight
    obtain ⟨lockedAt, hat⟩ := Option.isSome_iff_exists.mp hat
    have hmax := hd m hm
    have hlate : lockedAt < u.dispatch.clock + d - OutboxReader.staleLockSeconds * 1000000 := by
      simp only [staleFrom, hat, Option.getD_some] at hmax
      lia
    refine Bool.and_eq_true_iff.mpr ⟨beq_iff_eq.mpr hinFlight, ?_⟩
    rw [hat]
    exact decide_eq_true hlate
  · simp [DispatchState.setWorker]

end Start

/-! ## From every reachable state -/

section Runs
variable {settings : Settings} {clock : Time} {s t : ErpSystem} {ls : List ErpLabel} {l : ErpLabel}

/-- A step of the whole is a step of the workers or leaves them alone. -/
theorem step_dispatch (hst : s.step settings l = some t) :
    t.dispatch = s.dispatch ∨ ∃ l', s.dispatch.step settings l' = some t.dispatch := by
  cases l with
  | worker l =>
    simp only [ErpSystem.step] at hst
    split at hst
    · obtain ⟨d, hd, rfl⟩ := Option.map_eq_some_iff.mp hst
      exact .inr ⟨l, hd⟩
    · cases hst
  | receive r =>
    simp only [ErpSystem.step] at hst
    split at hst
    · cases hst
      exact .inl rfl
    · cases hst
  | wake r draw =>
    simp only [ErpSystem.step] at hst
    split at hst
    · obtain ⟨⟨server, handling⟩, _, rfl⟩ := Option.map_eq_some_iff.mp hst
      exact .inl rfl
    · cases hst
  | fail r =>
    simp only [ErpSystem.step] at hst
    split at hst
    · cases hst
      exact .inl rfl
    · cases hst
  | deliver r =>
    simp only [ErpSystem.step] at hst
    split at hst
    · obtain ⟨d, hd, rfl⟩ := Option.map_eq_some_iff.mp hst
      exact .inr ⟨_, hd⟩
    · cases hst

/-- What the steps of the workers keep holds after every run of the whole. -/
theorem dispatch_run {P : DispatchState → Prop} (hinitial : P (DispatchState.initial clock))
    (hkeeps : ∀ d l d', P d → DispatchState.step settings d l = some d' → P d')
    (hrun : (initial clock).run settings ls = some s) : P s.dispatch := by
  have hstep : ∀ s l t, P s.dispatch → ErpSystem.step settings s l = some t → P t.dispatch := by
    intro s l t hs hst
    rcases step_dispatch hst with heq | ⟨l', hl'⟩
    · exact heq ▸ hs
    · exact hkeeps _ l' _ hs hl'
  exact Transition.run_invariant hstep hinitial hrun

theorem locksMatch_run (hrun : (initial clock).run settings ls = some s) :
    s.dispatch.board.LocksMatch := by
  refine dispatch_run (P := fun d => d.board.LocksMatch)
    ⟨Board.WellFormed.empty, fun m hm => by cases hm⟩ (fun d l d' hd hst => ?_) hrun
  rcases DispatchState.step_board hst with ⟨a, _, hact⟩ | ⟨_, heq⟩
  · exact hd.act hact
  · exact heq ▸ hd

theorem assigned_run (hrun : (initial clock).run settings ls = some s) : s.dispatch.Assigned :=
  dispatch_run (.initial clock) (fun _ _ _ hd hst => hd.step hst) hrun

/-- The text of a row does not change. -/
theorem payload_run (hs : (initial clock).run settings ls = some s) {ls' : List ErpLabel}
    (ht : s.run settings ls' = some t) {m m' : OutboxMessage} (hm : m ∈ s.dispatch.board.outbox)
    (hm' : m' ∈ t.dispatch.board.outbox) (hid : m'.outboxId = m.outboxId) :
    m'.payload = m.payload := by
  have hrun := Transition.run_append_eq_some.mpr ⟨s, hs, ht⟩
  have hold : m.letter ∈ t.dispatch.board.letters := by
    rw [letters_run hrun, List.flatMap_append, List.map_append, ← letters_run hs]
    exact List.mem_append_left _ (List.mem_map_of_mem hm)
  have hletter : m'.letter = m.letter :=
    Board.letter_unique (sound_run hrun).wellFormed (List.mem_map_of_mem hm') hold hid
  exact congrArg (fun x : Letter => x.2.2) hletter

/-- Whatever has happened, a worker that starts now and a service that works bring every row
to its end, and the ERP gets the order of every row that is not a dead letter already. -/
theorem outbox_drains (hbatch : 1 ≤ settings.dispatchBatchSize)
    (hrun : (initial clock).run settings ls = some s) :
    ∃ ls' t, Transition.Along (step settings) (Undisturbed settings) s ls' ∧
      s.run settings ls' = some t ∧
      (∀ m ∈ t.dispatch.board.outbox, m.status = .sent ∨ m.status = .dlq) ∧
      ∀ m ∈ s.dispatch.board.outbox, m.status ≠ .dlq →
        ∃ m' record, OutboxTable.get t.dispatch.board.outbox m.outboxId = some m' ∧
          m'.status = .sent ∧
          t.server.acknowledgedByKey (messageKey m.outboxId) = some record ∧
          RecordOf m.payload record := by
  have hlocks := locksMatch_run hrun
  let hopes := (s.dispatch.board.outbox.filter fun m => m.status != .dlq).map
    OutboxMessage.outboxId
  have hhopes : ∀ id ∈ hopes, ∃ m, OutboxTable.get s.dispatch.board.outbox id = some m ∧
      m.status ≠ .dlq := by
    intro id hid
    obtain ⟨m, hm, rfl⟩ := List.mem_map.mp hid
    obtain ⟨hm, hstatus⟩ := List.mem_filter.mp hm
    exact ⟨m, OutboxTable.get_of_mem hlocks.wellFormed.ids hm, by simpa using hstatus⟩
  obtain ⟨ls', t, halong, hrun', hzero⟩ := ((start_leads (sound_run hrun) hlocks
    (assigned_run hrun) hhopes).trans (remaining_leads hbatch _)) s rfl
  have hend : ∀ m ∈ t.dispatch.board.outbox, m.status = .sent ∨ m.status = .dlq := by
    intro m hm
    have hclosed := hzero.final m hm
    cases hstatus : m.status with
    | pending | inFlight => simp [OutboxMessage.isOpen, hstatus] at hclosed
    | sent => exact .inl rfl
    | dlq => exact .inr rfl
  refine ⟨ls', t, halong, hrun', hend, fun m hm hhope => ?_⟩
  have hid : m.outboxId ∈ hopes :=
    List.mem_map_of_mem (List.mem_filter.mpr ⟨hm, by simpa using hhope⟩)
  obtain ⟨k, left, _, hcycle⟩ := hzero
  obtain ⟨m', hm', hstatus⟩ := hcycle.working.hopes _ hid
  have hmem := OutboxTable.mem_of_get hm'
  have hsent := (hend m' hmem).resolve_right hstatus
  obtain ⟨record, hrecord, hof⟩ := hcycle.working.sound.record_of_sent hmem hsent
  rw [OutboxTable.id_of_get hm'] at hrecord
  rw [payload_run hrun hrun' hm hmem (OutboxTable.id_of_get hm')] at hof
  exact ⟨m', record, hm', hsent, hrecord, hof⟩

end Runs

namespace Sample

open DispatchState.Sample

/-- The service has the order, but the worker dies before it knows. -/
def abandoned : List ErpLabel :=
  workers [.enqueue message, .start "a", .poll 0, .claim 0 [1], .post 0] ++
    [.receive 0, .wake 0 (.works "ERP-1" 7)] ++ workers [.die 0, .lose 0]

def abandonedEnd : ErpSystem := (after abandoned).get (by decide +kernel)

end Sample

theorem outbox_drains_abandoned :
    (Sample.abandonedEnd.dispatch.board.outbox.map OutboxMessage.status) = [.inFlight] ∧
      ∃ ls' t, Transition.Along (step {}) (Undisturbed {}) Sample.abandonedEnd ls' ∧
        Sample.abandonedEnd.run {} ls' = some t ∧
        (∀ m ∈ t.dispatch.board.outbox, m.status = .sent ∨ m.status = .dlq) ∧
        ∀ m ∈ Sample.abandonedEnd.dispatch.board.outbox, m.status ≠ .dlq →
          ∃ m' record, OutboxTable.get t.dispatch.board.outbox m.outboxId = some m' ∧
            m'.status = .sent ∧
            t.server.acknowledgedByKey (messageKey m.outboxId) = some record ∧
            RecordOf m.payload record :=
  ⟨by decide +kernel, outbox_drains (by decide)
    (Sample.after_run (by decide +kernel : (Sample.after Sample.abandoned).isSome = true))⟩

end ErpSystem

end EcommerceIntegration
