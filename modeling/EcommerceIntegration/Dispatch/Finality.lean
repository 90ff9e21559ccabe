import EcommerceIntegration.Dispatch.Worker

/-!
# Final states of an outbox row

A mark goes by the primary key alone. A worker whose row was released while it waited for
the ERP still marks it, whatever another worker has made of it.
-/

namespace EcommerceIntegration

set_option autoImplicit false

def OutboxStatus.isFinal : OutboxStatus → Bool
  | sent | dlq => true
  | pending | inFlight => false

namespace Board

def statusOf (b : Board) (outboxId : Nat) : Option OutboxStatus :=
  (OutboxTable.get b.outbox outboxId).map OutboxMessage.status

theorem statusOf_eq_some {b : Board} {id : Nat} {status : OutboxStatus} :
    b.statusOf id = some status ↔
      ∃ m, OutboxTable.get b.outbox id = some m ∧ m.status = status :=
  Option.map_eq_some_iff

/-- Rows that are SENT or DLQ in `b` are so in `b'`. -/
def FinalKept (b b' : Board) : Prop :=
  ∀ id status, b.statusOf id = some status → status.isFinal = true → b'.statusOf id = some status

theorem FinalKept.refl (b : Board) : FinalKept b b := fun _ _ h _ => h

theorem FinalKept.trans {b b' b'' : Board} (h : FinalKept b b') (h' : FinalKept b' b'') :
    FinalKept b b'' :=
  fun id status hs hf => h' id status (h id status hs hf) hf

/-- The row of a mark is not final yet, or the mark writes the status that it has. -/
def MarksOpenRow (b : Board) : Action → Prop
  | .mark t _ _ =>
    match b.tasks t with
    | some ⟨_, item, .answered verdict⟩ =>
      ∀ m ∈ OutboxTable.get b.outbox item.outboxId,
        m.status.isFinal = true → m.status = verdict.status
    | _ => True
  | _ => True

instance (b : Board) (a : Action) : Decidable (MarksOpenRow b a) := by
  unfold MarksOpenRow
  cases a with
  | mark t now delay =>
    dsimp only
    split
    · infer_instance
    · infer_instance
  | enqueue | release | claim | post | answer | drop => exact .isTrue trivial

/-- No task is left for a row that is released. -/
def ReleasesDead (b : Board) : Action → Prop
  | .release now =>
    ∀ m ∈ b.outbox, OutboxReader.stale now m = true →
      ∀ t task, b.tasks t = some task → task.item.outboxId ≠ m.outboxId
  | _ => True

section Act
variable {b b' : Board} {a : Action}

/-- A release and a claim are about other rows. -/
theorem finalKept_act (hopen : MarksOpenRow b a) (h : b.act a = some b') : FinalKept b b' := by
  intro id status hs hf
  obtain ⟨m, hm, rfl⟩ := statusOf_eq_some.mp hs
  refine statusOf_eq_some.mpr ⟨_, get_act_of_some h hm, ?_⟩
  cases a with
  | release now =>
    have hnot : OutboxReader.stale now m = false := by
      cases hstatus : m.status <;> simp_all [OutboxReader.stale, OutboxStatus.isFinal]
    simp [rowAfter, hnot]
  | claim worker workerId now picked =>
    have hnot : OutboxReader.taken now picked m = false := by
      cases hstatus : m.status <;>
        simp_all [OutboxReader.taken, OutboxReader.claimable, OutboxStatus.isFinal]
    simp [rowAfter, hnot]
  | mark t now delay =>
    obtain ⟨worker, item, verdict, ht, rfl⟩ := act_mark h
    simp only [MarksOpenRow, ht] at hopen
    simp only [rowAfter, ht]
    split
    · rename_i hid
      have hsame : m.status = verdict.status :=
        hopen m (by rw [← hid, OutboxTable.id_of_get hm]; exact hm) hf
      rw [Verdict.row_status, hsame]
    · rfl
  | enqueue | post | answer | drop => rfl

/-- A mark on a final row that writes another status changes it. -/
theorem marksOpenRow_of_finalKept (h : b.act a = some b') (hkept : FinalKept b b') :
    MarksOpenRow b a := by
  cases a with
  | mark t now delay =>
    obtain ⟨worker, item, verdict, ht, _⟩ := act_mark h
    simp only [MarksOpenRow, ht]
    intro m hm hf
    obtain ⟨m', hm', hs⟩ := statusOf_eq_some.mp
      (hkept item.outboxId m.status (statusOf_eq_some.mpr ⟨m, hm, rfl⟩) hf)
    rw [get_act_of_some h hm] at hm'
    obtain rfl := Option.some.inj hm'
    simpa [rowAfter, ht, OutboxTable.id_of_get hm] using hs.symm
  | enqueue | release | claim | post | answer | drop => trivial

/-- Every task has its row for itself. -/
structure Held (b : Board) : Prop where
  wellFormed : b.WellFormed
  inFlight : ∀ t task, b.tasks t = some task → b.statusOf task.item.outboxId = some .inFlight
  once : ∀ t t' task task', b.tasks t = some task → b.tasks t' = some task' →
    task.item.outboxId = task'.item.outboxId → t = t'

theorem Held.empty : Held {} := by
  refine ⟨WellFormed.empty, fun t task ht => ?_, fun t t' task task' ht => ?_⟩ <;> cases ht

/-- The row that a claim takes has no task. -/
theorem Held.not_taken (hb : b.Held) {t : Nat} {task : Task} (ht : b.tasks t = some task)
    {now : Time} {picked : List Nat} {m : OutboxMessage}
    (hm : OutboxTable.get b.outbox m.outboxId = some m)
    (htaken : OutboxReader.taken now picked m = true) : task.item.outboxId ≠ m.outboxId := by
  intro hid
  obtain ⟨m', hm', hs⟩ := statusOf_eq_some.mp (hb.inFlight t task ht)
  rw [hid, hm] at hm'
  cases hm'
  simp [OutboxReader.taken, OutboxReader.claimable, hs] at htaken

theorem Held.once_act (hb : b.Held) (h : b.act a = some b') {t t' : Nat} {task task' : Task}
    (ht : b'.tasks t = some task) (ht' : b'.tasks t' = some task')
    (hid : task.item.outboxId = task'.item.outboxId) : t = t' := by
  rcases task_of_act h ht with ⟨old, hold, hitem, _⟩ | ⟨_, _, _, _, m, rfl, hle, hm, rfl⟩
  · rcases task_of_act h ht' with ⟨old', hold', hitem', _⟩ | ⟨_, _, _, _, m', rfl, hle', hm', rfl⟩
    · exact hb.once t t' old old' hold hold' (by rw [← hitem, ← hitem', hid])
    · obtain ⟨hget, htaken⟩ := get_of_taken hb.wellFormed hm'
      exact absurd (hitem ▸ hid) (hb.not_taken hold hget htaken)
  · rcases task_of_act h ht' with ⟨old', hold', hitem', _⟩ | ⟨_, _, _, _, m', heq, hle', hm', rfl⟩
    · obtain ⟨hget, htaken⟩ := get_of_taken hb.wellFormed hm
      exact absurd (hitem' ▸ hid.symm) (hb.not_taken hold' hget htaken)
    · cases heq
      have := taken_unique hb.wellFormed hm hm' hid
      omega

theorem Held.inFlight_act (hb : b.Held) (hdead : ReleasesDead b a) (h : b.act a = some b') {t : Nat}
    {task : Task} (ht : b'.tasks t = some task) :
    b'.statusOf task.item.outboxId = some .inFlight := by
  rcases task_of_act h ht with ⟨old, hold, hitem, _⟩ | ⟨_, _, now, picked, m, rfl, _, hm, rfl⟩
  · rw [hitem]
    obtain ⟨m, hm, hs⟩ := statusOf_eq_some.mp (hb.inFlight t old hold)
    refine statusOf_eq_some.mpr ⟨_, get_act_of_some h hm, ?_⟩
    have hid := OutboxTable.id_of_get hm
    cases a with
    | release now =>
      have hnot : OutboxReader.stale now m = false := by
        rw [Bool.eq_false_iff]
        intro hstale
        exact hdead m (OutboxTable.mem_of_get hm) hstale t old hold hid.symm
      simpa [rowAfter, hnot] using hs
    | claim worker workerId now picked =>
      have hnot : OutboxReader.taken now picked m = false := by
        simp [OutboxReader.taken, OutboxReader.claimable, hs]
      simpa [rowAfter, hnot] using hs
    | mark k now delay =>
      -- the task of the mark is gone, and the row is of no other
      obtain ⟨worker, item, verdict, hk, rfl⟩ := act_mark h
      have hne : ¬ m.outboxId = item.outboxId := by
        intro heq
        have hsame := hb.once t k old _ hold hk (hid.symm.trans heq)
        subst hsame
        simp [setTask] at ht
      simpa [rowAfter, hk, hne] using hs
    | enqueue | post | answer | drop => exact hs
  · obtain ⟨hget, htaken⟩ := get_of_taken hb.wellFormed hm
    refine statusOf_eq_some.mpr ⟨_, get_act_of_some h hget, ?_⟩
    simp [rowAfter, htaken, OutboxReader.claimRow]

theorem Held.act (hb : b.Held) (hdead : ReleasesDead b a) (h : b.act a = some b') : b'.Held where
  wellFormed := hb.wellFormed.act h
  inFlight _ _ ht := hb.inFlight_act hdead h ht
  once _ _ _ _ ht ht' hid := hb.once_act h ht ht' hid

theorem Held.marksOpenRow (hb : b.Held) (a : Action) : MarksOpenRow b a := by
  cases a with
  | mark t now delay =>
    simp only [MarksOpenRow]
    split
    · rename_i worker item verdict ht
      intro m hm hf
      obtain ⟨m', hm', hs⟩ := statusOf_eq_some.mp (hb.inFlight t _ ht)
      rw [Option.mem_def.mp hm] at hm'
      cases hm'
      simp [hs, OutboxStatus.isFinal] at hf
    · trivial
  | enqueue | release | claim | post | answer | drop => trivial

end Act

end Board

namespace DispatchState

variable {settings : Settings} {clock : Time} {ls : List DispatchLabel} {s : DispatchState}

/-- Along the whole run, from each of its states to each later one. -/
def FinalStays (settings : Settings) (clock : Time) (ls : List DispatchLabel) : Prop :=
  ∀ ks ms s t, ks ++ ms <+: ls → (initial clock).run settings ks = some s →
    s.run settings ms = some t → Board.FinalKept s.board t.board

theorem finalStays_iff (hrun : (initial clock).run settings ls = some s) :
    FinalStays settings clock ls ↔
      Transition.Along (step settings) (OnAction settings Board.MarksOpenRow)
        (initial clock) ls := by
  constructor
  · intro hstays
    rw [Transition.along_iff]
    rintro ks l ms t rfl hks a ha
    obtain ⟨t₁, ht₁, hrest⟩ := Transition.run_append_eq_some.mp hrun
    obtain rfl := Option.some.inj (hks.symm.trans ht₁)
    obtain ⟨t', hst, _⟩ := Transition.run_cons_eq_some.mp hrest
    have hkept := hstays ks [l] t t' ⟨ms, by simp⟩ hks (Transition.run_cons_eq_some.mpr ⟨t', hst, rfl⟩)
    rcases step_board hst with ⟨a', ha', hact⟩ | ⟨hnone, _⟩
    · obtain rfl := Option.some.inj (ha.symm.trans ha')
      exact Board.marksOpenRow_of_finalKept hact hkept
    · rw [Option.mem_def, hnone] at ha
      cases ha
  · rintro halong ks ms s₁ s₂ ⟨later, rfl⟩ hks hms
    rw [List.append_assoc] at halong
    have hseg := (Transition.along_append ((Transition.along_append halong).2 s₁ hks)).1
    exact board_relates Board.FinalKept.refl Board.FinalKept.trans
      (fun _ _ _ hopen hact => Board.finalKept_act hopen hact) hseg hms

/-- Where only rows without a task are released, every mark finds its row IN_FLIGHT. -/
theorem marksOpenRow_of_releasesDead
    (hdead : Transition.Along (step settings) (OnAction settings Board.ReleasesDead)
      (initial clock) ls) :
    Transition.Along (step settings) (OnAction settings Board.MarksOpenRow) (initial clock) ls := by
  rw [Transition.along_iff]
  rintro ks l ms t rfl hks a _
  exact (board_invariant (fun _ _ _ (hb : Board.Held _) hq hact => hb.act hq hact)
    Board.Held.empty
    (Transition.along_append hdead).1 hks).marksOpenRow a

/-- Final rows stay final exactly in the runs in which no mark finds its row SENT or DLQ
with another status than its own; so they do where no row is taken from a task. -/
theorem finalStatus_iff (hrun : (initial clock).run settings ls = some s) :
    (FinalStays settings clock ls ↔
      Transition.Along (step settings) (OnAction settings Board.MarksOpenRow)
        (initial clock) ls) ∧
    (Transition.Along (step settings) (OnAction settings Board.ReleasesDead) (initial clock) ls →
      Transition.Along (step settings) (OnAction settings Board.MarksOpenRow)
        (initial clock) ls) :=
  ⟨finalStays_iff hrun, marksOpenRow_of_releasesDead⟩

/-! ## A worker that is overtaken -/

namespace Sample

def address : AddressSection :=
  ⟨"END-1", 1, ⟨"Rua A", "10", none, "Centro", "Recife", "PE", "50000000"⟩⟩

def payload : OrderPayload where
  order := ⟨"PED-1", .approved, "BRL", 210000, 100, some 200⟩
  customer := ⟨"CLI-1", "Ana", "12345678901", "ana@loja.com"⟩
  shippingAddress := address
  billingAddress := address
  items := [⟨"SKU-1", "Livro", 2, 105000, 210000⟩]
  payment := some ⟨"psp", "tx-1", .creditCard, .approved, 210000, some 200⟩

def message : OutboxMessage :=
  ⟨1, "order", "PED-1", "order.approved", payload, .pending, 0, 0, none, none, none, none⟩

def accepted : HttpResult := .response 201 "" (.ok ⟨"ERP-1", false⟩)

/-- `n` cycles of the worker in which nothing is claimed. -/
def idle (w n : Nat) : List DispatchLabel :=
  (List.replicate n [.poll w, .claim w []]).flatten

/-- The first worker has posted; the second takes the row from it and sends it too. -/
def overtaken : List DispatchLabel :=
  [.enqueue message, .start "a", .poll 0, .claim 0 [1], .post 0, .tick 121000000, .start "b"] ++
    idle 1 59 ++
    [.poll 1, .release 1, .claim 1 [1], .post 1, .reply 1 accepted, .mark 1 121000000 0]

/-- Now the request of the first one times out. -/
def late : List DispatchLabel := [.reply 0 (.timeout ""), .mark 0 121000000 0]

/-- The first one is told that the order is there already. -/
def agreeing : List DispatchLabel := [.reply 0 accepted, .mark 0 121000000 0]

def after (settings : Settings) (ls : List DispatchLabel) : Option DispatchState :=
  (initial 0).run settings ls

theorem after_run {settings : Settings} {ls : List DispatchLabel}
    (h : (after settings ls).isSome = true) :
    (initial 0).run settings ls = some ((after settings ls).get h) :=
  (Option.some_get h).symm

end Sample

/-- The row that was taken from a worker is SENT, and this worker marks it SENT again. -/
theorem finalStatus_agreeing : FinalStays {} 0 (Sample.overtaken ++ Sample.agreeing) :=
  (finalStatus_iff (Sample.after_run (by decide +kernel))).1.mpr (by decide +kernel)

theorem finalStatus_overtaken :
    ¬ ∀ settings clock ls s, (initial clock).run settings ls = some s →
      FinalStays settings clock ls := by
  intro hall
  have hrun := Sample.after_run
    (by decide +kernel : (Sample.after {} Sample.overtaken).isSome = true)
  have hrun' := Sample.after_run
    (by decide +kernel : (Sample.after {} (Sample.overtaken ++ Sample.late)).isSome = true)
  obtain ⟨s, hs, hlate⟩ := Transition.run_append_eq_some.mp hrun'
  obtain rfl := Option.some.inj (hrun.symm.trans hs)
  have hkept := hall {} 0 _ _ hrun' Sample.overtaken Sample.late _ _ (List.prefix_refl _) hrun hlate
  have hsent := hkept 1 .sent (by decide +kernel) rfl
  revert hsent
  decide +kernel

end DispatchState

end EcommerceIntegration
