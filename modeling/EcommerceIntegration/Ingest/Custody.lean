import EcommerceIntegration.Ingest.Worker
import EcommerceIntegration.Library.Attempts

/-!
# What the workers hold

A worker holds copies of messages that the group has handed out. The call of `process`
that it is in is an attempt at the event of the message, and no other worker is in it.
-/

namespace EcommerceIntegration

set_option autoImplicit false

open Transaction ConsumerGroup IngestWorker RedisStreamConsumer

namespace IngestPhase

def batch : IngestPhase → IngestBatch
  | .polling | .gone => ⟨[], [], []⟩
  | .reclaiming messages | .claiming messages _ => ⟨messages, [], []⟩
  | .handling batch | .processing _ _ batch | .burying _ batch => batch

/-- The attempt that the worker is in and its message. -/
def current : IngestPhase → Option (Nat × IngestMessage)
  | .processing n message _ => some (n, message)
  | _ => none

/-- The message whose copy is in the dead-letter stream and that is to be acknowledged. -/
def buried : IngestPhase → Option IngestMessage
  | .burying message _ => some message
  | _ => none

/-- The messages that are on their way through `_handle`, after their calls of `process`. -/
def leaving (p : IngestPhase) : List IngestMessage :=
  p.batch.deadLetters.map Prod.fst ++ p.buried.toList

/-- The copies that the worker has of messages. -/
def held (p : IngestPhase) : List IngestMessage :=
  p.batch.todo ++ (p.current.toList.map Prod.snd ++ p.leaving)

section Phases
variable (n : Nat) (messages : List IngestMessage) (counts : List (Nat × Nat)) (m : IngestMessage)
  (b : IngestBatch)

@[simp] theorem batch_polling : batch .polling = ⟨[], [], []⟩ := rfl

@[simp] theorem batch_reclaiming : batch (.reclaiming messages) = ⟨messages, [], []⟩ := rfl

@[simp] theorem batch_claiming : batch (.claiming messages counts) = ⟨messages, [], []⟩ := rfl

@[simp] theorem batch_handling : batch (.handling b) = b := rfl

@[simp] theorem batch_processing : batch (.processing n m b) = b := rfl

@[simp] theorem batch_burying : batch (.burying m b) = b := rfl

@[simp] theorem batch_gone : batch .gone = ⟨[], [], []⟩ := rfl

@[simp] theorem current_polling : current .polling = none := rfl

@[simp] theorem current_reclaiming : current (.reclaiming messages) = none := rfl

@[simp] theorem current_claiming : current (.claiming messages counts) = none := rfl

@[simp] theorem current_handling : current (.handling b) = none := rfl

@[simp] theorem current_processing : current (.processing n m b) = some (n, m) := rfl

@[simp] theorem current_burying : current (.burying m b) = none := rfl

@[simp] theorem current_gone : current .gone = none := rfl

@[simp] theorem buried_polling : buried .polling = none := rfl

@[simp] theorem buried_reclaiming : buried (.reclaiming messages) = none := rfl

@[simp] theorem buried_claiming : buried (.claiming messages counts) = none := rfl

@[simp] theorem buried_handling : buried (.handling b) = none := rfl

@[simp] theorem buried_processing : buried (.processing n m b) = none := rfl

@[simp] theorem buried_burying : buried (.burying m b) = some m := rfl

@[simp] theorem buried_gone : buried .gone = none := rfl

end Phases

@[simp] theorem handle_batch (messages : List IngestMessage) :
    (handle messages).batch = ⟨messages, [], []⟩ := by
  unfold handle
  split
  · rename_i hnil
    rw [hnil]
    rfl
  · rfl

@[simp] theorem handle_current (messages : List IngestMessage) :
    (handle messages).current = none := by
  unfold handle
  split <;> rfl

@[simp] theorem handle_buried (messages : List IngestMessage) :
    (handle messages).buried = none := by
  unfold handle
  split <;> rfl

end IngestPhase

theorem settle_todo (settings : Settings) (m : IngestMessage) (result : Result) (b : IngestBatch) :
    (settle settings m result b).todo = b.todo := by
  unfold settle
  split
  · rfl
  · split <;> rfl

theorem settle_acknowledgeable (settings : Settings) (m : IngestMessage) (result : Result)
    (b : IngestBatch) : (settle settings m result b).acknowledgeable =
      b.acknowledgeable ++ if result.shouldAck then [m.messageId] else [] := by
  unfold settle
  split
  · rfl
  · split <;> simp

theorem settle_deadLetters (settings : Settings) (m : IngestMessage) (result : Result)
    (b : IngestBatch) : (settle settings m result b).deadLetters.map Prod.fst =
      b.deadLetters.map Prod.fst ++
        if result.shouldAck = false ∧ deliveriesExhausted settings m = true then [m] else [] := by
  unfold settle
  split
  · rename_i hack
    simp [hack]
  · rename_i hack
    split
    · rename_i hexhausted
      simp [hack, hexhausted]
    · rename_i hexhausted
      simp [hexhausted]

namespace IngestSystem

variable {settings : Settings} {s t : IngestSystem} {l : SystemLabel}

/-- The messages that the group hands out in the step. -/
def received (settings : Settings) (s : IngestSystem) : SystemLabel → List IngestMessage
  | .act w act =>
    match act, s.workers[w]?.map IngestWorker.phase with
    | .read, some .polling =>
      if settings.consumerBatchSize = 0 then [] else (RedisStreamConsumer.read settings w s.streams).1
    | .reclaim, some (.claiming _ counts) => (reclaimAbandoned settings w counts s.streams).1
    | _, _ => []
  | _ => []

/-! ## What a step does to the stores -/

theorem Acted.later {w cycle : Nat} {act : WorkerAct} {phase phase' : IngestPhase}
    {s' : IngestSystem} (h : Acted settings s w cycle act phase s' phase') :
    s.streams.Later s'.streams := by
  cases h with
  | read => exact read_later settings w s.streams
  | reclaim => exact reclaimAbandoned_later _ _ _ _
  | copy => exact copyToDeadLetter_later _ _ _
  | bury => exact ack_later [_] s.streams
  | ack => exact ack_later _ s.streams
  | stop | pendingCounts | invalid | hand | exec | finish | raised | crash | die =>
    exact Streams.Later.refl _

theorem step_later (hst : step settings s l = some t) : s.streams.Later t.streams := by
  cases l with
  | publish payload =>
    cases hst
    exact publishMany_later [payload] s.streams
  | act w act =>
    obtain ⟨worker, s', phase, _, hacted, rfl⟩ := step_act hst
    exact hacted.later
  | wait ms =>
    cases hst
    exact ⟨List.prefix_refl _, Nat.le_refl _, List.prefix_refl _⟩
  | start =>
    cases hst
    exact Streams.Later.refl _
  | expire key | tick d =>
    obtain ⟨_, _, rfl⟩ := database_eq_some hst
    exact Streams.Later.refl _

/-- The database and the reservations take a step of their own or none. If it is one of an
attempt, it is the worker's. -/
theorem Acted.attempts {w cycle : Nat} {act : WorkerAct} {phase phase' : IngestPhase}
    {s' : IngestSystem} (h : Acted settings s w cycle act phase s' phase') :
    s'.attempts = s.attempts ∨
      ∃ l, Transaction.step engine ingest s.attempts l = some s'.attempts ∧
        ∀ n, l.attempt = some n → ∃ m, phase.current = some (n, m) := by
  cases h with
  | hand _ hst =>
    refine .inr ⟨_, hst, fun n hn => ?_⟩
    cases hn
  | exec hst | finish _ hst | raised _ hst | crash hst =>
    refine .inr ⟨_, hst, fun n hn => ?_⟩
    cases hn
    exact ⟨_, rfl⟩
  | stop | read | pendingCounts | reclaim | invalid | copy | bury | ack | die => exact .inl rfl

theorem step_attempts (hst : step settings s l = some t) :
    t.attempts = s.attempts ∨
      ∃ l, Transaction.step engine ingest s.attempts l = some t.attempts := by
  cases l with
  | act w act =>
    obtain ⟨worker, s', phase, _, hacted, rfl⟩ := step_act hst
    rcases hacted.attempts with heq | ⟨l, hl, _⟩
    · exact .inl heq
    · exact .inr ⟨l, hl⟩
  | publish | start | wait =>
    cases hst
    exact .inl rfl
  | expire key | tick d =>
    obtain ⟨_, hstep, rfl⟩ := database_eq_some hst
    exact .inr ⟨_, hstep⟩

/-! ## The invariant -/

structure Custody (s : IngestSystem) : Prop where
  reachable : IngestReachable s.attempts
  held : ∀ x ∈ s.workers, ∀ m ∈ x.phase.held, m.Delivered s.streams
  acks : ∀ x ∈ s.workers, ∀ id ∈ x.phase.batch.acknowledgeable, id < s.streams.stream.delivered
  attempt : ∀ x ∈ s.workers, ∀ n m, x.phase.current = some (n, m) →
    ∃ a, s.attempts.active n = some a ∧ m.payload = some a.input
  distinct : ∀ (w w' : Nat) (x x' : IngestWorker) (n : Nat) (m m' : IngestMessage),
    s.workers[w]? = some x → s.workers[w']? = some x' →
    x.phase.current = some (n, m) → x'.phase.current = some (n, m') → w = w'

theorem Custody.initial (clock : Time) : Custody (initial clock) where
  reachable := ⟨clock, [], Transition.Reachable.refl _⟩
  held := by
    intro x hx
    cases hx
  acks := by
    intro x hx
    cases hx
  attempt := by
    intro x hx
    cases hx
  distinct := by
    intro w w' x x' n m m' hx
    simp [IngestSystem.initial] at hx

/-- A copy that the worker holds after the act is one that it held or has just received. -/
theorem Acted.held {w : Nat} {act : WorkerAct} {worker : IngestWorker} {phase : IngestPhase}
    {s' : IngestSystem} (hw : s.workers[w]? = some worker)
    (h : Acted settings s w worker.cycle act worker.phase s' phase) {m : IngestMessage}
    (hm : m ∈ phase.held) : m ∈ worker.phase.held ∨ m ∈ received settings s (.act w act) := by
  obtain ⟨cycle, old⟩ := worker
  unfold IngestPhase.held IngestPhase.leaving at hm ⊢
  cases h with
  | stop | crash | die | raised | ack => simp at hm
  | read hpos hnext =>
    have hne : settings.consumerBatchSize ≠ 0 := Nat.pos_iff_ne_zero.mp hpos
    right
    rcases hnext with rfl | rfl
    · simpa [received, hw, hne] using hm
    · simpa [received, hw, hne] using hm
  | reclaim =>
    have hm := List.mem_append.mp (by simpa using hm)
    rcases hm with hold | hnew
    · exact .inl (by simpa using hold)
    · exact .inr (by simpa [received, hw] using hnew)
  | pendingCounts | copy | bury | exec | hand | invalid =>
    left
    simp at hm ⊢
    grind
  | finish =>
    left
    simp [settle_todo, settle_deadLetters, -List.mem_map] at hm ⊢
    grind

theorem received_delivered (hst : step settings s l = some t) {m : IngestMessage}
    (hm : m ∈ received settings s l) : m.Delivered t.streams := by
  cases l with
  | publish | start | wait | expire | tick => cases hm
  | act w act =>
    obtain ⟨worker, s', phase, hw, hacted, rfl⟩ := step_act hst
    obtain ⟨cycle, old⟩ := worker
    cases hacted with
    | read hpos _ =>
      have hne : settings.consumerBatchSize ≠ 0 := Nat.pos_iff_ne_zero.mp hpos
      simp only [received, hw, Option.map_some, if_neg hne] at hm
      exact (mem_read hm).1
    | reclaim =>
      simp only [received, hw, Option.map_some] at hm
      exact (mem_reclaimAbandoned hm).1.later (reclaimAbandoned_later _ _ _ _)
    | stop | pendingCounts | invalid | hand | exec | finish | raised | copy | bury | ack | crash
    | die => simp [received] at hm

/-- An id goes into the list of the acknowledgeable with the result of its message. -/
theorem Acted.acknowledgeable {w cycle : Nat} {act : WorkerAct} {phase phase' : IngestPhase}
    {s' : IngestSystem} (h : Acted settings s w cycle act phase s' phase') {id : Nat}
    (hid : id ∈ phase'.batch.acknowledgeable) :
    id ∈ phase.batch.acknowledgeable ∨ ∃ n m result, act = .finish ∧
      phase.current = some (n, m) ∧ m.messageId = id ∧ s.outcome n = some (.ok result) ∧
      result.shouldAck = true ∧
      Transaction.step engine ingest s.attempts (.finish n) = some s'.attempts := by
  cases h with
  | stop | raised | crash | die | ack => simp at hid
  | read _ hnext =>
    rcases hnext with rfl | rfl
    · simp at hid
    · simp at hid
  | reclaim => simp at hid
  | pendingCounts | invalid | hand | exec | copy | bury => exact .inl hid
  | finish hout hst =>
    simp only [IngestPhase.batch_handling, settle_acknowledgeable] at hid
    rcases List.mem_append.mp hid with hold | hnew
    · exact .inl hold
    · split at hnew
      · rename_i hack
        obtain rfl := List.mem_singleton.mp hnew
        exact .inr ⟨_, _, _, rfl, rfl, rfl, hout, hack, hst⟩
      · cases hnew

/-- A message that is to be acknowledged was so in some worker's list, or in its
`send_to_dead_letter`. -/
theorem Acted.acknowledged {w cycle : Nat} {act : WorkerAct} {phase phase' : IngestPhase}
    {s' : IngestSystem} (h : Acted settings s w cycle act phase s' phase') {id : Nat}
    (hid : s'.streams.stream.Acknowledged id) :
    s.streams.stream.Acknowledged id ∨ (act = .ack ∧ id ∈ phase.batch.acknowledgeable) ∨
      ∃ m, act = .bury ∧ phase.buried = some m ∧ m.messageId = id := by
  cases h with
  | bury =>
    rcases ack_acknowledged.mp hid with hold | ⟨_, hnew⟩
    · exact .inl hold
    · exact .inr (.inr ⟨_, rfl, rfl, (List.mem_singleton.mp hnew).symm⟩)
  | ack =>
    rcases ack_acknowledged.mp hid with hold | ⟨_, hnew⟩
    · exact .inl hold
    · exact .inr (.inl ⟨rfl, hnew⟩)
  | read => exact .inl (Stream.acknowledged_xreadgroup.mp hid)
  | reclaim => exact .inl (reclaimAbandoned_acknowledged.mp hid)
  | stop | pendingCounts | invalid | hand | exec | finish | raised | copy | crash | die =>
    exact .inl hid

/-- A message goes on to the dead-letter stream because its payload is not an envelope or
because its deliveries are exhausted. -/
theorem Acted.leaving {w cycle : Nat} {act : WorkerAct} {phase phase' : IngestPhase}
    {s' : IngestSystem} (h : Acted settings s w cycle act phase s' phase') {m : IngestMessage}
    (hm : m ∈ phase'.leaving) : m ∈ phase.leaving ∨
      (m ∈ phase.held ∧ (m.payload = none ∨ deliveriesExhausted settings m = true)) := by
  unfold IngestPhase.leaving at hm ⊢
  cases h with
  | stop | pendingCounts | raised | crash | die | ack => simp at hm
  | read _ hnext =>
    rcases hnext with rfl | rfl
    · simp at hm
    · simp at hm
  | reclaim => simp at hm
  | hand | exec | copy | bury =>
    left
    simp at hm ⊢
    grind
  | invalid hpayload =>
    simp [IngestPhase.held, IngestPhase.leaving] at hm ⊢
    grind
  | finish =>
    simp [settle_deadLetters, IngestPhase.held, IngestPhase.leaving, -List.mem_map] at hm ⊢
    grind

theorem Acted.deadLetters {w cycle : Nat} {act : WorkerAct} {phase phase' : IngestPhase}
    {s' : IngestSystem} (h : Acted settings s w cycle act phase s' phase')
    {d : DeadLetter Payload} (hd : d ∈ s'.streams.deadLetters) :
    d ∈ s.streams.deadLetters ∨ (d.1 ∈ phase.leaving ∧ phase'.buried = some d.1) := by
  cases h with
  | copy =>
    rcases List.mem_append.mp hd with hold | hnew
    · exact .inl hold
    · obtain rfl := List.mem_singleton.mp hnew
      exact .inr ⟨by simp [IngestPhase.leaving], rfl⟩
  | bury =>
    unfold RedisStreamConsumer.ack at hd
    split at hd <;> exact .inl hd
  | ack =>
    unfold RedisStreamConsumer.ack at hd
    split at hd <;> exact .inl hd
  | reclaim =>
    unfold reclaimAbandoned at hd
    split at hd <;> exact .inl hd
  | stop | read | pendingCounts | invalid | hand | exec | finish | raised | crash | die =>
    exact .inl hd

/-- The worker acknowledges what it has just copied. -/
theorem Acted.buried {w cycle : Nat} {act : WorkerAct} {phase phase' : IngestPhase}
    {s' : IngestSystem} (h : Acted settings s w cycle act phase s' phase') {m : IngestMessage}
    (hm : phase'.buried = some m) : ∃ d ∈ s'.streams.deadLetters, d.1 = m := by
  cases h with
  | copy =>
    cases hm
    exact ⟨_, List.mem_append_right _ (List.mem_singleton.mpr rfl), rfl⟩
  | read _ hnext =>
    rcases hnext with rfl | rfl
    · simp at hm
    · cases hm
  | reclaim => simp at hm
  | stop | pendingCounts | invalid | hand | exec | finish | raised | bury | ack | crash | die =>
    cases hm

/-- What is pending after the act was pending before, with as many deliveries more as the
worker has got copies, or is a first delivery. -/
theorem Acted.pending {w : Nat} {act : WorkerAct} {worker : IngestWorker} {phase : IngestPhase}
    {s' : IngestSystem} (hw : s.workers[w]? = some worker)
    (h : Acted settings s w worker.cycle act worker.phase s' phase) {p : Pending}
    (hp : p ∈ s'.streams.stream.pending) :
    (∃ q ∈ s.streams.stream.pending, q.id = p.id ∧
        p.deliveries = q.deliveries + (ids (received settings s (.act w act))).count p.id) ∨
      (s.streams.stream.delivered ≤ p.id ∧ p.deliveries = 1 ∧
        (ids (received settings s (.act w act))).count p.id = 1) := by
  obtain ⟨cycle, old⟩ := worker
  have hack : ∀ acks, p ∈ (RedisStreamConsumer.ack acks s.streams).stream.pending →
      p ∈ s.streams.stream.pending := by
    intro acks hp
    unfold RedisStreamConsumer.ack at hp
    split at hp
    · exact hp
    · exact List.mem_of_mem_filter hp
  cases h with
  | read hpos _ =>
    have hne : settings.consumerBatchSize ≠ 0 := Nat.pos_iff_ne_zero.mp hpos
    simp only [received, hw, Option.map_some, if_neg hne, ids_read]
    rcases Stream.pending_xreadgroup hp with ⟨hold, hcount⟩ | hnew
    · exact .inl ⟨p, hold, rfl, by rw [hcount, Nat.add_zero]⟩
    · exact .inr hnew
  | reclaim =>
    simp only [received, hw, Option.map_some]
    exact .inl (pending_reclaimAbandoned hp)
  | bury => exact .inl ⟨p, hack _ hp, rfl, by simp [received]⟩
  | ack => exact .inl ⟨p, hack _ hp, rfl, by simp [received]⟩
  | stop | pendingCounts | invalid | hand | exec | finish | raised | copy | crash | die =>
    exact .inl ⟨p, hp, rfl, by simp [received]⟩

/-- The attempt that the worker is in after the act is the one it was in, or a new one at
the event of its message. -/
theorem Acted.current {w cycle : Nat} {act : WorkerAct} {phase phase' : IngestPhase}
    {s' : IngestSystem} (h : Acted settings s w cycle act phase s' phase') {n : Nat}
    {m : IngestMessage} (hn : phase'.current = some (n, m)) :
    (phase.current = some (n, m) ∧ ∃ choice, act = .exec choice ∧
        Transaction.step engine ingest s.attempts (.exec n choice) = some s'.attempts) ∨
      (n = s.attempts.started ∧ ∃ envelope, m.payload = some envelope ∧
        Transaction.step engine ingest s.attempts (.start envelope) = some s'.attempts) := by
  cases h with
  | stop | raised | crash | die | ack | pendingCounts | invalid | copy | bury | finish => cases hn
  | read _ hnext =>
    rcases hnext with rfl | rfl
    · simp at hn
    · cases hn
  | reclaim => simp at hn
  | hand hpayload hst =>
    cases hn
    exact .inr ⟨rfl, _, hpayload, hst⟩
  | exec hst =>
    cases hn
    exact .inl ⟨rfl, _, rfl, hst⟩

/-- The attempts of the other workers are where they were. -/
theorem Custody.active (hs : Custody s) (hst : step settings s l = some t) {n : Nat}
    {a : Attempt store EventEnvelope Result} (ha : s.attempts.active n = some a)
    (hother : ∀ w act x, l = .act w act → s.workers[w]? = some x →
      ∀ m, x.phase.current ≠ some (n, m)) : t.attempts.active n = some a := by
  have hlt := hs.reachable.sound.wellFormed.active_lt n a ha
  cases l with
  | act w act =>
    obtain ⟨worker, s', phase, hw, hacted, rfl⟩ := step_act hst
    rcases hacted.attempts with heq | ⟨l, hl, hown⟩
    · exact heq ▸ ha
    · refine (step_active_of_ne hl (fun hn => ?_) hlt).trans ha
      obtain ⟨m, hm⟩ := hown n hn
      exact hother w act worker rfl hw m hm
  | publish | start | wait =>
    cases hst
    exact ha
  | expire key | tick d =>
    obtain ⟨_, hstep, rfl⟩ := database_eq_some hst
    exact (step_active_of_ne hstep (by simp [Label.attempt]) hlt).trans ha

/-- What a worker after the step was before it. -/
theorem worker_cases (hst : step settings s l = some t) {w : Nat} {x : IngestWorker}
    (hx : t.workers[w]? = some x) :
    (s.workers[w]? = some x ∧ ∀ act, l ≠ .act w act) ∨ (l = .start ∧ x = {}) ∨
      ∃ act worker s', l = .act w act ∧ s.workers[w]? = some worker ∧
        Acted settings s w worker.cycle act worker.phase s' x.phase ∧
        s'.attempts = t.attempts ∧ s'.streams = t.streams := by
  cases l with
  | act v act =>
    obtain ⟨worker, s', phase, hw, hacted, rfl⟩ := step_act hst
    rw [List.getElem?_set] at hx
    split at hx
    · rename_i hvw
      subst hvw
      split at hx
      · cases hx
        exact .inr (.inr ⟨act, worker, s', rfl, hw, hacted, rfl, rfl⟩)
      · cases hx
    · rename_i hne
      refine .inl ⟨hx, fun act' heq => hne ?_⟩
      cases heq
      rfl
  | start =>
    cases hst
    simp only [List.getElem?_append] at hx
    split at hx
    · exact .inl ⟨hx, fun act heq => by cases heq⟩
    · rw [List.getElem?_singleton] at hx
      split at hx
      · cases hx
        exact .inr (.inl ⟨rfl, rfl⟩)
      · cases hx
  | publish | wait =>
    cases hst
    exact .inl ⟨hx, fun act heq => by cases heq⟩
  | expire key | tick d =>
    obtain ⟨_, _, rfl⟩ := database_eq_some hst
    exact .inl ⟨hx, fun act heq => by cases heq⟩

/-- The other workers are where they were. -/
theorem step_others (hst : step settings s l = some t) {w : Nat} {x : IngestWorker}
    (hw : s.workers[w]? = some x) (hother : ∀ act, l ≠ .act w act) : t.workers[w]? = some x := by
  cases l with
  | act v act =>
    obtain ⟨worker, s', phase, _, _, rfl⟩ := step_act hst
    have hne : v ≠ w := by
      rintro rfl
      exact hother act rfl
    exact (List.getElem?_set_ne hne).trans hw
  | start =>
    cases hst
    obtain ⟨hlt, _⟩ := List.getElem?_eq_some_iff.mp hw
    exact (List.getElem?_append_left hlt).trans hw
  | publish | wait =>
    cases hst
    exact hw
  | expire key | tick d =>
    obtain ⟨_, _, rfl⟩ := database_eq_some hst
    exact hw

theorem getElem?_set_act {w : Nat} {worker x : IngestWorker} (hw : s.workers[w]? = some worker) :
    (s.workers.set w x)[w]? = some x := by
  obtain ⟨hlt, _⟩ := List.getElem?_eq_some_iff.mp hw
  rw [List.getElem?_set_self hlt]

/-! ## What a step does to the stream -/

theorem step_acknowledged {id : Nat} (hst : step settings s l = some t)
    (hid : t.streams.stream.Acknowledged id) :
    s.streams.stream.Acknowledged id ∨ ∃ w x, s.workers[w]? = some x ∧
      ((l = .act w .ack ∧ id ∈ x.phase.batch.acknowledgeable) ∨
        ∃ m, l = .act w .bury ∧ x.phase.buried = some m ∧ m.messageId = id) := by
  cases l with
  | act w act =>
    obtain ⟨worker, s', phase, hw, hacted, rfl⟩ := step_act hst
    rcases hacted.acknowledged hid with hold | ⟨rfl, hack⟩ | ⟨m, rfl, hburied, hm⟩
    · exact .inl hold
    · exact .inr ⟨w, worker, hw, .inl ⟨rfl, hack⟩⟩
    · exact .inr ⟨w, worker, hw, .inr ⟨m, rfl, hburied, hm⟩⟩
  | publish | start | wait =>
    cases hst
    exact .inl hid
  | expire key | tick d =>
    obtain ⟨_, _, rfl⟩ := database_eq_some hst
    exact .inl hid

/-- A new dead letter is a message that its worker is about to acknowledge. -/
theorem step_deadLetters {d : DeadLetter Payload} (hst : step settings s l = some t)
    (hd : d ∈ t.streams.deadLetters) :
    d ∈ s.streams.deadLetters ∨ ∃ x ∈ s.workers, ∃ y ∈ t.workers,
      d.1 ∈ x.phase.leaving ∧ y.phase.buried = some d.1 := by
  cases l with
  | act w act =>
    obtain ⟨worker, s', phase, hw, hacted, rfl⟩ := step_act hst
    rcases hacted.deadLetters hd with hold | ⟨hleaving, hburied⟩
    · exact .inl hold
    · exact .inr ⟨worker, List.mem_of_getElem? hw, _,
        List.mem_of_getElem? (getElem?_set_act hw), hleaving, hburied⟩
  | publish | start | wait =>
    cases hst
    exact .inl hd
  | expire key | tick d =>
    obtain ⟨_, _, rfl⟩ := database_eq_some hst
    exact .inl hd

theorem step_pending {p : Pending} (hst : step settings s l = some t)
    (hp : p ∈ t.streams.stream.pending) :
    (∃ q ∈ s.streams.stream.pending, q.id = p.id ∧
        p.deliveries = q.deliveries + (ids (received settings s l)).count p.id) ∨
      (s.streams.stream.delivered ≤ p.id ∧ p.deliveries = 1 ∧
        (ids (received settings s l)).count p.id = 1) := by
  cases l with
  | act w act =>
    obtain ⟨worker, s', phase, hw, hacted, rfl⟩ := step_act hst
    exact hacted.pending hw hp
  | publish | start | wait =>
    cases hst
    exact .inl ⟨p, hp, rfl, rfl⟩
  | expire key | tick d =>
    obtain ⟨_, _, rfl⟩ := database_eq_some hst
    exact .inl ⟨p, hp, rfl, rfl⟩

/-! ## The invariant of every run -/

theorem Custody.step (hs : Custody s) (hst : step settings s l = some t) : Custody t := by
  have hlater := step_later hst
  refine ⟨?_, ?_, ?_, ?_, ?_⟩
  · obtain ⟨clock, reserved, hreach⟩ := hs.reachable
    rcases step_attempts hst with heq | ⟨l, hl⟩
    · exact heq ▸ ⟨clock, reserved, hreach⟩
    · exact ⟨clock, reserved, hreach.tail hl⟩
  · intro x hx m hm
    obtain ⟨w, hw⟩ := List.getElem?_of_mem hx
    rcases worker_cases hst hw with ⟨hold, _⟩ | ⟨_, rfl⟩ | ⟨act, worker, s', rfl, hworker, hacted, _⟩
    · exact (hs.held x (List.mem_of_getElem? hold) m hm).later hlater
    · simp [IngestPhase.held, IngestPhase.leaving] at hm
    · rcases hacted.held hworker hm with hold | hnew
      · exact (hs.held worker (List.mem_of_getElem? hworker) m hold).later hlater
      · exact received_delivered hst hnew
  · intro x hx id hid
    obtain ⟨w, hw⟩ := List.getElem?_of_mem hx
    rcases worker_cases hst hw with ⟨hold, _⟩ | ⟨_, rfl⟩ | ⟨act, worker, s', rfl, hworker, hacted, _⟩
    · exact Nat.lt_of_lt_of_le (hs.acks x (List.mem_of_getElem? hold) id hid) hlater.delivered
    · cases hid
    · have hmem := List.mem_of_getElem? hworker
      rcases hacted.acknowledgeable hid with hold | ⟨n, m, _, _, hcur, rfl, _⟩
      · exact Nat.lt_of_lt_of_le (hs.acks worker hmem id hold) hlater.delivered
      · have hheld : m ∈ worker.phase.held := by simp [IngestPhase.held, hcur]
        exact Nat.lt_of_lt_of_le (hs.held worker hmem m hheld).2 hlater.delivered
  · intro x hx n m hcur
    obtain ⟨w, hw⟩ := List.getElem?_of_mem hx
    rcases worker_cases hst hw with ⟨hold, hother⟩ | ⟨_, rfl⟩ |
      ⟨act, worker, s', rfl, hworker, hacted, heq, _⟩
    · obtain ⟨a, ha, hpayload⟩ := hs.attempt x (List.mem_of_getElem? hold) n m hcur
      refine ⟨a, hs.active hst ha ?_, hpayload⟩
      rintro v act y rfl hy m' hcur'
      obtain rfl := hs.distinct w v x y n m m' hold hy hcur hcur'
      exact hother act rfl
    · cases hcur
    · rcases hacted.current hcur with ⟨hcur', choice, _, hexec⟩ | ⟨rfl, envelope, hpayload, hstart⟩
      · obtain ⟨a, b, ha, hb, hinput⟩ := step_active_exec hexec
        obtain ⟨a', ha', hpayload⟩ :=
          hs.attempt worker (List.mem_of_getElem? hworker) n m hcur'
        obtain rfl := Option.some.inj (ha.symm.trans ha')
        exact ⟨b, heq ▸ hb, by rw [hpayload, hinput]⟩
      · refine ⟨⟨envelope, ingest envelope, {}⟩, ?_, hpayload⟩
        rw [← heq, step_start hstart]
        simp
  · intro w w' x x' n m m' hx hx' hcur hcur'
    have hnew : ∀ y ∈ s.workers, ∀ m, y.phase.current ≠ some (s.attempts.started, m) := by
      intro y hy m hm
      obtain ⟨a, ha, _⟩ := hs.attempt y hy _ m hm
      exact Nat.lt_irrefl _ (hs.reachable.sound.wellFormed.active_lt _ a ha)
    have hcases : ∀ {v y k}, t.workers[v]? = some y → y.phase.current = some (n, k) →
        (∃ z, s.workers[v]? = some z ∧ z.phase.current = some (n, k)) ∨
          (n = s.attempts.started ∧ ∃ act, l = .act v act) := by
      intro v y k hy hk
      rcases worker_cases hst hy with ⟨hold, _⟩ | ⟨_, rfl⟩ | ⟨act, z, s', rfl, hz, hacted, _⟩
      · exact .inl ⟨y, hold, hk⟩
      · cases hk
      · rcases hacted.current hk with ⟨hk', _⟩ | ⟨rfl, _⟩
        · exact .inl ⟨z, hz, hk'⟩
        · exact .inr ⟨rfl, act, rfl⟩
    rcases hcases hx hcur with ⟨z, hz, hzc⟩ | ⟨rfl, act, rfl⟩
    · rcases hcases hx' hcur' with ⟨z', hz', hzc'⟩ | ⟨rfl, _⟩
      · exact hs.distinct w w' z z' n m m' hz hz' hzc hzc'
      · exact absurd hzc (hnew z (List.mem_of_getElem? hz) m)
    · rcases hcases hx' hcur' with ⟨z', hz', hzc'⟩ | ⟨_, act', heq⟩
      · exact absurd hzc' (hnew z' (List.mem_of_getElem? hz') m')
      · cases heq
        rfl

end IngestSystem

end EcommerceIntegration
