import EcommerceIntegration.Ingest.System
import EcommerceIntegration.Messaging.Streams

/-!
# Ingest workers on one consumer group

Every worker goes through its loop; between two of its steps any other worker may take
any number of its own, and it may die. Redis keeps the stream and the reservations, the
database what the attempts commit.
-/

namespace EcommerceIntegration

set_option autoImplicit false

open Transaction ConsumerGroup

/-- What `model_validate_json` makes of a text, `none` where it raises. -/
abbrev Payload := Option EventEnvelope

abbrev IngestMessage := StreamMessage Payload

/-- The local state of `_persist` and of the part of `_handle` that comes after it. -/
structure IngestBatch where
  todo : List IngestMessage
  acknowledgeable : List Nat := []
  deadLetters : List (DeadLetter Payload) := []

/-- Where a worker is in its loop. -/
inductive IngestPhase
  | polling
  /-- in `_next_messages`, `read` has returned -/
  | reclaiming (messages : List IngestMessage)
  | claiming (messages : List IngestMessage) (counts : List (Nat × Nat))
  | handling (batch : IngestBatch)
  /-- in the call of `process` for the message, which is the attempt `n` -/
  | processing (n : Nat) (message : IngestMessage) (batch : IngestBatch)
  /-- in `send_to_dead_letter`, before its acknowledgement -/
  | burying (message : IngestMessage) (batch : IngestBatch)
  | gone

structure IngestWorker where
  cycle : Nat := 0
  phase : IngestPhase := .polling

namespace IngestWorker

def reclaimEveryNCycles : Nat := 20

def parse (message : IngestMessage) : Option EventEnvelope := message.payload

def deliveriesExhausted (settings : Settings) (message : IngestMessage) : Bool :=
  decide (settings.consumerMaxDelivery ≤ message.deliveryCount)

/-- What `_persist` does with the result of a message. -/
def settle (settings : Settings) (message : IngestMessage) (result : Result) (batch : IngestBatch) :
    IngestBatch :=
  if result.shouldAck then
    { batch with acknowledgeable := batch.acknowledgeable ++ [message.messageId] }
  else if deliveriesExhausted settings message then
    { batch with
      deadLetters := batch.deadLetters ++ [(message, "tentativas esgotadas: " ++ result.detail)] }
  else batch

/-- `_handle` is called only with messages. -/
def handle (messages : List IngestMessage) : IngestPhase :=
  if messages = [] then .polling else .handling ⟨messages, [], []⟩

end IngestWorker

/-- `handed` has the ids of the messages that were given to `process`. -/
structure IngestSystem where
  attempts : IngestState
  streams : Streams Payload := {}
  workers : List IngestWorker := []
  handed : List Nat := []

/-- One step of a worker. -/
inductive WorkerAct
  | stop
  | read
  | pendingCounts (answered : Bool)
  | reclaim
  | persist
  | exec (choice : Choice)
  | finish
  | copy
  | bury
  | ack
  | die

inductive SystemLabel
  | publish (payload : Payload)
  | start
  | act (w : Nat) (act : WorkerAct)
  | wait (ms : Nat)
  /-- the reservation of a key runs out -/
  | expire (key : String)
  /-- the clock of the database -/
  | tick (d : Nat)

namespace IngestSystem
open IngestWorker RedisStreamConsumer

/-- The result of the attempt, when its program has come to an end. -/
def outcome (s : IngestSystem) (n : Nat) : Option (Except Exn Result) :=
  match s.attempts.active n with
  | some ⟨_, .done result, _⟩ => some (.ok result)
  | some ⟨_, .raise e, _⟩ => some (.error e)
  | _ => none

/-- The step of the database and of the reservations, if it can be taken. -/
def database (s : IngestSystem) (l : IngestLabel) : Option IngestSystem :=
  (step engine ingest s.attempts l).map fun attempts => { s with attempts }

/-- What the worker `w` in the given phase does, with its next phase. -/
def perform (settings : Settings) (s : IngestSystem) (w cycle : Nat) :
    WorkerAct → IngestPhase → Option (IngestSystem × IngestPhase)
  | .stop, .polling => some (s, .gone)
  | .read, .polling =>
    -- the client library refuses a count that is not positive
    if settings.consumerBatchSize = 0 then none
    else
      let (messages, streams) := read settings w s.streams
      some ({ s with streams },
        if (cycle + 1) % reclaimEveryNCycles = 0 then .reclaiming messages else handle messages)
  | .pendingCounts answered, .reclaiming messages =>
    some (s, .claiming messages (pendingDeliveryCounts settings answered s.streams))
  | .reclaim, .claiming messages counts =>
    let (claimed, streams) := reclaimAbandoned settings w counts s.streams
    some ({ s with streams }, handle (messages ++ claimed))
  | .persist, .handling batch =>
    match batch.todo with
    | [] => none
    | message :: todo =>
      match parse message with
      | none => some (s, .handling { batch with
          todo, deadLetters := batch.deadLetters ++ [(message, "payload invalido")] })
      | some envelope =>
        (s.database (.start envelope)).map fun s' =>
          ({ s' with handed := s.handed ++ [message.messageId] },
            .processing s.attempts.started message { batch with todo })
  | .exec choice, .processing n message batch =>
    (s.database (.exec n choice)).map fun s' => (s', .processing n message batch)
  | .finish, .processing n message batch =>
    match s.outcome n with
    | some (.ok result) =>
      (s.database (.finish n)).map fun s' => (s', .handling (settle settings message result batch))
    | some (.error _) =>
      -- nothing in the loop catches it
      (s.database (.finish n)).map fun s' => (s', .gone)
    | none => none
  | .copy, .handling ⟨[], acks, (message, reason) :: deadLetters⟩ =>
    some ({ s with streams := copyToDeadLetter message reason s.streams },
      .burying message ⟨[], acks, deadLetters⟩)
  | .bury, .burying message batch =>
    some ({ s with streams := RedisStreamConsumer.ack [message.messageId] s.streams },
      .handling batch)
  | .ack, .handling ⟨[], acks, []⟩ =>
    some ({ s with streams := RedisStreamConsumer.ack acks s.streams }, .polling)
  | .die, .processing n _ _ => (s.database (.crash n)).map fun s' => (s', .gone)
  | .die, .gone => none
  | .die, _ => some (s, .gone)
  | _, _ => none

/-- `read` counts a cycle. -/
def nextCycle (cycle : Nat) : WorkerAct → Nat
  | .read => cycle + 1
  | _ => cycle

def step (settings : Settings) (s : IngestSystem) : SystemLabel → Option IngestSystem
  | .publish payload =>
    some { s with streams := RedisStreamPublisher.publishMany [payload] s.streams }
  | .start => some { s with workers := s.workers ++ [{}] }
  | .act w act =>
    s.workers[w]?.bind fun worker =>
      (perform settings s w worker.cycle act worker.phase).map fun (s', phase) =>
        { s' with workers := s.workers.set w ⟨nextCycle worker.cycle act, phase⟩ }
  | .wait ms => some { s with streams := { s.streams with now := s.streams.now + ms } }
  | .expire key => s.database (.remote (s.attempts.shared.remote.filter (· != key)))
  | .tick d => s.database (.tick d)

def initial (clock : Time) : IngestSystem := { attempts := Transaction.initial clock [] }

def run (settings : Settings) (clock : Time) (ls : List SystemLabel) : Option IngestSystem :=
  Transition.run (step settings) (initial clock) ls

/-! ## What a step can do -/

/-- The acts of a worker, one by one. -/
inductive Acted (settings : Settings) (s : IngestSystem) (w cycle : Nat) :
    WorkerAct → IngestPhase → IngestSystem → IngestPhase → Prop
  | stop : Acted settings s w cycle .stop .polling s .gone
  | read {phase} (positive : 0 < settings.consumerBatchSize)
      (next : phase = handle (read settings w s.streams).1 ∨
        phase = .reclaiming (read settings w s.streams).1) :
      Acted settings s w cycle .read .polling
        { s with streams := (read settings w s.streams).2 } phase
  | pendingCounts {messages} (answered : Bool) :
      Acted settings s w cycle (.pendingCounts answered) (.reclaiming messages) s
        (.claiming messages (pendingDeliveryCounts settings answered s.streams))
  | reclaim {messages counts} :
      Acted settings s w cycle .reclaim (.claiming messages counts)
        { s with streams := (reclaimAbandoned settings w counts s.streams).2 }
        (handle (messages ++ (reclaimAbandoned settings w counts s.streams).1))
  | invalid {message todo acks dead} (payload : message.payload = none) :
      Acted settings s w cycle .persist (.handling ⟨message :: todo, acks, dead⟩) s
        (.handling ⟨todo, acks, dead ++ [(message, "payload invalido")]⟩)
  | hand {message todo acks dead envelope attempts'} (payload : message.payload = some envelope)
      (started : Transaction.step engine ingest s.attempts (.start envelope) = some attempts') :
      Acted settings s w cycle .persist (.handling ⟨message :: todo, acks, dead⟩)
        { s with attempts := attempts', handed := s.handed ++ [message.messageId] }
        (.processing s.attempts.started message ⟨todo, acks, dead⟩)
  | exec {choice n message batch attempts'}
      (step : Transaction.step engine ingest s.attempts (.exec n choice) = some attempts') :
      Acted settings s w cycle (.exec choice) (.processing n message batch)
        { s with attempts := attempts' } (.processing n message batch)
  | finish {n message batch result attempts'} (outcome : s.outcome n = some (.ok result))
      (step : Transaction.step engine ingest s.attempts (.finish n) = some attempts') :
      Acted settings s w cycle .finish (.processing n message batch)
        { s with attempts := attempts' } (.handling (settle settings message result batch))
  | raised {n message batch e attempts'} (outcome : s.outcome n = some (.error e))
      (step : Transaction.step engine ingest s.attempts (.finish n) = some attempts') :
      Acted settings s w cycle .finish (.processing n message batch)
        { s with attempts := attempts' } .gone
  | copy {message reason acks dead} :
      Acted settings s w cycle .copy (.handling ⟨[], acks, (message, reason) :: dead⟩)
        { s with streams := copyToDeadLetter message reason s.streams }
        (.burying message ⟨[], acks, dead⟩)
  | bury {message batch} :
      Acted settings s w cycle .bury (.burying message batch)
        { s with streams := RedisStreamConsumer.ack [message.messageId] s.streams }
        (.handling batch)
  | ack {acks} :
      Acted settings s w cycle .ack (.handling ⟨[], acks, []⟩)
        { s with streams := RedisStreamConsumer.ack acks s.streams } .polling
  | crash {n message batch attempts'}
      (step : Transaction.step engine ingest s.attempts (.crash n) = some attempts') :
      Acted settings s w cycle .die (.processing n message batch)
        { s with attempts := attempts' } .gone
  | die {phase} (idle : ∀ n message batch, phase ≠ .processing n message batch)
      (alive : phase ≠ .gone) : Acted settings s w cycle .die phase s .gone

variable {settings : Settings} {s t : IngestSystem} {w cycle : Nat}

theorem database_eq_some {l : IngestLabel} (h : s.database l = some t) :
    ∃ attempts', Transaction.step engine ingest s.attempts l = some attempts' ∧
      t = { s with attempts := attempts' } := by
  obtain ⟨attempts', hst, heq⟩ := Option.map_eq_some_iff.mp h
  exact ⟨attempts', hst, heq.symm⟩

theorem perform_acted {act : WorkerAct} {phase phase' : IngestPhase}
    (h : perform settings s w cycle act phase = some (t, phase')) :
    Acted settings s w cycle act phase t phase' := by
  unfold perform at h
  split at h
  · cases h
    exact .stop
  · split at h
    · cases h
    · rename_i hpos
      cases h
      refine .read (Nat.pos_of_ne_zero hpos) ?_
      split
      · exact .inr rfl
      · exact .inl rfl
  · cases h
    exact .pendingCounts _
  · cases h
    exact .reclaim
  · rename_i batch
    obtain ⟨todo, acks, dead⟩ := batch
    cases todo with
    | nil => cases h
    | cons message todo =>
      dsimp only at h
      split at h
      · rename_i hnone
        cases h
        exact .invalid hnone
      · rename_i envelope hsome
        obtain ⟨s', hs', heq⟩ := Option.map_eq_some_iff.mp h
        obtain ⟨attempts', hst, rfl⟩ := database_eq_some hs'
        cases heq
        exact .hand hsome hst
  · obtain ⟨s', hs', heq⟩ := Option.map_eq_some_iff.mp h
    obtain ⟨attempts', hst, rfl⟩ := database_eq_some hs'
    cases heq
    exact .exec hst
  · split at h
    · rename_i hout
      obtain ⟨s', hs', heq⟩ := Option.map_eq_some_iff.mp h
      obtain ⟨attempts', hst, rfl⟩ := database_eq_some hs'
      cases heq
      exact .finish hout hst
    · rename_i hout
      obtain ⟨s', hs', heq⟩ := Option.map_eq_some_iff.mp h
      obtain ⟨attempts', hst, rfl⟩ := database_eq_some hs'
      cases heq
      exact .raised hout hst
    · cases h
  · cases h
    exact .copy
  · cases h
    exact .bury
  · cases h
    exact .ack
  · obtain ⟨s', hs', heq⟩ := Option.map_eq_some_iff.mp h
    obtain ⟨attempts', hst, rfl⟩ := database_eq_some hs'
    cases heq
    exact .crash hst
  · cases h
  · rename_i hidle halive
    cases h
    exact .die hidle halive
  · cases h

/-- A worker's step changes its own state and what all share. -/
theorem step_act {act : WorkerAct} (h : step settings s (.act w act) = some t) :
    ∃ worker s' phase, s.workers[w]? = some worker ∧
      Acted settings s w worker.cycle act worker.phase s' phase ∧
      t = { s' with workers := s.workers.set w ⟨nextCycle worker.cycle act, phase⟩ } := by
  obtain ⟨worker, hw, h⟩ := Option.bind_eq_some_iff.mp h
  obtain ⟨⟨s', phase⟩, hp, heq⟩ := Option.map_eq_some_iff.mp h
  exact ⟨worker, s', phase, hw, perform_acted hp, heq.symm⟩

end IngestSystem

end EcommerceIntegration
