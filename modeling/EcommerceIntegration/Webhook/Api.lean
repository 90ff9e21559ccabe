import EcommerceIntegration.Webhook.Backpressure

/-!
# Requests and the periodic flush on one event loop

A task runs on until it waits: a request for the lag of the stream, the flusher for its
interval or for the publisher. Behind the backpressure check a request puts its events into
the queue in one go. The publisher writes every batch it is given.
-/

namespace EcommerceIntegration

set_option autoImplicit false

open RedisStreamPublisher

variable {α : Type}

structure Answer (α : Type) where
  events : List α
  response : AcceptedResponse

/-- The events that the partner need not send again. -/
def Answer.taken (a : Answer α) : List α := a.events.take a.response.accepted

/-- `ingest_events` behind the call of `evaluate`. -/
def respond (settings : Settings) (backpressure : BackpressureState) (events : List α)
    (buffer : EventBuffer.State α) : AcceptedResponse × EventBuffer.State α :=
  if backpressure.overloaded then
    (⟨429, some backpressure.retryAfterSeconds, 0, EventBuffer.depth buffer⟩, buffer)
  else
    let (accepted, full, buffer) := submitAll settings events buffer
    (⟨if full then 429 else 202, if full then some minRetryAfterSeconds else none, accepted,
      EventBuffer.depth buffer⟩, buffer)

/-- `probing` has the events of the requests that wait for the lag, `answered` the requests
in the order in which they pass the check, `published` the batches that `publish_many` is
called with, and `stream` what it has written. -/
structure ApiState (α : Type) where
  now : Nat := 0
  guard : BackpressureGuard := {}
  probing : List (List α) := []
  buffer : EventBuffer.State α := {}
  answered : List (Answer α) := []
  published : List (Batch α) := []
  stream : List α := []

inductive ApiLabel (α : Type)
  | request (events : List α)
  /-- the `XLEN` of the request at this place is answered, or raises -/
  | lagAnswered (k : Nat) (length : Option Nat)
  /-- the interval of the flusher is over -/
  | flush
  | publishReturns
  | wait (micros : Nat)

namespace ApiState

/-- The request has passed the check. -/
def answer (settings : Settings) (events : List α) (s : ApiState α) : ApiState α :=
  let (response, buffer) := respond settings s.guard.state events s.buffer
  { s with buffer, answered := s.answered ++ [⟨events, response⟩] }

def step (settings : Settings) (s : ApiState α) : ApiLabel α → Option (ApiState α)
  | .request events =>
    if s.guard.probeIsDue settings s.now then
      some { s with
        guard := { s.guard with lastProbeAt := s.now }
        probing := s.probing ++ [events] }
    else some (answer settings events s)
  | .lagAnswered k length =>
    s.probing[k]?.map fun events =>
      answer settings events { s with
        guard := { s.guard with
          state := (BackpressureGuard.probe settings s.now (pendingLag length)).state }
        probing := s.probing.eraseIdx k }
  | .flush =>
    -- the flusher waits for the publisher before it sleeps again
    if s.buffer.publishing = [] then
      let buffer := EventBuffer.flush settings s.buffer
      some { s with buffer, published := s.published ++ buffer.publishing }
    else none
  | .publishReturns =>
    match s.buffer.publishing with
    | [] => none
    | batch :: publishing =>
      some { s with
        buffer := { s.buffer with
          publishing
          published := s.buffer.published + batch.1.length }
        stream := s.stream ++ batch.1 }
  | .wait micros => some { s with now := s.now + micros }

def run (settings : Settings) (ls : List (ApiLabel α)) : Option (ApiState α) :=
  Transition.run (step settings) {} ls

/-- All events of the requests up to now that were counted as accepted. -/
def accepted (s : ApiState α) : List α := s.answered.flatMap Answer.taken

/-- All events that the publisher was given. -/
def handedOver (s : ApiState α) : List α := s.published.flatMap Subtype.val

end ApiState

/-! ## One request -/

section Submit
variable {settings : Settings} {events : List α} {buffer : EventBuffer.State α}

theorem submitAll_cons_full (h : EventBuffer.full settings buffer = true) (event : α) :
    submitAll settings (event :: events) buffer = (0, true, buffer) := by
  simp [submitAll, EventBuffer.submit, h]

theorem submitAll_cons (h : EventBuffer.full settings buffer = false) (event : α) :
    submitAll settings (event :: events) buffer =
      let rest := submitAll settings events { buffer with queue := buffer.queue ++ [event] }
      (rest.1 + 1, rest.2.1, rest.2.2) := by
  simp [submitAll, EventBuffer.submit, h]

/-- What was put into the queue is a prefix, all of it when the queue was never full. -/
theorem submitAll_spec (settings : Settings) (events : List α) (buffer : EventBuffer.State α) :
    let (accepted, full, buffer') := submitAll settings events buffer
    buffer' = { buffer with queue := buffer.queue ++ events.take accepted } ∧
      accepted ≤ events.length ∧ (full = false → accepted = events.length) := by
  induction events generalizing buffer with
  | nil => simp [submitAll]
  | cons event events ih =>
    cases hfull : EventBuffer.full settings buffer with
    | true =>
      rw [submitAll_cons_full hfull]
      simp
    | false =>
      rw [submitAll_cons hfull]
      obtain ⟨hbuffer, hle, hall⟩ := ih { buffer with queue := buffer.queue ++ [event] }
      refine ⟨?_, ?_, ?_⟩
      · simpa using hbuffer
      · simpa using hle
      · intro h
        simpa using hall h

theorem length_lt_of_not_full (hsize : 1 ≤ settings.bufferQueueSize)
    (h : EventBuffer.full settings buffer = false) :
    buffer.queue.length < settings.bufferQueueSize := by
  simp only [EventBuffer.full, Bool.and_eq_false_iff, decide_eq_false_iff_not] at h
  rcases h with h | h
  · exact absurd hsize h
  · exact Nat.lt_of_not_le h

theorem submitAll_bounded (hsize : 1 ≤ settings.bufferQueueSize)
    (h : buffer.queue.length ≤ settings.bufferQueueSize) :
    (submitAll settings events buffer).2.2.queue.length ≤ settings.bufferQueueSize := by
  induction events generalizing buffer with
  | nil => exact h
  | cons event events ih =>
    cases hfull : EventBuffer.full settings buffer with
    | true =>
      rw [submitAll_cons_full hfull]
      exact h
    | false =>
      rw [submitAll_cons hfull]
      refine ih ?_
      rw [List.length_append, List.length_singleton]
      exact length_lt_of_not_full hsize hfull

theorem respond_spec (settings : Settings) (backpressure : BackpressureState) (events : List α)
    (buffer : EventBuffer.State α) :
    (respond settings backpressure events buffer).2 = { buffer with
        queue := buffer.queue ++
          events.take (respond settings backpressure events buffer).1.accepted } ∧
      ((respond settings backpressure events buffer).1.statusCode = 202 →
        (respond settings backpressure events buffer).1.accepted = events.length) := by
  unfold respond
  split
  · refine ⟨?_, fun h => (by cases h)⟩
    rw [List.take_zero, List.append_nil]
  · obtain ⟨hbuffer, _, hall⟩ := submitAll_spec settings events buffer
    refine ⟨hbuffer, fun h => hall ?_⟩
    dsimp only at h
    split at h
    · cases h
    · exact eq_false_of_ne_true ‹_›

theorem respond_bounded (hsize : 1 ≤ settings.bufferQueueSize) (backpressure : BackpressureState)
    (h : buffer.queue.length ≤ settings.bufferQueueSize) :
    (respond settings backpressure events buffer).2.queue.length ≤ settings.bufferQueueSize := by
  unfold respond
  split
  · exact h
  · exact submitAll_bounded hsize h

end Submit

theorem takeBatch_length_le (n : Nat) (queue : List α) :
    (EventBuffer.takeBatch n queue).1.length ≤ n := by
  induction n generalizing queue with
  | zero => exact Nat.le_refl 0
  | succ n ih =>
    cases queue with
    | nil => exact Nat.zero_le _
    | cons event queue => exact Nat.succ_le_succ (ih queue)

/-- A flush moves a batch from the front of the queue to the publisher, or there is none. -/
theorem flush_cases (settings : Settings) (buffer : EventBuffer.State α) :
    EventBuffer.flush settings buffer = buffer ∨
      ∃ batch : Batch α, ∃ queue, buffer.queue = batch.1 ++ queue ∧
        batch.1.length ≤ settings.bufferMaxBatch ∧
        EventBuffer.flush settings buffer =
          { buffer with queue, publishing := buffer.publishing ++ [batch] } := by
  unfold EventBuffer.flush
  dsimp only
  split
  · exact .inr ⟨_, _, (EventBuffer.takeBatch_append _ _).symm, takeBatch_length_le _ _, rfl⟩
  · exact .inl rfl

/-! ## Every interleaving -/

namespace ApiState
variable {settings : Settings} {s t : ApiState α} {l : ApiLabel α}

/-- What the events have come to: the batches in their order, then the queue. -/
structure InOrder (settings : Settings) (s : ApiState α) : Prop where
  log : s.handedOver ++ s.buffer.queue = s.accepted
  batches : ∀ batch ∈ s.published, batch.1.length ≤ settings.bufferMaxBatch
  complete : ∀ a ∈ s.answered, a.response.statusCode = 202 → a.response.accepted = a.events.length

theorem InOrder.answer (hs : InOrder settings s) (events : List α) :
    InOrder settings (answer settings events s) := by
  obtain ⟨hbuffer, hall⟩ := respond_spec settings s.guard.state events s.buffer
  constructor
  · have hlog := hs.log
    unfold accepted handedOver at hlog
    unfold ApiState.answer accepted handedOver
    simp only [hbuffer, List.flatMap_append, List.flatMap_singleton]
    rw [← hlog, List.append_assoc]
    rfl
  · exact hs.batches
  · intro a ha
    rcases List.mem_append.mp ha with hold | hnew
    · exact hs.complete a hold
    · obtain rfl := List.mem_singleton.mp hnew
      exact hall

theorem InOrder.flush (hs : InOrder settings s) (hidle : s.buffer.publishing = []) :
    InOrder settings { s with
      buffer := EventBuffer.flush settings s.buffer
      published := s.published ++ (EventBuffer.flush settings s.buffer).publishing } := by
  rcases flush_cases settings s.buffer with hflush | ⟨batch, queue, hqueue, hle, hflush⟩
  · rw [hflush, hidle, List.append_nil]
    exact hs
  · rw [hflush, hidle]
    constructor
    · have hlog := hs.log
      unfold accepted handedOver at hlog ⊢
      rw [hqueue] at hlog
      simpa using hlog
    · intro b hb
      rcases List.mem_append.mp hb with hold | hnew
      · exact hs.batches b hold
      · obtain rfl := List.mem_singleton.mp hnew
        exact hle
    · exact hs.complete

theorem InOrder.step (hs : InOrder settings s) (hst : step settings s l = some t) :
    InOrder settings t := by
  cases l with
  | request events =>
    simp only [ApiState.step] at hst
    split at hst
    · cases hst
      exact ⟨hs.log, hs.batches, hs.complete⟩
    · cases hst
      exact hs.answer events
  | lagAnswered k length =>
    obtain ⟨events, _, rfl⟩ := Option.map_eq_some_iff.mp hst
    refine InOrder.answer ?_ events
    exact ⟨hs.log, hs.batches, hs.complete⟩
  | flush =>
    simp only [ApiState.step] at hst
    split at hst
    · rename_i hidle
      cases hst
      exact hs.flush hidle
    · cases hst
  | publishReturns =>
    simp only [ApiState.step] at hst
    split at hst
    · cases hst
    · cases hst
      exact ⟨hs.log, hs.batches, hs.complete⟩
  | wait micros =>
    cases hst
    exact ⟨hs.log, hs.batches, hs.complete⟩

theorem bounded_step (hsize : 1 ≤ settings.bufferQueueSize)
    (hs : s.buffer.queue.length ≤ settings.bufferQueueSize)
    (hst : step settings s l = some t) : t.buffer.queue.length ≤ settings.bufferQueueSize := by
  cases l with
  | request events =>
    simp only [step] at hst
    split at hst
    · cases hst
      exact hs
    · cases hst
      exact respond_bounded hsize s.guard.state hs
  | lagAnswered k length =>
    obtain ⟨events, _, rfl⟩ := Option.map_eq_some_iff.mp hst
    exact respond_bounded hsize _ hs
  | flush =>
    simp only [step] at hst
    split at hst
    · cases hst
      rcases flush_cases settings s.buffer with hflush | ⟨batch, queue, hqueue, _, hflush⟩
      · rw [hflush]
        exact hs
      · rw [hflush]
        rw [hqueue, List.length_append] at hs
        exact Nat.le_of_add_left_le hs
    · cases hst
  | publishReturns =>
    simp only [step] at hst
    split at hst
    · cases hst
    · cases hst
      exact hs
  | wait micros =>
    cases hst
    exact hs

/-- What was handed over and the queue are the accepted prefixes, in the order in which
the requests passed the check. -/
theorem acceptance_exactPrefix {ls : List (ApiLabel α)}
    (hsize : 1 ≤ settings.bufferQueueSize) (hrun : run settings ls = some s) :
    s.handedOver ++ s.buffer.queue = s.answered.flatMap (fun a => a.events.take a.response.accepted) ∧
      (∀ batch ∈ s.published,
        1 ≤ batch.1.length ∧ batch.1.length ≤ settings.bufferMaxBatch) ∧
      s.buffer.queue.length ≤ settings.bufferQueueSize ∧
      ∀ a ∈ s.answered, a.response.statusCode = 202 → a.response.accepted = a.events.length := by
  have hstart : InOrder settings ({} : ApiState α) := ⟨rfl, by simp, by simp⟩
  have horder : InOrder settings s :=
    Transition.run_invariant (fun _ _ _ hs hst => hs.step hst) hstart hrun
  have hbounded : s.buffer.queue.length ≤ settings.bufferQueueSize :=
    Transition.run_invariant (fun _ _ _ hs hst => bounded_step hsize hs hst) (Nat.zero_le _) hrun
  refine ⟨horder.log, fun batch hbatch => ⟨?_, horder.batches batch hbatch⟩, hbounded,
    horder.complete⟩
  exact List.length_pos_iff.mpr batch.2

end ApiState

/-! ## Three places are left for five events -/

namespace Sample

def smallBuffer : Settings := { bufferMaxBatch := 2, bufferQueueSize := 3 }

/-- The second batch has events of two requests. -/
def cutRequest : List (ApiLabel Nat) :=
  [.request [1, 2, 3, 4, 5], .flush, .wait 500000, .request [6], .request [7, 8, 9],
    .lagAnswered 0 (some 3), .publishReturns, .flush]

def cutRequestEnd : ApiState Nat := (ApiState.run smallBuffer cutRequest).get (by decide)

end Sample

theorem acceptance_exactPrefix_cut :
    Sample.cutRequestEnd.handedOver ++ Sample.cutRequestEnd.buffer.queue = [1, 2, 3, 7, 8] ∧
      Sample.cutRequestEnd.buffer.queue.length ≤ 3 := by
  have hrun : ApiState.run Sample.smallBuffer Sample.cutRequest = some Sample.cutRequestEnd :=
    (Option.some_get _).symm
  obtain ⟨hlog, _, hbounded, _⟩ := ApiState.acceptance_exactPrefix (by decide) hrun
  exact ⟨hlog.trans (by decide), hbounded⟩

/-! ## The buffer under the requests -/

namespace ApiState
variable {settings : Settings} {s t : ApiState α} {l : ApiLabel α}

def ingestion (s : ApiState α) : IngestionState α := ⟨s.buffer, s.stream, s.accepted⟩

theorem run_submits (settings : Settings) (events : List α) (buffer : EventBuffer.State α)
    (stream accepted : List α) :
    Transition.run (Ingestion.step settings) ⟨buffer, stream, accepted⟩
        ((events.take (submitAll settings events buffer).1).map .submit) =
      some ⟨(submitAll settings events buffer).2.2, stream,
        accepted ++ events.take (submitAll settings events buffer).1⟩ := by
  induction events generalizing buffer accepted with
  | nil => simp [submitAll]
  | cons event events ih =>
    cases hfull : EventBuffer.full settings buffer with
    | true => simp [submitAll_cons_full hfull]
    | false =>
      rw [submitAll_cons hfull]
      simp only [List.take_succ_cons, List.map_cons]
      rw [Transition.run_cons_eq_some]
      refine ⟨_, ?_, (ih _ (accepted ++ [event])).trans (by simp)⟩
      simp [Ingestion.step, EventBuffer.submit, hfull]

theorem run_answer (settings : Settings) (events : List α) (s : ApiState α) :
    ∃ ks, Transition.run (Ingestion.step settings) s.ingestion ks =
      some (answer settings events s).ingestion ∧ ∀ k ∈ ks, ¬ Ingestion.Raises k := by
  by_cases hover : s.guard.state.overloaded = true
  · exact ⟨[], by simp [answer, respond, hover, ingestion, accepted, Answer.taken], by simp⟩
  · refine ⟨(events.take (submitAll settings events s.buffer).1).map .submit, ?_, ?_⟩
    · refine (run_submits settings events s.buffer s.stream s.accepted).trans ?_
      simp [answer, respond, hover, ingestion, accepted, Answer.taken]
    · intro k hk
      obtain ⟨event, _, rfl⟩ := List.mem_map.mp hk
      exact id

/-- A step of the event loop is a few steps of the buffer, none of which loses a batch. -/
theorem step_ingestion (hst : step settings s l = some t) :
    ∃ ks, Transition.run (Ingestion.step settings) s.ingestion ks = some t.ingestion ∧
      ∀ k ∈ ks, ¬ Ingestion.Raises k := by
  cases l with
  | request events =>
    simp only [step] at hst
    split at hst
    · cases hst
      exact ⟨[], rfl, by simp⟩
    · cases hst
      exact run_answer settings events s
  | lagAnswered k length =>
    obtain ⟨events, _, rfl⟩ := Option.map_eq_some_iff.mp hst
    exact run_answer settings events { s with
      guard := { s.guard with
        state := (BackpressureGuard.probe settings s.now (pendingLag length)).state }
      probing := s.probing.eraseIdx k }
  | flush =>
    simp only [step] at hst
    split at hst
    · cases hst
      exact ⟨[.flush], rfl, by simp [Ingestion.Raises]⟩
    · cases hst
  | publishReturns =>
    simp only [step] at hst
    split at hst
    · cases hst
    · rename_i batch publishing hpublishing
      cases hst
      refine ⟨[.publishReturns 0], ?_, by simp [Ingestion.Raises]⟩
      simp [Transition.run, Ingestion.step, ingestion, hpublishing, accepted]
  | wait micros =>
    cases hst
    exact ⟨[], rfl, by simp⟩

/-- With a publisher that always writes, every accepted event is in one of the three
places. -/
theorem accepted_conserved {ls : List (ApiLabel α)} (hrun : run settings ls = some s) :
    Ingestion.Conserved s.ingestion := by
  have hstart : Ingestion.Conserved ({} : ApiState α).ingestion := List.Perm.refl _
  have hstep : ∀ (s : ApiState α) l t, Ingestion.Conserved s.ingestion →
      step settings s l = some t → Ingestion.Conserved t.ingestion := by
    intro s l t hs hst
    obtain ⟨ks, hks, hnone⟩ := step_ingestion hst
    refine Transition.run_invariant_along (P := fun _ k => ¬ Ingestion.Raises k)
      (fun _ _ _ hc hl hst => hc.step hl hst) hs ?_ hks
    exact Transition.along_iff.mpr fun us k vs _ heq _ => hnone k (by simp [heq])
  exact Transition.run_invariant hstep hstart hrun

end ApiState

end EcommerceIntegration
