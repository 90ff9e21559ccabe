import EcommerceIntegration.Webhook.Buffer

/-!
# Start and stop of the buffer

The flusher is a task of the event loop. `stop` clears the running flag, waits for the
flusher up to a timeout, which cancels it, and then flushes once more. Times are in
microseconds.
-/

namespace EcommerceIntegration

set_option autoImplicit false

variable {α : Type}

/-- Where the task of the flusher is. -/
inductive Flusher
  | absent
  /-- the task has not run yet -/
  | created
  | sleeping (wakeAt : Nat)
  | publishing
  | finished
  deriving DecidableEq

/-- Where the call of `stop` is. -/
inductive Stopping
  | notCalled
  | waiting (deadline : Nat)
  | publishing
  | returned
  | raised
  deriving DecidableEq

structure LifecycleState (α : Type) where
  ingestion : IngestionState α := {}
  clock : Nat := 0
  running : Bool := false
  flusher : Flusher := .absent
  stopping : Stopping := .notCalled

inductive LifecycleLabel (α : Type)
  | submit (event : α)
  | tick (d : Nat)
  | start
  /-- the flusher runs for the first time -/
  | begin
  | wake
  /-- the publisher returns to the flush that waits for it -/
  | publishReturns
  | publishRaises
  | stop
  /-- the flusher has ended and `stop` goes on -/
  | awaited
  /-- the wait is over and cancels the flusher -/
  | timeout

namespace Lifecycle

def drainTimeout : Nat := 10 * 1000000

def flushInterval (settings : Settings) : Nat := settings.bufferFlushMs * 1000

def queue (s : LifecycleState α) : List α := s.ingestion.buffer.queue

/-- The batches that wait for the publisher. -/
def publishing (s : LifecycleState α) : List (Batch α) := s.ingestion.buffer.publishing

/-- `while self._running` -/
def loop (settings : Settings) (s : LifecycleState α) : LifecycleState α :=
  { s with
    flusher := if s.running then .sleeping (s.clock + flushInterval settings) else .finished }

def flush (settings : Settings) (s : LifecycleState α) : LifecycleState α :=
  { s with ingestion := { s.ingestion with
      buffer := EventBuffer.flush settings s.ingestion.buffer } }

/-- The flush of the periodic loop, up to the publisher. -/
def flushPeriodically (settings : Settings) (s : LifecycleState α) : LifecycleState α :=
  let s := flush settings s
  if (publishing s).isEmpty then loop settings s else { s with flusher := .publishing }

/-- The flush at the end of `stop`, up to the publisher. -/
def finalFlush (settings : Settings) (s : LifecycleState α) : LifecycleState α :=
  let s := flush settings s
  { s with stopping := if (publishing s).isEmpty then .returned else .publishing }

/-- Who waits for the publisher goes on. -/
def resume (settings : Settings) (ended : Stopping) (s : LifecycleState α) :
    Option (LifecycleState α) :=
  if s.flusher = .publishing then some (loop settings s)
  else if s.stopping = .publishing then some { s with stopping := ended }
  else none

def step (settings : Settings) (s : LifecycleState α) :
    LifecycleLabel α → Option (LifecycleState α)
  | .submit event => (Ingestion.step settings s.ingestion (.submit event)).map fun ingestion =>
      { s with ingestion }
  | .tick d => some { s with clock := s.clock + d }
  | .start =>
    if s.flusher = .absent ∧ s.stopping = .notCalled then
      some { s with running := true, flusher := .created }
    else none
  | .begin => if s.flusher = .created then some (loop settings s) else none
  | .wake =>
    match s.flusher with
    | .sleeping wakeAt => if wakeAt ≤ s.clock then some (flushPeriodically settings s) else none
    | _ => none
  | .publishReturns =>
    (Ingestion.step settings s.ingestion (.publishReturns 0)).bind fun ingestion =>
      resume settings .returned { s with ingestion }
  | .publishRaises =>
    (Ingestion.step settings s.ingestion (.publishRaises 0)).bind fun ingestion =>
      resume settings .raised { s with ingestion }
  | .stop =>
    if s.stopping = .notCalled then
      let s := { s with running := false }
      if s.flusher = .absent then some (finalFlush settings s)
      else some { s with stopping := .waiting (s.clock + drainTimeout) }
    else none
  | .awaited =>
    match s.stopping with
    | .waiting _ => if s.flusher = .finished then some (finalFlush settings s) else none
    | _ => none
  | .timeout =>
    match s.stopping with
    | .waiting deadline =>
      if deadline ≤ s.clock ∧ s.flusher ≠ .finished then
        -- a batch that the flusher was publishing is gone
        some { s with
          ingestion := { s.ingestion with buffer := { s.ingestion.buffer with publishing := [] } }
          flusher := .finished }
      else none
    | _ => none

def run (settings : Settings) (ls : List (LifecycleLabel α)) : Option (LifecycleState α) :=
  Transition.run (step settings) {} ls

/-- The publisher fails, or it is not waited for. -/
def fails (s : LifecycleState α) : LifecycleLabel α → Bool
  | .publishRaises => true
  | .timeout => decide (s.flusher = .publishing)
  | _ => false

/-- What a step can do. -/
inductive Moved (settings : Settings) (s : LifecycleState α) :
    LifecycleLabel α → LifecycleState α → Prop
  | submit (event : α) {ingestion} :
    Ingestion.step settings s.ingestion (.submit event) = some ingestion →
    Moved settings s (.submit event) { s with ingestion }
  | tick (d : Nat) : Moved settings s (.tick d) { s with clock := s.clock + d }
  | start : s.flusher = .absent → s.stopping = .notCalled →
    Moved settings s .start { s with running := true, flusher := .created }
  | begin : s.flusher = .created → Moved settings s .begin (loop settings s)
  | wake {wakeAt} : s.flusher = .sleeping wakeAt → wakeAt ≤ s.clock →
    Moved settings s .wake (flushPeriodically settings s)
  | flusherReturns {ingestion} :
    Ingestion.step settings s.ingestion (.publishReturns 0) = some ingestion →
    s.flusher = .publishing → Moved settings s .publishReturns (loop settings { s with ingestion })
  | stopReturns {ingestion} :
    Ingestion.step settings s.ingestion (.publishReturns 0) = some ingestion →
    s.flusher ≠ .publishing → s.stopping = .publishing →
    Moved settings s .publishReturns { s with ingestion, stopping := .returned }
  | flusherRaises {ingestion} :
    Ingestion.step settings s.ingestion (.publishRaises 0) = some ingestion →
    s.flusher = .publishing → Moved settings s .publishRaises (loop settings { s with ingestion })
  | stopRaises {ingestion} :
    Ingestion.step settings s.ingestion (.publishRaises 0) = some ingestion →
    s.flusher ≠ .publishing → s.stopping = .publishing →
    Moved settings s .publishRaises { s with ingestion, stopping := .raised }
  | stopAlone : s.stopping = .notCalled → s.flusher = .absent →
    Moved settings s .stop (finalFlush settings { s with running := false })
  | stopWaits : s.stopping = .notCalled → s.flusher ≠ .absent →
    Moved settings s .stop
      { s with running := false, stopping := .waiting (s.clock + drainTimeout) }
  | awaited {deadline} : s.stopping = .waiting deadline → s.flusher = .finished →
    Moved settings s .awaited (finalFlush settings s)
  | timeout {deadline} : s.stopping = .waiting deadline → deadline ≤ s.clock →
    s.flusher ≠ .finished → Moved settings s .timeout
      { s with
        ingestion := { s.ingestion with buffer := { s.ingestion.buffer with publishing := [] } }
        flusher := .finished }

theorem resume_eq_some {settings : Settings} {ended : Stopping} {s t : LifecycleState α}
    (h : resume settings ended s = some t) :
    (s.flusher = .publishing ∧ t = loop settings s) ∨
      (s.flusher ≠ .publishing ∧ s.stopping = .publishing ∧ t = { s with stopping := ended }) := by
  unfold resume at h
  split at h
  · rename_i hflusher
    exact .inl ⟨hflusher, (Option.some.inj h).symm⟩
  · rename_i hflusher
    split at h
    · rename_i hstopping
      exact .inr ⟨hflusher, hstopping, (Option.some.inj h).symm⟩
    · cases h

theorem step_moved {settings : Settings} {s t : LifecycleState α} {l : LifecycleLabel α}
    (hst : step settings s l = some t) : Moved settings s l t := by
  cases l with
  | submit event =>
    obtain ⟨ingestion, hingestion, rfl⟩ := Option.map_eq_some_iff.mp hst
    exact .submit event hingestion
  | tick d =>
    cases hst
    exact .tick d
  | start =>
    simp only [step] at hst
    split at hst
    · rename_i h
      cases hst
      exact .start h.1 h.2
    · cases hst
  | begin =>
    simp only [step] at hst
    split at hst
    · rename_i h
      cases hst
      exact .begin h
    · cases hst
  | wake =>
    simp only [step] at hst
    split at hst
    · rename_i h
      split at hst
      · rename_i hdue
        cases hst
        exact .wake h hdue
      · cases hst
    · cases hst
  | publishReturns =>
    obtain ⟨ingestion, hingestion, hresume⟩ := Option.bind_eq_some_iff.mp hst
    rcases resume_eq_some hresume with ⟨hflusher, rfl⟩ | ⟨hflusher, hstopping, rfl⟩
    · exact .flusherReturns hingestion hflusher
    · exact .stopReturns hingestion hflusher hstopping
  | publishRaises =>
    obtain ⟨ingestion, hingestion, hresume⟩ := Option.bind_eq_some_iff.mp hst
    rcases resume_eq_some hresume with ⟨hflusher, rfl⟩ | ⟨hflusher, hstopping, rfl⟩
    · exact .flusherRaises hingestion hflusher
    · exact .stopRaises hingestion hflusher hstopping
  | stop =>
    simp only [step] at hst
    split at hst
    · rename_i hcalled
      split at hst
      · rename_i hflusher
        cases hst
        exact .stopAlone hcalled hflusher
      · rename_i hflusher
        cases hst
        exact .stopWaits hcalled hflusher
    · cases hst
  | awaited =>
    simp only [step] at hst
    split at hst
    · rename_i hwaiting
      split at hst
      · rename_i hflusher
        cases hst
        exact .awaited hwaiting hflusher
      · cases hst
    · cases hst
  | timeout =>
    simp only [step] at hst
    split at hst
    · rename_i hwaiting
      split at hst
      · rename_i hover
        cases hst
        exact .timeout hwaiting hover.1 hover.2
      · cases hst
    · cases hst

/-! ## The batch that is published -/

theorem takeBatch_eq (n : Nat) (queue : List α) :
    EventBuffer.takeBatch n queue = (queue.take n, queue.drop n) := by
  induction n generalizing queue with
  | zero => rfl
  | succ n ih =>
    cases queue with
    | nil => rfl
    | cons event queue => simp only [EventBuffer.takeBatch, ih, List.take_succ_cons, List.drop_succ_cons]

/-- A flush takes the first events out of the queue, and one batch waits if there are any. -/
theorem flush_spec (settings : Settings) (buffer : EventBuffer.State α)
    (hidle : buffer.publishing = []) :
    (EventBuffer.flush settings buffer).queue = buffer.queue.drop settings.bufferMaxBatch ∧
      ((EventBuffer.flush settings buffer).publishing = [] ∨
        ∃ batch, (EventBuffer.flush settings buffer).publishing = [batch]) := by
  unfold EventBuffer.flush
  simp only [takeBatch_eq]
  split
  · exact ⟨rfl, .inr ⟨_, by rw [hidle, List.nil_append]⟩⟩
  · rename_i hnone
    have htake : buffer.queue.take settings.bufferMaxBatch = [] := not_not.mp hnone
    have hdrop := List.take_append_drop settings.bufferMaxBatch buffer.queue
    rw [htake, List.nil_append] at hdrop
    exact ⟨hdrop.symm, .inl hidle⟩

/-- Whether somebody waits for the publisher. -/
def Publishes (s : LifecycleState α) : Prop := s.flusher = .publishing ∨ s.stopping = .publishing

/-- One batch waits while somebody publishes, and `stop` flushes after the flusher's end. -/
structure Engaged (s : LifecycleState α) : Prop where
  idle : ¬ Publishes s → publishing s = []
  busy : Publishes s → ∃ batch, publishing s = [batch]
  early : s.flusher ≠ .absent → s.flusher ≠ .finished →
    s.stopping = .notCalled ∨ ∃ deadline, s.stopping = .waiting deadline

section Engaged
variable {settings : Settings} {s t : LifecycleState α} {l : LifecycleLabel α}

/-- The publication that ends leaves nothing to be published. -/
theorem Engaged.published (h : Engaged s) (hbusy : Publishes s) {ingestion : IngestionState α}
    (hst : Ingestion.step settings s.ingestion (.publishReturns 0) = some ingestion ∨
      Ingestion.step settings s.ingestion (.publishRaises 0) = some ingestion) :
    ingestion.buffer.publishing = [] ∧ ingestion.buffer.queue = queue s := by
  obtain ⟨batch, hbatch⟩ := h.busy hbusy
  rcases hst with hst | hst
  · obtain ⟨_, _, rfl⟩ := Option.map_eq_some_iff.mp hst
    exact ⟨congrArg (fun batches => batches.eraseIdx 0) hbatch, rfl⟩
  · obtain ⟨_, _, rfl⟩ := Option.map_eq_some_iff.mp hst
    exact ⟨congrArg (fun batches => batches.eraseIdx 0) hbatch, rfl⟩

/-- The loop goes on with nothing to be published. -/
theorem engaged_loop (hidle : publishing s = [])
    (hearly : s.stopping = .notCalled ∨ ∃ deadline, s.stopping = .waiting deadline) :
    Engaged (loop settings s) := by
  have hnot : ¬ Publishes (loop settings s) := by
    unfold Publishes loop
    rcases hearly with h | ⟨deadline, h⟩ <;> split <;> simp [h]
  exact ⟨fun _ => hidle, fun h => absurd h hnot, fun _ _ => hearly⟩

theorem engaged_flushPeriodically (hidle : publishing s = [])
    (hearly : s.stopping = .notCalled ∨ ∃ deadline, s.stopping = .waiting deadline) :
    Engaged (flushPeriodically settings s) := by
  unfold flushPeriodically
  rcases (flush_spec settings s.ingestion.buffer hidle).2 with hnone | ⟨batch, hbatch⟩
  · have hempty : publishing (flush settings s) = [] := hnone
    simp only [hempty, List.isEmpty_nil, if_true]
    exact engaged_loop hempty hearly
  · have hone : publishing (flush settings s) = [batch] := hbatch
    simp only [hone, List.isEmpty_cons, Bool.false_eq_true, if_false]
    exact ⟨fun h => absurd (.inl rfl) h, fun _ => ⟨batch, hone⟩, fun _ _ => hearly⟩

theorem engaged_finalFlush (hidle : publishing s = [])
    (hended : s.flusher = .absent ∨ s.flusher = .finished) :
    Engaged (finalFlush settings s) := by
  have hnot : s.flusher ≠ .publishing := by
    rcases hended with h | h <;> simp [h]
  have hearly : s.flusher ≠ .absent → s.flusher ≠ .finished →
      (finalFlush settings s).stopping = .notCalled ∨
        ∃ deadline, (finalFlush settings s).stopping = .waiting deadline :=
    fun h h' => (hended.elim h h').elim
  rcases (flush_spec settings s.ingestion.buffer hidle).2 with hnone | ⟨batch, hbatch⟩
  · have hempty : publishing (flush settings s) = [] := hnone
    refine ⟨fun _ => hempty, fun h => ?_, hearly⟩
    rcases h with h | h
    · exact absurd h hnot
    · simp [finalFlush, hempty] at h
  · have hone : publishing (flush settings s) = [batch] := hbatch
    refine ⟨fun h => absurd (.inr ?_) h, fun _ => ⟨batch, hone⟩, hearly⟩
    simp [finalFlush, hone]

/-- An event that is submitted only joins the queue. -/
theorem submit_publishing {event : α} {ingestion : IngestionState α}
    (hst : Ingestion.step settings s.ingestion (.submit event) = some ingestion) :
    ingestion.buffer.publishing = publishing s := by
  simp only [Ingestion.step, EventBuffer.submit] at hst
  split at hst
  · rename_i hsubmit
    split at hsubmit
    · cases hsubmit
    · cases hsubmit
      cases hst
      rfl
  · cases hst
    rfl

theorem Engaged.flusherEnds (h : Engaged s) (hflusher : s.flusher = .publishing)
    {ingestion : IngestionState α}
    (hst : Ingestion.step settings s.ingestion (.publishReturns 0) = some ingestion ∨
      Ingestion.step settings s.ingestion (.publishRaises 0) = some ingestion) :
    Engaged (loop settings { s with ingestion }) :=
  engaged_loop (h.published (.inl hflusher) hst).1 (h.early (by simp [hflusher]) (by simp [hflusher]))

theorem Engaged.stopEnds (h : Engaged s) (hflusher : s.flusher ≠ .publishing)
    (hstopping : s.stopping = .publishing) {ingestion : IngestionState α}
    (hst : Ingestion.step settings s.ingestion (.publishReturns 0) = some ingestion ∨
      Ingestion.step settings s.ingestion (.publishRaises 0) = some ingestion) {ended : Stopping}
    (hended : ended = .returned ∨ ended = .raised) :
    Engaged { s with ingestion, stopping := ended } := by
  have hidle := (h.published (.inr hstopping) hst).1
  refine ⟨fun _ => hidle, fun hbusy => ?_, fun habsent hfinished => ?_⟩
  · rcases hbusy with hbusy | hbusy
    · exact absurd hbusy hflusher
    · rcases hended with rfl | rfl <;> cases hbusy
  · rcases h.early habsent hfinished with hcalled | ⟨deadline, hwaiting⟩
    · rw [hstopping] at hcalled
      cases hcalled
    · rw [hstopping] at hwaiting
      cases hwaiting

theorem Engaged.step (h : Engaged s) (hst : Lifecycle.step settings s l = some t) :
    Engaged t := by
  cases step_moved hst with
  | submit event hingestion =>
    have hsame := submit_publishing hingestion
    refine ⟨fun hnot => hsame.trans (h.idle hnot), fun hbusy => ?_, h.early⟩
    obtain ⟨batch, hbatch⟩ := h.busy hbusy
    exact ⟨batch, hsame.trans hbatch⟩
  | tick d => exact ⟨h.idle, h.busy, h.early⟩
  | start hflusher hstopping =>
    have hidle := h.idle (by simp [Publishes, hflusher, hstopping])
    exact ⟨fun _ => hidle, fun hbusy => by simp [Publishes, hstopping] at hbusy,
      fun _ _ => .inl hstopping⟩
  | begin hflusher =>
    have hearly := h.early (by simp [hflusher]) (by simp [hflusher])
    refine engaged_loop (h.idle ?_) hearly
    rcases hearly with hstopping | ⟨deadline, hstopping⟩ <;> simp [Publishes, hflusher, hstopping]
  | wake hflusher hdue =>
    have hearly := h.early (by simp [hflusher]) (by simp [hflusher])
    refine engaged_flushPeriodically (h.idle ?_) hearly
    rcases hearly with hstopping | ⟨deadline, hstopping⟩ <;> simp [Publishes, hflusher, hstopping]
  | flusherReturns hingestion hflusher => exact h.flusherEnds hflusher (.inl hingestion)
  | flusherRaises hingestion hflusher => exact h.flusherEnds hflusher (.inr hingestion)
  | stopReturns hingestion hflusher hstopping =>
    exact h.stopEnds hflusher hstopping (.inl hingestion) (.inl rfl)
  | stopRaises hingestion hflusher hstopping =>
    exact h.stopEnds hflusher hstopping (.inr hingestion) (.inr rfl)
  | stopAlone hcalled hflusher =>
    have hidle := h.idle (by simp [Publishes, hflusher, hcalled])
    exact engaged_finalFlush hidle (.inl hflusher)
  | stopWaits hcalled hflusher =>
    refine ⟨fun hnot => h.idle ?_, fun hbusy => h.busy ?_, fun _ _ => .inr ⟨_, rfl⟩⟩
    · simpa [Publishes, hcalled] using hnot
    · simpa [Publishes, hcalled] using hbusy
  | awaited hwaiting hflusher =>
    have hidle := h.idle (by simp [Publishes, hflusher, hwaiting])
    exact engaged_finalFlush hidle (.inr hflusher)
  | timeout hwaiting hover hflusher =>
    exact ⟨fun _ => rfl, fun hbusy => by simp [Publishes, hwaiting] at hbusy,
      fun _ hfinished => absurd rfl hfinished⟩

theorem run_engaged {ls : List (LifecycleLabel α)} (hrun : run settings ls = some s) :
    Engaged s := by
  refine Transition.run_invariant (fun _ _ _ h hst => h.step hst) ?_ hrun
  exact ⟨fun _ => rfl, fun h => by simp [Publishes] at h, fun h => absurd rfl h⟩

end Engaged

/-! ## Nothing is lost while the publisher succeeds -/

section Conserved
variable {settings : Settings} {s t : LifecycleState α} {l : LifecycleLabel α}

theorem conserved_flush (h : Ingestion.Conserved s.ingestion) :
    Ingestion.Conserved (flush settings s).ingestion :=
  h.step (l := .flush) id (Eq.refl (Ingestion.step settings s.ingestion .flush))

theorem conserved_step (h : Ingestion.Conserved s.ingestion) (hengaged : Engaged s)
    (hsucceeds : fails s l = false) (hst : step settings s l = some t) :
    Ingestion.Conserved t.ingestion := by
  cases step_moved hst with
  | submit event hingestion => exact h.step id hingestion
  | tick | start | begin | stopWaits => exact h
  | wake hflusher hdue =>
    unfold flushPeriodically
    dsimp only
    split <;> exact conserved_flush h
  | flusherReturns hingestion | stopReturns hingestion => exact h.step id hingestion
  | flusherRaises | stopRaises => cases hsucceeds
  | stopAlone => exact conserved_flush h
  | awaited => exact conserved_flush h
  | timeout hwaiting hover hflusher =>
    have hidle := hengaged.idle fun hbusy => by
      rcases hbusy with hbusy | hbusy
      · simp [fails, hbusy] at hsucceeds
      · simp [hwaiting] at hbusy
    unfold publishing at hidle
    rw [← hidle]
    exact h

theorem run_conserved {ls : List (LifecycleLabel α)} (hrun : run settings ls = some s)
    (hsucceeds : Transition.Along (step settings) (fun s l => fails s l = false) {} ls) :
    Ingestion.Conserved s.ingestion := by
  have hstart : Engaged ({} : LifecycleState α) ∧
      Ingestion.Conserved ({} : LifecycleState α).ingestion :=
    ⟨⟨fun _ => rfl, fun h => by simp [Publishes] at h, fun h => absurd rfl h⟩, List.Perm.refl _⟩
  have hstep : ∀ (s : LifecycleState α) l t, Engaged s ∧ Ingestion.Conserved s.ingestion →
      fails s l = false → step settings s l = some t → Engaged t ∧ Ingestion.Conserved t.ingestion :=
    fun _ _ _ h hl hst => ⟨h.1.step hst, conserved_step h.2 h.1 hl hst⟩
  exact (Transition.run_invariant_along hstep hstart hsucceeds hrun).2

end Conserved

/-! ## The drain -/

/-- What the flusher leaves in the queue, when it wakes or when it does not. -/
def afterWake (settings : Settings) (events : List α) (woken : Bool) : List α :=
  if woken then events.drop settings.bufferMaxBatch else events

/-- The call of `stop` found `events` in the queue, and nothing has been submitted since. -/
structure Draining (settings : Settings) (events : List α) (woken : Bool)
    (s : LifecycleState α) : Prop where
  stopped : s.running = false
  called : s.stopping ≠ .notCalled
  awake : woken = true → ∀ wakeAt, s.flusher ≠ .sleeping wakeAt
  waiting : ∀ deadline, s.stopping = .waiting deadline → queue s = afterWake settings events woken
  flushed : s.stopping = .publishing ∨ s.stopping = .returned →
    queue s = (afterWake settings events woken).drop settings.bufferMaxBatch

def isWake : LifecycleLabel α → Bool
  | .wake => true
  | _ => false

section Draining
variable {settings : Settings} {events : List α} {woken : Bool} {s t : LifecycleState α}
  {l : LifecycleLabel α}

theorem finalFlush_draining (hstopped : s.running = false)
    (hended : s.flusher = .absent ∨ s.flusher = .finished) (hidle : publishing s = [])
    (hqueue : queue s = afterWake settings events woken) :
    Draining settings events woken (finalFlush settings s) where
  stopped := hstopped
  called := by
    unfold finalFlush
    dsimp only
    split <;> simp
  awake _ wakeAt h := by
    have hsame : s.flusher = .sleeping wakeAt := h
    rcases hended with hended | hended <;> simp [hended] at hsame
  waiting deadline h := by
    unfold finalFlush at h
    dsimp only at h
    split at h <;> cases h
  flushed _ := by
    rw [← hqueue]
    exact (flush_spec settings s.ingestion.buffer hidle).1

/-- The flusher is at its loop, with nothing left to do. -/
theorem Draining.loop (h : Draining settings events woken s) {ingestion : IngestionState α}
    (hqueue : ingestion.buffer.queue = queue s) :
    Draining settings events woken (loop settings { s with ingestion }) where
  stopped := h.stopped
  called := h.called
  awake _ wakeAt := by simp [Lifecycle.loop, h.stopped]
  waiting deadline hwaiting := hqueue.trans (h.waiting deadline hwaiting)
  flushed hended := hqueue.trans (h.flushed hended)

/-- The flusher wakes once at most. -/
theorem Draining.wake (h : Draining settings events woken s) (hengaged : Engaged s) {wakeAt : Nat}
    (hflusher : s.flusher = .sleeping wakeAt) :
    Draining settings events true (flushPeriodically settings s) := by
  have hasleep : woken = false := by
    cases woken with
    | false => rfl
    | true => exact absurd hflusher (h.awake rfl wakeAt)
  subst hasleep
  obtain ⟨deadline, hwaiting⟩ : ∃ deadline, s.stopping = .waiting deadline :=
    (hengaged.early (by simp [hflusher]) (by simp [hflusher])).resolve_left h.called
  have hidle := hengaged.idle (by simp [Publishes, hflusher, hwaiting])
  have hqueue : queue (flush settings s) = afterWake settings events true := by
    have hbefore : queue s = events := h.waiting deadline hwaiting
    calc
      queue (flush settings s) = (queue s).drop settings.bufferMaxBatch :=
        (flush_spec settings s.ingestion.buffer hidle).1
      _ = afterWake settings events true := by rw [hbefore, afterWake, if_pos rfl]
  have hnotEnded : ¬ (s.stopping = .publishing ∨ s.stopping = .returned) := by simp [hwaiting]
  unfold flushPeriodically
  dsimp only
  split
  · refine ⟨h.stopped, h.called, fun _ wakeAt => ?_, fun _ _ => hqueue, fun h => absurd h hnotEnded⟩
    simp [Lifecycle.loop, flush, h.stopped]
  · exact ⟨h.stopped, h.called, fun _ wakeAt => by simp, fun _ _ => hqueue,
      fun h => absurd h hnotEnded⟩

theorem Draining.other (h : Draining settings events woken s) (hengaged : Engaged s)
    (hsubmit : ∀ event, l ≠ .submit event) (hwake : isWake l = false)
    (hst : Lifecycle.step settings s l = some t) : Draining settings events woken t := by
  cases step_moved hst with
  | submit event => exact absurd rfl (hsubmit event)
  | wake => cases hwake
  | start _ hstopping => exact absurd hstopping h.called
  | stopAlone hcalled | stopWaits hcalled => exact absurd hcalled h.called
  | tick d => exact ⟨h.stopped, h.called, h.awake, h.waiting, h.flushed⟩
  | begin hflusher => exact h.loop rfl
  | flusherReturns hingestion hflusher =>
    exact h.loop (hengaged.published (.inl hflusher) (.inl hingestion)).2
  | flusherRaises hingestion hflusher =>
    exact h.loop (hengaged.published (.inl hflusher) (.inr hingestion)).2
  | stopReturns hingestion hflusher hstopping =>
    have hqueue := (hengaged.published (.inr hstopping) (.inl hingestion)).2
    refine ⟨h.stopped, by simp, h.awake, fun _ hwaiting => ?_, fun _ => ?_⟩
    · cases hwaiting
    · exact hqueue.trans (h.flushed (.inl hstopping))
  | stopRaises hingestion hflusher hstopping =>
    refine ⟨h.stopped, by simp, h.awake, fun _ hwaiting => ?_, fun hended => ?_⟩
    · cases hwaiting
    · rcases hended with hended | hended <;> cases hended
  | awaited hwaiting hflusher =>
    have hidle := hengaged.idle (by simp [Publishes, hflusher, hwaiting])
    exact finalFlush_draining h.stopped (.inr hflusher) hidle (h.waiting _ hwaiting)
  | timeout hwaiting hover hflusher =>
    exact ⟨h.stopped, h.called, fun _ wakeAt => by simp, h.waiting, h.flushed⟩

theorem Draining.step (h : Draining settings events woken s) (hengaged : Engaged s)
    (hsubmit : ∀ event, l ≠ .submit event) (hst : Lifecycle.step settings s l = some t) :
    Draining settings events (woken || isWake l) t := by
  cases hwake : isWake l with
  | false =>
    rw [Bool.or_false]
    exact h.other hengaged hsubmit hwake hst
  | true =>
    rw [Bool.or_true]
    cases step_moved hst with
    | wake hflusher hdue => exact h.wake hengaged hflusher
    | _ => cases hwake

/-- From the call of `stop` on. -/
theorem stop_draining (hengaged : Engaged s) (hst : Lifecycle.step settings s .stop = some t) :
    Draining settings (queue s) false t := by
  cases step_moved hst with
  | stopAlone hcalled hflusher =>
    have hidle := hengaged.idle (by simp [Publishes, hflusher, hcalled])
    exact finalFlush_draining rfl (.inl hflusher) hidle rfl
  | stopWaits hcalled hflusher =>
    refine ⟨rfl, by simp, fun h => ?_, fun _ _ => rfl, fun hended => ?_⟩
    · cases h
    · rcases hended with hended | hended <;> cases hended

theorem run_draining {ls : List (LifecycleLabel α)} (h : Draining settings events woken s)
    (hengaged : Engaged s) (hsubmit : ∀ event, .submit event ∉ ls)
    (hrun : Transition.run (Lifecycle.step settings) s ls = some t) :
    Draining settings events (woken || ls.any isWake) t := by
  induction ls generalizing s woken with
  | nil =>
    cases hrun
    simpa using h
  | cons l ls ih =>
    obtain ⟨s', hst, hrest⟩ := Transition.run_cons_eq_some.mp hrun
    have hfirst : ∀ event, l ≠ .submit event := by
      intro event heq
      exact hsubmit event (heq ▸ List.mem_cons_self)
    have hnext := ih (h.step hengaged hfirst hst) (hengaged.step hst)
      (fun event hmem => hsubmit event (List.mem_cons_of_mem _ hmem)) hrest
    rwa [Bool.or_assoc] at hnext

end Draining

/-- Nothing is left in the queue, and what has been accepted is in the stream. -/
def Drained (s : LifecycleState α) : Prop :=
  queue s = [] ∧ s.ingestion.accepted.Perm s.ingestion.stream

/-- `stop` drains the buffer exactly when the queue fits into the flushes that are still
made: the last one, and one more when the flusher was asleep and wakes in time. A publication
that the time limit of `stop` cancels counts as failed. -/
theorem stop_drains_iff {settings : Settings} {us vs : List (LifecycleLabel α)}
    {s t : LifecycleState α} (hbefore : run settings us = some s)
    (hstop : Transition.run (step settings) s (.stop :: vs) = some t)
    (hsucceeds : Transition.Along (step settings) (fun s l => fails s l = false) {} (us ++ .stop :: vs))
    (hsubmit : ∀ event, .submit event ∉ vs) (hreturned : t.stopping = .returned) :
    Drained t ↔ (queue s).length ≤ settings.bufferMaxBatch ∨
      ((queue s).length ≤ 2 * settings.bufferMaxBatch ∧ vs.any isWake = true) := by
  have hrun : run settings (us ++ .stop :: vs) = some t :=
    Transition.run_append_eq_some.mpr ⟨s, hbefore, hstop⟩
  have hengaged := run_engaged hbefore
  obtain ⟨s', hst, hrest⟩ := Transition.run_cons_eq_some.mp hstop
  have hdraining := run_draining (stop_draining hengaged hst) (hengaged.step hst) hsubmit hrest
  have hqueue := hdraining.flushed (.inr hreturned)
  have hlength : queue t = [] ↔ (queue s).length ≤ settings.bufferMaxBatch ∨
      ((queue s).length ≤ 2 * settings.bufferMaxBatch ∧ vs.any isWake = true) := by
    rw [hqueue, List.drop_eq_nil_iff, Bool.false_or, afterWake]
    split
    · rename_i hwoken
      simp only [List.length_drop, hwoken, and_true]
      omega
    · rename_i hasleep
      simp [hasleep]
  have hconserved := run_conserved hrun hsucceeds
  have hidle : publishing t = [] := (run_engaged hrun).idle fun hbusy => by
    rcases hbusy with hbusy | hbusy
    · have hearly := (run_engaged hrun).early (by simp [hbusy]) (by simp [hbusy])
      simp [hreturned] at hearly
    · simp [hreturned] at hbusy
  rw [← hlength]
  refine ⟨fun h => h.1, fun hempty => ⟨hempty, ?_⟩⟩
  unfold queue at hempty
  unfold publishing at hidle
  simpa [Ingestion.Conserved, Ingestion.places, hempty, hidle] using hconserved

/-! ## A flusher that is asleep -/

def oneEach : Settings := { bufferMaxBatch := 1 }

/-- The flusher sleeps and the events wait. -/
def asleep (events : List String) : List (LifecycleLabel String) :=
  [.start, .begin] ++ events.map .submit

/-- The flusher wakes once more and ends. -/
def draining : List (LifecycleLabel String) :=
  [.tick 5000, .wake, .publishReturns, .awaited, .publishReturns]

def twoEvents : List String := ["evt-00000001", "evt-00000002"]

def threeEvents : List String := "evt-00000000" :: twoEvents

theorem stop_drains_twoEvents : Drained
    ((Transition.run (step oneEach) ((run oneEach (asleep twoEvents)).get (by decide))
      (.stop :: draining)).get (by decide)) :=
  (@stop_drains_iff _ _ (asleep twoEvents) draining _ _ (Option.some_get _).symm
    (Option.some_get _).symm (by decide) (by simp [draining]) (by decide)).mpr (by decide)

/-- One event stays in the queue. -/
theorem stop_leaves : ¬ ∀ (settings : Settings) (us vs : List (LifecycleLabel String))
    (s t : LifecycleState String), run settings us = some s →
    Transition.run (step settings) s (.stop :: vs) = some t →
    Transition.Along (step settings) (fun s l => fails s l = false) {} (us ++ .stop :: vs) →
    (∀ event, .submit event ∉ vs) → t.stopping = .returned → Drained t := by
  intro hall
  have hbefore := (Option.some_get (x := run oneEach (asleep threeEvents)) (by decide)).symm
  have hdrained := hall oneEach (asleep threeEvents) draining _
    ((Transition.run (step oneEach) _ (.stop :: draining)).get (by decide)) hbefore
    (Option.some_get _).symm (by decide) (by simp [draining]) (by decide)
  have hqueue := hdrained.1
  revert hqueue
  decide

end Lifecycle

end EcommerceIntegration
