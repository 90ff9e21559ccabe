import EcommerceIntegration.Dispatch.Board

/-!
# Dispatch workers

Every worker goes through its loop on the shared board. A task outlives a worker that
has failed until it is lost.
-/

namespace EcommerceIntegration

set_option autoImplicit false

/-- Where a worker is in the body of `_poll_until_stopped`. -/
inductive Phase
  | polling
  | releasing
  | claiming
  | gathering
  deriving DecidableEq

structure Worker where
  workerId : String
  cycle : Nat := 0
  phase : Phase := .polling

structure DispatchState where
  board : Board := {}
  clock : Time := 0
  workers : Nat → Option Worker := fun _ => none
  started : Nat := 0

inductive DispatchLabel
  | enqueue (m : OutboxMessage)
  | start (workerId : String)
  | poll (w : Nat)
  | stop (w : Nat)
  | release (w : Nat)
  | claim (w : Nat) (picked : List Nat)
  | post (t : Nat)
  | reply (t : Nat) (result : HttpResult)
  /-- `readAt` is what `utcnow()` gave before the statement was sent, and `u` the random number
  for the backoff -/
  | mark (t : Nat) (readAt : Time) (u : ℚ)
  /-- the transaction of the mark raises -/
  | markFails (t : Nat)
  /-- `gather` returns -/
  | gathered (w : Nat)
  | die (w : Nat)
  /-- a task of a worker that is gone does not go on -/
  | lose (t : Nat)
  | tick (d : Nat)

namespace DispatchState

def setWorker (s : DispatchState) (w : Nat) (worker : Option Worker) : DispatchState :=
  { s with workers := Function.update s.workers w worker }

/-- The worker, if it is in that phase. -/
def inPhase (s : DispatchState) (w : Nat) (phase : Phase) : Option Worker :=
  (s.workers w).filter fun worker => worker.phase == phase

def taskItem (s : DispatchState) (t : Nat) : Option OutboxItem := (s.board.tasks t).map Task.item

/-- An exception in a task ends the loop of its worker. -/
def failTask (s : DispatchState) (t : Nat) : DispatchState :=
  match s.board.tasks t with
  | some task => s.setWorker task.worker none
  | none => s

/-- What the step does to the board, if anything. -/
def action (settings : Settings) (s : DispatchState) : DispatchLabel → Option Action
  | .enqueue m => some (.enqueue m)
  | .release _ => some (.release s.clock)
  | .claim w picked => (s.workers w).map fun worker => .claim w worker.workerId s.clock picked
  | .post t => some (.post t)
  | .reply t result =>
    (s.taskItem t).map fun item =>
      match DispatchWorker.dispatch settings item (ErpClient.sendOrder result) with
      | .ok verdict => .answer t verdict
      | .error _ => .drop t
  | .mark t readAt u =>
    match s.board.tasks t with
    | some ⟨_, item, .answered verdict⟩ =>
      (DispatchWorker.markDelay settings item readAt u verdict).map (.mark t readAt)
    | _ => none
  | .markFails t | .lose t => some (.drop t)
  | .start _ | .poll _ | .stop _ | .gathered _ | .die _ | .tick _ => none

def claimedNow (s : DispatchState) (picked : List Nat) : List OutboxMessage :=
  s.board.outbox.filter (OutboxReader.taken s.clock picked)

def hasTask (s : DispatchState) (w : Nat) : Bool :=
  (List.range s.board.created).any fun t => (s.board.tasks t).any (·.worker == w)

/-- The worker's own state after the step; `none` where it does not take the step now. -/
def control (settings : Settings) (s : DispatchState) : DispatchLabel → Option DispatchState
  | .enqueue _ | .post _ => some s
  | .start workerId => some
      { s.setWorker s.started (some { workerId }) with started := s.started + 1 }
  | .poll w => (s.inPhase w .polling).map fun worker =>
      let cycle := worker.cycle + 1
      let phase :=
        if cycle % DispatchWorker.releaseStaleEveryNCycles = 0 then .releasing else .claiming
      s.setWorker w (some { worker with cycle, phase })
  | .stop w => (s.inPhase w .polling).map fun _ => s.setWorker w none
  | .release w => (s.inPhase w .releasing).map fun worker =>
      s.setWorker w (some { worker with phase := .claiming })
  | .claim w picked => (s.inPhase w .claiming).bind fun worker =>
      let rows := s.claimedNow picked
      if rows.length ≤ settings.dispatchBatchSize then
        some (s.setWorker w (some { worker with phase := if rows = [] then .polling else .gathering }))
      else none
  | .reply t result =>
    match s.board.tasks t with
    | some ⟨_, item, .posted⟩ =>
      match DispatchWorker.dispatch settings item (ErpClient.sendOrder result) with
      | .ok _ => some s
      | .error _ => some (s.failTask t)
    | _ => none
  | .mark t readAt u =>
    match s.board.tasks t with
    | some ⟨_, item, .answered verdict⟩ =>
      if readAt ≤ s.clock ∧ 0 ≤ u ∧ u ≤ 1 ∧
          (DispatchWorker.markDelay settings item readAt u verdict).isSome then some s
      else none
    | _ => none
  | .markFails t =>
    match s.board.tasks t with
    | some ⟨_, _, .answered _⟩ => some (s.failTask t)
    | _ => none
  | .gathered w => (s.inPhase w .gathering).bind fun worker =>
      if s.hasTask w then none else some (s.setWorker w (some { worker with phase := .polling }))
  | .die w => (s.workers w).map fun _ => s.setWorker w none
  | .lose t => (s.board.tasks t).bind fun task =>
      if (s.workers task.worker).isNone then some s else none
  | .tick d => some { s with clock := s.clock + d }

def step (settings : Settings) (s : DispatchState) (l : DispatchLabel) : Option DispatchState :=
  (s.control settings l).bind fun s' =>
    match s.action settings l with
    | some a => (s.board.act a).map fun board => { s' with board }
    | none => some s'

/-! ## What a step does to the board -/

variable {settings : Settings} {s t : DispatchState} {l : DispatchLabel}

theorem action_mark {k : Nat} {readAt : Time} {u : ℚ} {a : Action}
    (h : s.action settings (.mark k readAt u) = some a) : ∃ worker item verdict delay,
    s.board.tasks k = some ⟨worker, item, .answered verdict⟩ ∧
      DispatchWorker.markDelay settings item readAt u verdict = some delay ∧
        a = .mark k readAt delay := by
  simp only [action] at h
  split at h
  · rename_i worker item verdict hk
    obtain ⟨delay, hdelay, rfl⟩ := Option.map_eq_some_iff.mp h
    exact ⟨worker, item, verdict, delay, hk, hdelay, rfl⟩
  · cases h

/-- Only a message that is inserted comes into the table. -/
theorem enqueue_of_action {m : OutboxMessage} (h : s.action settings l = some (.enqueue m)) :
    l = .enqueue m := by
  cases l with
  | enqueue m' =>
    cases h
    rfl
  | release | post | markFails | lose | start | poll | stop | gathered | die | tick => cases h
  | claim w picked =>
    obtain ⟨_, _, heq⟩ := Option.map_eq_some_iff.mp h
    cases heq
  | reply k result =>
    obtain ⟨item, _, heq⟩ := Option.map_eq_some_iff.mp h
    split at heq <;> cases heq
  | mark k readAt u =>
    obtain ⟨_, _, _, _, _, _, heq⟩ := action_mark h
    cases heq

theorem failTask_board (s : DispatchState) (k : Nat) : (s.failTask k).board = s.board := by
  unfold failTask
  split <;> rfl

/-- The loop of a worker is not on the board. -/
theorem control_board (h : s.control settings l = some t) : t.board = s.board := by
  cases l with
  | enqueue | start | post | tick =>
    cases h
    rfl
  | poll | stop | release | die =>
    obtain ⟨_, _, rfl⟩ := Option.map_eq_some_iff.mp h
    rfl
  | claim w picked =>
    obtain ⟨worker, _, h⟩ := Option.bind_eq_some_iff.mp h
    dsimp only at h
    split at h
    · cases h
      rfl
    · cases h
  | reply k result =>
    simp only [control] at h
    split at h
    · split at h
      · cases h
        rfl
      · cases h
        exact failTask_board s k
    · cases h
  | mark k readAt u =>
    simp only [control] at h
    split at h
    · split at h
      · cases h
        rfl
      · cases h
    · cases h
  | markFails k =>
    simp only [control] at h
    split at h
    · cases h
      exact failTask_board s k
    · cases h
  | gathered w =>
    obtain ⟨worker, _, h⟩ := Option.bind_eq_some_iff.mp h
    split at h
    · cases h
    · cases h
      rfl
  | lose k =>
    obtain ⟨task, _, h⟩ := Option.bind_eq_some_iff.mp h
    split at h
    · cases h
      rfl
    · cases h

theorem step_board (h : s.step settings l = some t) :
    (∃ a, s.action settings l = some a ∧ s.board.act a = some t.board) ∨
      s.action settings l = none ∧ t.board = s.board := by
  obtain ⟨s', hcontrol, h⟩ := Option.bind_eq_some_iff.mp h
  split at h
  · rename_i a ha
    obtain ⟨board, hact, rfl⟩ := Option.map_eq_some_iff.mp h
    exact .inl ⟨a, ha, hact⟩
  · rename_i ha
    cases h
    exact .inr ⟨ha, control_board hcontrol⟩

/-- The action of the step, if it has one, is taken where `Q` holds. -/
def OnAction (settings : Settings) (Q : Board → Action → Prop) (s : DispatchState)
    (l : DispatchLabel) : Prop :=
  ∀ a ∈ s.action settings l, Q s.board a

instance (settings : Settings) (Q : Board → Action → Prop) [∀ b a, Decidable (Q b a)]
    (s : DispatchState) (l : DispatchLabel) : Decidable (OnAction settings Q s l) :=
  inferInstanceAs (Decidable (∀ a ∈ s.action settings l, Q s.board a))

/-- An empty table and no worker. -/
def initial (clock : Time) : DispatchState := { clock }

def run (settings : Settings) (s : DispatchState) (ls : List DispatchLabel) :
    Option DispatchState :=
  Transition.run (step settings) s ls

variable {ls : List DispatchLabel} {Q : Board → Action → Prop}

theorem board_relates {R : Board → Board → Prop} (hrefl : ∀ b, R b b)
    (htrans : ∀ {a b c}, R a b → R b c → R a c)
    (hact : ∀ b a b', Q b a → b.act a = some b' → R b b')
    (hQ : Transition.Along (step settings) (OnAction settings Q) s ls)
    (hrun : s.run settings ls = some t) : R s.board t.board := by
  refine Transition.run_relates_along (R := fun s t => R s.board t.board) (fun s => hrefl _)
    htrans (fun s l t hq hst => ?_) hQ hrun
  rcases step_board hst with ⟨a, ha, hb⟩ | ⟨_, heq⟩
  · exact hact _ a _ (hq a ha) hb
  · exact heq ▸ hrefl _

theorem board_invariant {Inv : Board → Prop}
    (hact : ∀ b a b', Inv b → Q b a → b.act a = some b' → Inv b') (hs : Inv s.board)
    (hQ : Transition.Along (step settings) (OnAction settings Q) s ls)
    (hrun : s.run settings ls = some t) : Inv t.board := by
  have hstep : ∀ (s : DispatchState) l t, Inv s.board → OnAction settings Q s l →
      step settings s l = some t → Inv t.board := by
    intro s l t hi hq hst
    rcases step_board hst with ⟨a, ha, hb⟩ | ⟨_, heq⟩
    · exact hact _ a _ hi (hq a ha) hb
    · exact heq ▸ hi
  exact Transition.run_invariant_along hstep hs hQ hrun

theorem wellFormed_run {clock : Time} (hrun : (initial clock).run settings ls = some t) :
    t.board.WellFormed :=
  board_invariant (Q := fun _ _ => True) (fun _ _ _ hb _ hact => hb.act hact) Board.WellFormed.empty
    (Transition.along_iff.mpr fun _ _ _ _ _ _ _ _ => trivial) hrun

end DispatchState

end EcommerceIntegration
