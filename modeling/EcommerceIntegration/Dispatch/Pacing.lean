import EcommerceIntegration.Dispatch.Attempts

/-!
# How fast a row is attempted

Workers may overtake each other, and the limit on the attempts fails. But a row comes back
to PENDING with a time that the backoff has put off, or after its lock has grown old. So
its attempts need time, whoever makes them. A worker reads the clock before it sends the
mark, and what passes in between shortens the backoff.
-/

namespace EcommerceIntegration

set_option autoImplicit false

/-- The least time between two claims of a row, when a mark is written at most `lag` after
its clock was read. -/
def Settings.pace (settings : Settings) (lag : Nat) : Nat :=
  min (timedelta settings.dispatchBackoffBaseSeconds - lag) (OutboxReader.staleLockSeconds * 1000000)

def Settings.paces (settings : Settings) (lag n : Nat) : Time :=
  ((n * settings.pace lag : Nat) : Int)

theorem Settings.paces_succ (settings : Settings) (lag n : Nat) :
    settings.paces lag (n + 1) = settings.paces lag n + settings.pace lag := by
  simp only [paces, Nat.succ_mul, Int.natCast_add]

theorem Settings.paces_le (settings : Settings) (lag : Nat) {m n : Nat} (h : m ≤ n) :
    settings.paces lag m ≤ settings.paces lag n :=
  Int.ofNat_le.mpr (Nat.mul_le_mul_right _ h)

/-- Counted from `counted` attempts at the time `start` on, the next attempt at the row is not
earlier than one pace after each that it has had. -/
structure OutboxMessage.Paced (settings : Settings) (lag : Nat) (start : Time) (counted : Nat)
    (now : Time) (m : OutboxMessage) : Prop where
  recent : start + settings.paces lag m.attempts ≤ now + settings.paces lag (counted + 1)
  pending : m.status = .pending →
    start + settings.paces lag m.attempts ≤ max m.nextAttemptAt now + settings.paces lag counted
  inFlight : m.status = .inFlight → ∀ t ∈ m.lockedAt,
    start + settings.paces lag m.attempts ≤
      max (t + settings.pace lag) now + settings.paces lag counted

namespace OutboxMessage.Paced
variable {settings : Settings} {lag : Nat} {start now : Time} {counted : Nat} {m : OutboxMessage}

/-- A row of which no attempt is counted. -/
theorem found (hattempts : m.attempts ≤ counted) (hle : start ≤ now) :
    m.Paced settings lag start counted now := by
  have hbefore := settings.paces_le lag hattempts
  have hnext := settings.paces_succ lag counted
  refine ⟨?_, fun _ => ?_, fun _ t _ => ?_⟩ <;> lia

theorem mono {later : Time} (h : m.Paced settings lag start counted now) (hle : now ≤ later) :
    m.Paced settings lag start counted later where
  recent := by
    have hrecent := h.recent
    lia
  pending hstatus := by
    have hpending := h.pending hstatus
    lia
  inFlight hstatus t ht := by
    have hinFlight := h.inFlight hstatus t ht
    lia

theorem claimRow (h : m.Paced settings lag start counted now) (workerId : String)
    (hclaimable : OutboxReader.claimable now m = true) :
    (OutboxReader.claimRow workerId now m).Paced settings lag start counted now := by
  simp only [OutboxReader.claimable, Bool.and_eq_true, beq_iff_eq, decide_eq_true_eq] at hclaimable
  obtain ⟨hpending, hdue⟩ := hclaimable
  have hnext := h.pending hpending
  have hattempts : settings.paces lag (OutboxReader.claimRow workerId now m).attempts =
      settings.paces lag m.attempts + settings.pace lag := settings.paces_succ lag m.attempts
  have hcounted := settings.paces_succ lag counted
  refine ⟨?_, fun hstatus => ?_, fun _ t ht => ?_⟩
  · lia
  · cases hstatus
  · obtain rfl := Option.some.inj ht
    lia

theorem releaseRow (h : m.Paced settings lag start counted now)
    (hstale : OutboxReader.stale now m = true) :
    (OutboxReader.releaseRow m).Paced settings lag start counted now := by
  simp only [OutboxReader.stale, Bool.and_eq_true, beq_iff_eq] at hstale
  obtain ⟨hinFlight, hold⟩ := hstale
  cases hlockedAt : m.lockedAt with
  | none =>
    rw [hlockedAt] at hold
    cases hold
  | some t =>
    have hlt : t < now - OutboxReader.staleLockSeconds * 1000000 := by simpa [hlockedAt] using hold
    have hlocked := h.inFlight hinFlight t (Option.mem_def.mpr hlockedAt)
    have hpace : settings.pace lag ≤ OutboxReader.staleLockSeconds * 1000000 := Nat.min_le_right _ _
    refine ⟨h.recent, fun _ => ?_, fun hstatus => ?_⟩
    · have hpassed : t + settings.pace lag ≤ now := by lia
      have hattempts : settings.paces lag (OutboxReader.releaseRow m).attempts =
          settings.paces lag m.attempts := rfl
      lia
    · cases hstatus

/-- A verdict other than a retry takes the row out of the claims; a retry puts it off. -/
theorem verdictRow (h : m.Paced settings lag start counted now) {verdict : Verdict}
    {readAt : Time} {delay : Nat} (hread : now ≤ readAt + lag)
    (hdelay : ∀ error, verdict = .retry error →
      timedelta settings.dispatchBackoffBaseSeconds ≤ delay) :
    (verdict.row readAt delay m).Paced settings lag start counted now := by
  have hrecent := h.recent
  have hcounted := settings.paces_succ lag counted
  refine ⟨by simpa using hrecent, fun hstatus => ?_, fun hstatus => ?_⟩
  · cases verdict with
    | sent | deadLetter => simp [Verdict.status] at hstatus
    | retry error =>
      have hpace : settings.pace lag ≤ delay - lag :=
        (Nat.min_le_left _ _).trans (Nat.sub_le_sub_right (hdelay error rfl) lag)
      have hnext : (Verdict.row (.retry error) readAt delay m).nextAttemptAt = readAt + delay := rfl
      have hputOff : now + settings.pace lag ≤ max (readAt + delay) now := by lia
      rw [Verdict.row_attempts, hnext]
      lia
  · cases verdict <;> simp [Verdict.status] at hstatus

end OutboxMessage.Paced

/-! ## Actions at their time -/

/-- The action is taken at the time `now`, a mark with a reading that is not older than `lag`,
and a retry is put off by the backoff. -/
inductive Board.Timed (settings : Settings) (lag : Nat) (now : Time) (b : Board) : Action → Prop
  | enqueue (m : OutboxMessage) : Timed settings lag now b (.enqueue m)
  | release : Timed settings lag now b (.release now)
  | claim (worker : Nat) (workerId : String) (picked : List Nat) :
    Timed settings lag now b (.claim worker workerId now picked)
  | post (t : Nat) : Timed settings lag now b (.post t)
  | answer (t : Nat) (verdict : Verdict) : Timed settings lag now b (.answer t verdict)
  | mark (t : Nat) (readAt : Time) (delay : Nat) (hread : now ≤ readAt + lag)
    (hdelay : ∀ worker item error, b.tasks t = some ⟨worker, item, .answered (.retry error)⟩ →
      timedelta settings.dispatchBackoffBaseSeconds ≤ delay) :
    Timed settings lag now b (.mark t readAt delay)
  | drop (t : Nat) : Timed settings lag now b (.drop t)

theorem OutboxMessage.Paced.rowAfter {settings : Settings} {lag : Nat} {start now : Time}
    {counted : Nat} {m : OutboxMessage} {b : Board} {a : Action}
    (h : m.Paced settings lag start counted now) (ha : b.Timed settings lag now a) :
    (b.rowAfter m a).Paced settings lag start counted now := by
  cases ha with
  | enqueue | post | answer | drop => exact h
  | release =>
    simp only [Board.rowAfter]
    split
    · rename_i hstale
      exact h.releaseRow hstale
    · exact h
  | claim worker workerId picked =>
    simp only [Board.rowAfter]
    split
    · rename_i htaken
      exact h.claimRow workerId (Bool.and_eq_true_iff.mp htaken).1
    · exact h
  | mark t readAt delay hread hdelay =>
    simp only [Board.rowAfter]
    split
    · rename_i worker item verdict ht
      split
      · exact h.verdictRow hread fun error heq => hdelay worker item error (heq ▸ ht)
      · exact h
    · exact h

namespace DispatchState
variable {settings : Settings} {s t : DispatchState} {l : DispatchLabel}

theorem failTask_clock (s : DispatchState) (k : Nat) : s.clock ≤ (s.failTask k).clock := by
  unfold failTask
  split <;> exact Int.le_refl _

theorem control_clock (h : s.control settings l = some t) : s.clock ≤ t.clock := by
  cases l with
  | enqueue | start | post =>
    cases h
    exact Int.le_refl _
  | tick d =>
    cases h
    exact Int.le_add_of_nonneg_right (Int.natCast_nonneg d)
  | poll | stop | release | die =>
    obtain ⟨_, _, rfl⟩ := Option.map_eq_some_iff.mp h
    exact Int.le_refl _
  | claim w picked =>
    obtain ⟨worker, _, h⟩ := Option.bind_eq_some_iff.mp h
    dsimp only at h
    split at h
    · cases h
      exact Int.le_refl _
    · cases h
  | reply k result =>
    simp only [control] at h
    split at h
    · split at h
      · cases h
        exact Int.le_refl _
      · cases h
        exact failTask_clock s k
    · cases h
  | mark k readAt u =>
    simp only [control] at h
    split at h
    · split at h
      · cases h
        exact Int.le_refl _
      · cases h
    · cases h
  | markFails k =>
    simp only [control] at h
    split at h
    · cases h
      exact failTask_clock s k
    · cases h
  | gathered w =>
    obtain ⟨worker, _, h⟩ := Option.bind_eq_some_iff.mp h
    split at h
    · cases h
    · cases h
      exact Int.le_refl _
  | lose k =>
    obtain ⟨task, _, h⟩ := Option.bind_eq_some_iff.mp h
    split at h
    · cases h
      exact Int.le_refl _
    · cases h

theorem step_clock (h : s.step settings l = some t) : s.clock ≤ t.clock := by
  obtain ⟨s', hcontrol, h⟩ := Option.bind_eq_some_iff.mp h
  have hle := control_clock hcontrol
  split at h
  · obtain ⟨board, _, rfl⟩ := Option.map_eq_some_iff.mp h
    exact hle
  · cases h
    exact hle

/-- Every mark is written at most `lag` after the worker read the clock for it. -/
def Prompt (lag : Nat) (s : DispatchState) : DispatchLabel → Prop
  | .mark _ readAt _ => s.clock ≤ readAt + lag
  | _ => True

instance (lag : Nat) (s : DispatchState) (l : DispatchLabel) : Decidable (Prompt lag s l) :=
  match l with
  | .mark _ readAt _ => inferInstanceAs (Decidable (s.clock ≤ readAt + lag))
  | .enqueue _ | .start _ | .poll _ | .stop _ | .release _ | .claim .. | .post _ | .reply ..
  | .markFails _ | .gathered _ | .die _ | .lose _ | .tick _ => .isTrue trivial

/-- A retry is put off at least by the base of the backoff. -/
theorem mark_action {k : Nat} {readAt : Time} {u : ℚ} {a : Action}
    (h : s.step settings (.mark k readAt u) = some t)
    (ha : s.action settings (.mark k readAt u) = some a) :
    ∃ delay, a = .mark k readAt delay ∧ ∀ worker item error,
      s.board.tasks k = some ⟨worker, item, .answered (.retry error)⟩ →
        timedelta settings.dispatchBackoffBaseSeconds ≤ delay := by
  obtain ⟨s', hcontrol, _⟩ := Option.bind_eq_some_iff.mp h
  obtain ⟨worker, item, verdict, delay, hk, hdelay, rfl⟩ := action_mark ha
  refine ⟨delay, rfl, fun worker' item' error hk' => ?_⟩
  cases hk.symm.trans hk'
  simp only [control, hk] at hcontrol
  split at hcontrol
  · rename_i hguard
    obtain ⟨seconds, hseconds, rfl, _⟩ := DispatchWorker.retryDelay_eq_some.mp hdelay
    exact timedelta_mono (backoffDelay_bounds hseconds hguard.2.1 hguard.2.2.1).1
  · cases hcontrol

theorem action_timed {lag : Nat} {a : Action} (hprompt : Prompt lag s l)
    (h : s.step settings l = some t) (ha : s.action settings l = some a) :
    s.board.Timed settings lag s.clock a := by
  cases l with
  | enqueue | release | post | markFails | lose =>
    cases ha
    constructor
  | claim w picked =>
    obtain ⟨worker, _, rfl⟩ := Option.map_eq_some_iff.mp ha
    exact .claim w worker.workerId picked
  | reply k result =>
    obtain ⟨item, _, rfl⟩ := Option.map_eq_some_iff.mp ha
    split
    · exact .answer k _
    · exact .drop k
  | mark k readAt u =>
    obtain ⟨delay, rfl, hdelay⟩ := mark_action h ha
    exact .mark k readAt delay hprompt hdelay
  | start | poll | stop | gathered | die | tick => cases ha

/-! ## The attempts of a run -/

def attemptsAt (s : DispatchState) (outboxId : Nat) : Nat :=
  ((OutboxTable.get s.board.outbox outboxId).map OutboxMessage.attempts).getD 0

/-- Every row is paced from the state `s₀` on. -/
structure Paced (settings : Settings) (lag : Nat) (s₀ s : DispatchState) : Prop where
  wellFormed : s.board.WellFormed
  clock : s₀.clock ≤ s.clock
  rows : ∀ m ∈ s.board.outbox, m.Paced settings lag s₀.clock (s₀.attemptsAt m.outboxId) s.clock

variable {lag : Nat}

theorem Paced.self (hs : s.board.WellFormed) : Paced settings lag s s where
  wellFormed := hs
  clock := Int.le_refl _
  rows m hm := by
    have hcounted : s.attemptsAt m.outboxId = m.attempts := by
      simp [attemptsAt, OutboxTable.get_of_mem hs.ids hm]
    exact .found (Nat.le_of_eq hcounted.symm) (Int.le_refl _)

theorem Paced.step {s₀ : DispatchState} (hs : Paced settings lag s₀ s) (hprompt : Prompt lag s l)
    (hst : s.step settings l = some t) : Paced settings lag s₀ t := by
  have hclock := step_clock hst
  have hlater : s₀.clock ≤ t.clock := Int.le_trans hs.clock hclock
  rcases step_board hst with ⟨a, ha, hact⟩ | ⟨_, heq⟩
  · have hwf := hs.wellFormed.act hact
    refine ⟨hwf, hlater, fun m hm => ?_⟩
    rcases Board.row_of_act hact (OutboxTable.get_of_mem hwf.ids hm) with ⟨m₀, hm₀, heq⟩ | ⟨_, hnew⟩
    · have hid := OutboxTable.id_of_get hm₀
      have hrow :=
        (hs.rows m₀ (OutboxTable.mem_of_get hm₀)).rowAfter (action_timed hprompt hst ha)
      rw [hid, ← heq] at hrow
      exact hrow.mono hclock
    · refine .found ?_ hlater
      rw [Board.attempts_of_isNew hnew]
      exact Nat.zero_le _
  · refine ⟨heq ▸ hs.wellFormed, hlater, fun m hm => ?_⟩
    exact (hs.rows m (heq ▸ hm)).mono hclock

theorem Paced.run {s₀ : DispatchState} {ls : List DispatchLabel} (hs : s₀.board.WellFormed)
    (hprompt : Transition.Along (DispatchState.step settings) (Prompt lag) s₀ ls)
    (hrun : s₀.run settings ls = some s) : Paced settings lag s₀ s :=
  Transition.run_invariant_along (fun _ _ _ hs hl hst => hs.step hl hst) (Paced.self hs) hprompt hrun

/-- In any stretch of any run with prompt marks, a row has at most one attempt more than there
is time for, and since the start no more requests for it were sent. -/
theorem attempts_paced {clock : Time} {ls ls' : List DispatchLabel}
    (hprompt : Transition.Along (step settings) (Prompt lag) (initial clock) (ls ++ ls'))
    (hs : (initial clock).run settings ls = some s) (hrun : s.run settings ls' = some t)
    {m : OutboxMessage} (hm : m ∈ t.board.outbox) :
    settings.paces lag m.attempts ≤
        settings.paces lag (s.attemptsAt m.outboxId + 1) + (t.clock - s.clock) ∧
      settings.paces lag (t.board.posts m.outboxId) ≤
        settings.paces lag 1 + (t.clock - clock) := by
  have hstretch := Paced.run (wellFormed_run hs) ((Transition.along_append hprompt).2 s hs) hrun
  have hwhole : (initial clock).run settings (ls ++ ls') = some t :=
    Transition.run_append_eq_some.mpr ⟨s, hs, hrun⟩
  have hall : Paced settings lag (initial clock) t :=
    Paced.run Board.WellFormed.empty hprompt hwhole
  constructor
  · have hrecent := (hstretch.rows m hm).recent
    lia
  · have hrecent : clock + settings.paces lag m.attempts ≤ t.clock + settings.paces lag 1 :=
      (hall.rows m hm).recent
    have hposts := settings.paces_le lag ((numbered_run hwhole).posts_le hm)
    lia

/-! ## A mark that is written late -/

namespace Sample

/-- The statement is sent 200 ms after the clock was read, and the row is due 800 ms later. -/
def retried : List DispatchLabel :=
  [.enqueue message, .start "a", .poll 0, .claim 0 [1], .post 0, .reply 0 (.timeout ""),
    .tick 200000, .mark 0 0 0, .gathered 0, .tick 800000, .poll 0, .claim 0 [1]]

end Sample

theorem attempts_paced_retried :
    ∃ m ∈ ((Sample.after {} Sample.retried).get (by decide +kernel)).board.outbox,
      m.attempts = 2 ∧ Settings.paces {} 200000 2 ≤ Settings.paces {} 200000 1 +
        ((Sample.after {} Sample.retried).get (by decide +kernel)).clock := by
  have hrun := Sample.after_run
    (by decide +kernel : (Sample.after {} Sample.retried).isSome = true)
  have htwo : ∃ m ∈ ((Sample.after {} Sample.retried).get (by decide +kernel)).board.outbox,
      m.attempts = 2 := by decide +kernel
  obtain ⟨m, hm, hattempts⟩ := htwo
  have hprompt : Transition.Along (step {}) (Prompt 200000) (initial 0) ([] ++ Sample.retried) := by
    decide +kernel
  have hnow : (initial 0).run {} [] = some (initial 0) := rfl
  obtain ⟨hpaced, _⟩ := attempts_paced hprompt hnow hrun hm
  have hnone : (initial 0).attemptsAt m.outboxId = 0 := rfl
  have hclock : (initial 0).clock = 0 := rfl
  rw [hattempts, hnone, hclock, Int.sub_zero] at hpaced
  exact ⟨m, hm, hattempts, hpaced⟩

end DispatchState

end EcommerceIntegration
