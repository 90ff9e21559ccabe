import EcommerceIntegration.Dispatch.Finality

/-!
# The lock columns of the outbox

Whoever marks or releases a row, and in whatever order, the two columns of the lock are
set while the row is IN_FLIGHT and at no other time. So no row gets stuck.
-/

namespace EcommerceIntegration

set_option autoImplicit false

structure OutboxMessage.LocksMatch (m : OutboxMessage) : Prop where
  held : m.lockedBy.isSome = true ∧ m.lockedAt.isSome = true ↔ m.status = .inFlight
  free : m.status ≠ .inFlight → m.lockedBy = none ∧ m.lockedAt = none

/-- The row is final, or a claim can take it once its time has come, or a release returns
it once its lock is old. -/
def OutboxTable.NotStuck (rows : OutboxTable) (m : OutboxMessage) : Prop :=
  m.status = .sent ∨ m.status = .dlq ∨
    (m.status = .pending ∧ ∀ workerId now picked, m.nextAttemptAt ≤ now → m.outboxId ∈ picked →
      get (OutboxReader.claim workerId now picked rows).1 m.outboxId =
        some (OutboxReader.claimRow workerId now m)) ∨
    (m.status = .inFlight ∧ ∃ lockedAt, m.lockedAt = some lockedAt ∧
      ∀ now, lockedAt < now - OutboxReader.staleLockSeconds * 1000000 →
        get (OutboxReader.releaseAbandoned now rows) m.outboxId =
            some (OutboxReader.releaseRow m) ∧
          (OutboxReader.releaseRow m).status = .pending)

namespace OutboxMessage.LocksMatch
variable {m : OutboxMessage}

theorem of_free (hstatus : m.status ≠ .inFlight) (hby : m.lockedBy = none)
    (hat : m.lockedAt = none) : m.LocksMatch where
  held := by
    constructor
    · rintro ⟨hsome, _⟩
      rw [hby] at hsome
      cases hsome
    · intro heq
      exact absurd heq hstatus
  free := fun _ => ⟨hby, hat⟩

theorem of_isNew (h : m.isNew = true) : m.LocksMatch := by
  simp only [isNew, Bool.and_eq_true, beq_iff_eq] at h
  obtain ⟨⟨⟨⟨⟨hstatus, _⟩, hby⟩, hat⟩, _⟩, _⟩ := h
  refine of_free ?_ hby hat
  rw [hstatus]
  decide

theorem claimRow (workerId : String) (now : Time) :
    (OutboxReader.claimRow workerId now m).LocksMatch where
  held := ⟨fun _ => rfl, fun _ => ⟨rfl, rfl⟩⟩
  free := fun hne => absurd rfl hne

theorem releaseRow : (OutboxReader.releaseRow m).LocksMatch :=
  of_free (by simp [OutboxReader.releaseRow]) rfl rfl

theorem verdictRow (verdict : Verdict) (now : Time) (delay : Nat) :
    (verdict.row now delay m).LocksMatch := by
  cases verdict with
  | sent => exact of_free (by simp [Verdict.row, OutboxRepository.sentRow]) rfl rfl
  | retry error => exact of_free (by simp [Verdict.row, OutboxRepository.retryRow]) rfl rfl
  | deadLetter error =>
    exact of_free (by simp [Verdict.row, OutboxRepository.deadLetterRow]) rfl rfl

/-- Each statement sets both columns together with the status. -/
theorem rowAfter (h : m.LocksMatch) (b : Board) (a : Action) : (b.rowAfter m a).LocksMatch := by
  cases a with
  | enqueue | post | answer | drop => exact h
  | release now =>
    simp only [Board.rowAfter]
    split
    · exact releaseRow
    · exact h
  | claim worker workerId now picked =>
    simp only [Board.rowAfter]
    split
    · exact claimRow workerId now
    · exact h
  | mark t now delay =>
    simp only [Board.rowAfter]
    split
    · split
      · exact verdictRow _ now delay
      · exact h
    · exact h

end OutboxMessage.LocksMatch

namespace Board

structure LocksMatch (b : Board) : Prop where
  wellFormed : b.WellFormed
  rows : ∀ m ∈ b.outbox, m.LocksMatch

theorem LocksMatch.act {b b' : Board} {a : Action} (hb : b.LocksMatch) (h : b.act a = some b') :
    b'.LocksMatch := by
  have hwf := hb.wellFormed.act h
  refine ⟨hwf, fun m hm => ?_⟩
  have hget := OutboxTable.get_of_mem hwf.ids hm
  rw [get_act h, Option.or_eq_some_iff] at hget
  rcases hget with hold | ⟨_, hnew⟩
  · obtain ⟨m₀, hm₀, rfl⟩ := Option.map_eq_some_iff.mp hold
    exact (hb.rows m₀ (OutboxTable.mem_of_get hm₀)).rowAfter b a
  · cases a with
    | enqueue new =>
      obtain ⟨hisNew, _, _⟩ := act_enqueue h
      simp only [Action.inserted] at hnew
      split at hnew
      · cases hnew
        exact .of_isNew hisNew
      · cases hnew
    | release | claim | post | answer | mark | drop => cases hnew

theorem LocksMatch.notStuck {b : Board} (hb : b.LocksMatch) {m : OutboxMessage}
    (hm : m ∈ b.outbox) : OutboxTable.NotStuck b.outbox m := by
  have hget := OutboxTable.get_of_mem hb.wellFormed.ids hm
  cases hstatus : m.status with
  | sent => exact .inl hstatus
  | dlq => exact .inr (.inl hstatus)
  | pending =>
    refine .inr (.inr (.inl ⟨hstatus, fun workerId now picked hdue hpicked => ?_⟩))
    have htaken : OutboxReader.taken now picked m = true := by
      simp [OutboxReader.taken, OutboxReader.claimable, hstatus, hdue, hpicked]
    rw [OutboxTable.get_claim, hget, Option.map_some, if_pos htaken]
  | inFlight =>
    obtain ⟨_, hsome⟩ := (hb.rows m hm).held.mpr hstatus
    obtain ⟨lockedAt, hat⟩ := Option.isSome_iff_exists.mp hsome
    refine .inr (.inr (.inr ⟨hstatus, lockedAt, hat, fun now hold => ⟨?_, rfl⟩⟩))
    have hstale : OutboxReader.stale now m = true := by
      simp [OutboxReader.stale, hstatus, hat, hold]
    rw [OutboxTable.get_releaseAbandoned, hget, Option.map_some, if_pos hstale]

end Board

namespace DispatchState

/-- In every reachable state the lock columns say what the status says, and no row is
stuck. -/
theorem outbox_locksMatch {settings : Settings} {clock : Time} {ls : List DispatchLabel}
    {s : DispatchState} (hrun : (initial clock).run settings ls = some s) :
    ∀ m ∈ s.board.outbox, m.LocksMatch ∧ OutboxTable.NotStuck s.board.outbox m := by
  have hs : s.board.LocksMatch :=
    board_invariant (Q := fun _ _ => True) (fun _ _ _ hb _ hact => hb.act hact)
      ⟨Board.WellFormed.empty, fun m hm => by cases hm⟩
      (Transition.along_iff.mpr fun _ _ _ _ _ _ _ _ => trivial) hrun
  exact fun m hm => ⟨hs.rows m hm, hs.notStuck hm⟩

/-- The mark of the worker that was overtaken is written last. -/
theorem outbox_locksMatch_overtaken : ∃ s, (Sample.after {} (Sample.overtaken ++ Sample.late)) =
    some s ∧ ∀ m ∈ s.board.outbox, m.LocksMatch ∧ OutboxTable.NotStuck s.board.outbox m :=
  have hsome : (Sample.after {} (Sample.overtaken ++ Sample.late)).isSome = true := by
    decide +kernel
  ⟨_, Sample.after_run hsome, outbox_locksMatch (Sample.after_run hsome)⟩

end DispatchState

end EcommerceIntegration
