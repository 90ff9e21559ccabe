import EcommerceIntegration.Dispatch.Finality
import Mathlib.Data.List.Perm.Subperm

/-!
# The attempts of an outbox row

The counter grows with every claim, and is compared with the limit only after a temporary
error of the ERP. Rows also come back to PENDING when they are released.
-/

namespace EcommerceIntegration

set_option autoImplicit false

namespace Board

/-- How often the message has been sent to the ERP. -/
def posts (b : Board) (outboxId : Nat) : Nat :=
  b.requests.countP fun r => r.item.outboxId == outboxId

/-! ## Every request has a claim of its own -/

/-- The row of an item, and which of its claims the item is from. -/
def claimNumber (item : OutboxItem) : Nat × Nat := (item.outboxId, item.attempts)

/-- The claim of the item is one that the row has counted. -/
def Counted (b : Board) (item : OutboxItem) : Prop :=
  ∃ m, OutboxTable.get b.outbox item.outboxId = some m ∧
    1 ≤ item.attempts ∧ item.attempts ≤ m.attempts

structure Numbered (b : Board) : Prop where
  wellFormed : b.WellFormed
  task : ∀ t task, b.tasks t = some task → b.Counted task.item
  request : ∀ r ∈ b.requests, b.Counted r.item
  once : ∀ t t' task task', b.tasks t = some task → b.tasks t' = some task' →
    claimNumber task.item = claimNumber task'.item → t = t'
  unsent : ∀ t task, b.tasks t = some task → task.stage = .claimed →
    ∀ r ∈ b.requests, claimNumber r.item ≠ claimNumber task.item
  posted : (b.requests.map fun r => claimNumber r.item).Nodup

section Act
variable {b b' : Board} {a : Action}

theorem attempts_rowAfter (b : Board) (m : OutboxMessage) (a : Action) :
    m.attempts ≤ (b.rowAfter m a).attempts := by
  cases a with
  | release now =>
    simp only [rowAfter]
    split <;> exact Nat.le_refl _
  | claim worker workerId now picked =>
    simp only [rowAfter]
    split
    · exact Nat.le_succ _
    · exact Nat.le_refl _
  | mark t now delay =>
    simp only [rowAfter]
    split
    · split <;> simp
    · exact Nat.le_refl _
  | enqueue | post | answer | drop => exact Nat.le_refl _

theorem Counted.act {item : OutboxItem} (hc : b.Counted item) (h : b.act a = some b') :
    b'.Counted item := by
  obtain ⟨m, hm, hone, hle⟩ := hc
  exact ⟨_, get_act_of_some h hm, hone, hle.trans (attempts_rowAfter b m a)⟩

/-- A claim has a number that the row has not had. -/
theorem Counted.ne_taken {item : OutboxItem} (hc : b.Counted item) {m : OutboxMessage}
    (hm : OutboxTable.get b.outbox m.outboxId = some m) (workerId : String) (now : Time) :
    claimNumber item ≠ claimNumber (OutboxReader.toItem (OutboxReader.claimRow workerId now m)) := by
  intro heq
  obtain ⟨hid, hattempts⟩ := Prod.mk.inj heq
  obtain ⟨m', hm', _, hle⟩ := hc
  rw [hid] at hm'
  obtain rfl := Option.some.inj (hm.symm.trans hm')
  simp only [OutboxReader.toItem, OutboxReader.claimRow] at hattempts
  omega

theorem Numbered.task_act (hb : b.Numbered) (h : b.act a = some b') {t : Nat} {task : Task}
    (ht : b'.tasks t = some task) : b'.Counted task.item := by
  rcases task_of_act h ht with ⟨old, hold, hitem, _⟩ | ⟨_, _, _, _, m, rfl, _, hm, rfl⟩
  · exact hitem ▸ (hb.task t old hold).act h
  · obtain ⟨hget, htaken⟩ := get_of_taken hb.wellFormed hm
    refine ⟨_, get_act_of_some h hget, Nat.le_add_left 1 _, ?_⟩
    simp [rowAfter, htaken, OutboxReader.toItem]

theorem Numbered.once_act (hb : b.Numbered) (h : b.act a = some b') {t t' : Nat}
    {task task' : Task} (ht : b'.tasks t = some task) (ht' : b'.tasks t' = some task')
    (hnumber : claimNumber task.item = claimNumber task'.item) : t = t' := by
  rcases task_of_act h ht with ⟨old, hold, hitem, _⟩ | ⟨_, _, _, _, m, rfl, hle, hm, rfl⟩
  · rcases task_of_act h ht' with ⟨old', hold', hitem', _⟩ | ⟨_, _, _, _, m', rfl, _, hm', rfl⟩
    · exact hb.once t t' old old' hold hold' (by rw [← hitem, ← hitem', hnumber])
    · have hget := (get_of_taken hb.wellFormed hm').1
      exact absurd (hitem ▸ hnumber) ((hb.task t old hold).ne_taken hget _ _)
  · rcases task_of_act h ht' with ⟨old', hold', hitem', _⟩ | ⟨_, _, _, _, m', heq, hle', hm', rfl⟩
    · have hget := (get_of_taken hb.wellFormed hm).1
      exact absurd (hitem' ▸ hnumber.symm) ((hb.task t' old' hold').ne_taken hget _ _)
    · cases heq
      have := taken_unique hb.wellFormed hm hm' (Prod.mk.inj hnumber).1
      omega

theorem Numbered.unsent_act (hb : b.Numbered) (h : b.act a = some b') {t : Nat} {task : Task}
    (ht : b'.tasks t = some task) (hclaimed : task.stage = .claimed) :
    ∀ r ∈ b'.requests, claimNumber r.item ≠ claimNumber task.item := by
  rcases task_of_act h ht with ⟨old, hold, _, hsame⟩ | ⟨_, _, _, _, m, rfl, _, hm, rfl⟩
  · obtain rfl := hsame hclaimed
    rcases requests_act h with heq | ⟨k, worker, item, rfl, hk, heq⟩
    · exact heq ▸ hb.unsent t old hold hclaimed
    · -- the request that is sent now is of another task
      intro r hr
      rw [heq] at hr
      rcases List.mem_append.mp hr with hr | hr
      · exact hb.unsent t old hold hclaimed r hr
      · obtain rfl := List.mem_singleton.mp hr
        intro hnumber
        obtain rfl := hb.once k t _ old hk hold hnumber
        obtain ⟨_, _, _, rfl⟩ := act_post h
        simp only [setTask, Function.update_self, Option.some.injEq] at ht
        rw [← ht] at hclaimed
        cases hclaimed
  · cases h
    exact fun r hr => (hb.request r hr).ne_taken (get_of_taken hb.wellFormed hm).1 _ _

theorem Numbered.act (hb : b.Numbered) (h : b.act a = some b') : b'.Numbered where
  wellFormed := hb.wellFormed.act h
  task _ _ ht := hb.task_act h ht
  request := by
    intro r hr
    rcases requests_act h with heq | ⟨t, worker, item, rfl, ht, heq⟩
    · exact (hb.request r (heq ▸ hr)).act h
    · rw [heq] at hr
      rcases List.mem_append.mp hr with hr | hr
      · exact (hb.request r hr).act h
      · obtain rfl := List.mem_singleton.mp hr
        exact (hb.task t _ ht).act h
  once _ _ _ _ ht ht' hnumber := hb.once_act h ht ht' hnumber
  unsent _ _ ht hclaimed := hb.unsent_act h ht hclaimed
  posted := by
    rcases requests_act h with heq | ⟨t, worker, item, rfl, ht, heq⟩
    · exact heq ▸ hb.posted
    · rw [heq, List.map_append, List.nodup_append]
      refine ⟨hb.posted, List.nodup_singleton _, fun x hx y hy => ?_⟩
      obtain ⟨r, hr, rfl⟩ := List.mem_map.mp hx
      obtain rfl := List.mem_singleton.mp hy
      exact hb.unsent t _ ht rfl r hr

theorem Numbered.empty : Numbered {} := by
  refine ⟨WellFormed.empty, ?_, ?_, ?_, ?_, List.nodup_nil⟩
  · intro t task ht
    cases ht
  · intro r hr
    cases hr
  · intro t t' task task' ht
    cases ht
  · intro t task ht
    cases ht

/-- Every POST of a message has counted as an attempt. -/
theorem Numbered.posts_le (hb : b.Numbered) {m : OutboxMessage} (hm : m ∈ b.outbox) :
    b.posts m.outboxId ≤ m.attempts := by
  let mine := b.requests.filter fun r => r.item.outboxId == m.outboxId
  have hnodup : (mine.map fun r => r.item.attempts).Nodup := by
    have hpairs : (mine.map fun r => claimNumber r.item).Nodup :=
      hb.posted.sublist (List.filter_sublist.map _)
    rw [List.nodup_map_iff_inj_on (List.Nodup.of_map _ hpairs)]
    intro r hr r' hr' heq
    have hid : r.item.outboxId = m.outboxId := by simpa using (List.mem_filter.mp hr).2
    have hid' : r'.item.outboxId = m.outboxId := by simpa using (List.mem_filter.mp hr').2
    exact List.inj_on_of_nodup_map hpairs hr hr' (Prod.ext (hid.trans hid'.symm) heq)
  have hrange : (mine.map fun r => r.item.attempts) ⊆ List.range' 1 m.attempts := by
    intro k hk
    obtain ⟨r, hr, rfl⟩ := List.mem_map.mp hk
    obtain ⟨hmem, hid⟩ := List.mem_filter.mp hr
    obtain ⟨m', hm', hone, hle⟩ := hb.request r hmem
    rw [show r.item.outboxId = m.outboxId by simpa using hid,
      OutboxTable.get_of_mem hb.wellFormed.ids hm] at hm'
    obtain rfl := Option.some.inj hm'
    rw [List.mem_range'_1]
    omega
  have hlength := (List.subperm_of_subset hnodup hrange).length_le
  simpa [posts, List.countP_eq_length_filter, mine] using hlength

end Act

/-! ## The limit -/

/-- No row is over the limit, by its counter or by what was sent to the ERP. -/
def Bounded (settings : Settings) (b : Board) : Prop :=
  ∀ m ∈ b.outbox, m.attempts ≤ settings.dispatchMaxAttempts ∧
    b.posts m.outboxId ≤ settings.dispatchMaxAttempts

/-- The rows that a claim takes have an attempt left. -/
def ClaimsBelowLimit (settings : Settings) (b : Board) : Action → Prop
  | .claim _ _ now picked =>
    ∀ m ∈ b.outbox, OutboxReader.taken now picked m = true →
      m.attempts < settings.dispatchMaxAttempts
  | _ => True

instance (settings : Settings) (b : Board) : (a : Action) → Decidable (ClaimsBelowLimit settings b a)
  | .claim _ _ now picked =>
    inferInstanceAs (Decidable (∀ m ∈ b.outbox, OutboxReader.taken now picked m = true →
      m.attempts < settings.dispatchMaxAttempts))
  | .enqueue _ | .release _ | .post _ | .answer .. | .mark .. | .drop _ => .isTrue trivial

/-- A row comes to PENDING, or back to it, with an attempt left. -/
def ReturnsBelowLimit (settings : Settings) (b : Board) : Action → Prop
  | .enqueue m => m.attempts < settings.dispatchMaxAttempts
  | .release now =>
    ∀ m ∈ b.outbox, OutboxReader.stale now m = true → m.attempts < settings.dispatchMaxAttempts
  | .mark t _ _ =>
    ∀ worker item error, b.tasks t = some ⟨worker, item, .answered (.retry error)⟩ →
      ∀ m ∈ OutboxTable.get b.outbox item.outboxId, m.attempts < settings.dispatchMaxAttempts
  | _ => True

section Limit
variable {settings : Settings} {b b' : Board} {a : Action}

/-- Where every row comes from. -/
theorem row_of_act (h : b.act a = some b') {id : Nat} {m' : OutboxMessage}
    (hm' : OutboxTable.get b'.outbox id = some m') :
    (∃ m, OutboxTable.get b.outbox id = some m ∧ m' = b.rowAfter m a) ∨
      a = .enqueue m' ∧ m'.isNew = true := by
  rw [get_act h] at hm'
  rcases Option.or_eq_some_iff.mp hm' with hold | ⟨_, hnew⟩
  · obtain ⟨m, hm, heq⟩ := Option.map_eq_some_iff.mp hold
    exact .inl ⟨m, hm, heq.symm⟩
  · cases a with
    | enqueue m =>
      simp only [Action.inserted] at hnew
      split at hnew
      · cases hnew
        exact .inr ⟨rfl, (act_enqueue h).1⟩
      · cases hnew
    | release | claim | post | answer | mark | drop => cases hnew

theorem attempts_of_isNew {m : OutboxMessage} (h : m.isNew = true) : m.attempts = 0 := by
  simp only [OutboxMessage.isNew, Bool.and_eq_true, beq_iff_eq] at h
  exact h.1.1.1.1.2

/-- Only a claim counts. -/
theorem attempts_le_act (hb : ∀ id m, OutboxTable.get b.outbox id = some m →
      m.attempts ≤ settings.dispatchMaxAttempts)
    (hclaim : ClaimsBelowLimit settings b a) (h : b.act a = some b') {id : Nat}
    {m' : OutboxMessage} (hm' : OutboxTable.get b'.outbox id = some m') :
    m'.attempts ≤ settings.dispatchMaxAttempts := by
  rcases row_of_act h hm' with ⟨m, hm, rfl⟩ | ⟨rfl, hnew⟩
  · have hle := hb id m hm
    cases a with
    | claim worker workerId now picked =>
      simp only [rowAfter]
      split
      · rename_i htaken
        exact hclaim m (OutboxTable.mem_of_get hm) htaken
      · exact hle
    | release now =>
      simp only [rowAfter]
      split <;> exact hle
    | mark t now delay =>
      simp only [rowAfter]
      split
      · split <;> simpa using hle
      · exact hle
    | enqueue | post | answer | drop => exact hle
  · rw [attempts_of_isNew hnew]
    exact Nat.zero_le _

/-- A PENDING row has an attempt left. -/
def PendingBelow (settings : Settings) (b : Board) : Prop :=
  ∀ id m, OutboxTable.get b.outbox id = some m → m.status = .pending →
    m.attempts < settings.dispatchMaxAttempts

theorem PendingBelow.act (hb : b.PendingBelow settings) (hreturn : ReturnsBelowLimit settings b a)
    (h : b.act a = some b') : b'.PendingBelow settings := by
  intro id m' hm' hpending
  rcases row_of_act h hm' with ⟨m, hm, rfl⟩ | ⟨rfl, _⟩
  · cases a with
    | claim worker workerId now picked =>
      simp only [rowAfter] at hpending ⊢
      split at hpending
      · cases hpending
      · rename_i hnot
        rw [if_neg hnot]
        exact hb id m hm hpending
    | release now =>
      simp only [rowAfter] at hpending ⊢
      split
      · rename_i hstale
        exact hreturn m (OutboxTable.mem_of_get hm) hstale
      · rename_i hnot
        rw [if_neg hnot] at hpending
        exact hb id m hm hpending
    | mark t now delay =>
      obtain ⟨worker, item, verdict, ht, _⟩ := act_mark h
      simp only [rowAfter, ht] at hpending ⊢
      split
      · rename_i hid
        rw [if_pos hid, Verdict.row_status] at hpending
        rw [Verdict.row_attempts]
        cases verdict with
        | retry error =>
          refine hreturn worker item error ht m ?_
          rw [← hid, OutboxTable.id_of_get hm]
          exact hm
        | sent | deadLetter => cases hpending
      · rename_i hid
        rw [if_neg hid] at hpending
        exact hb id m hm hpending
    | enqueue | post | answer | drop => exact hb id m hm hpending
  · exact hreturn

theorem PendingBelow.claims (hb : b.PendingBelow settings) (hwf : b.WellFormed) (a : Action) :
    ClaimsBelowLimit settings b a := by
  cases a with
  | claim worker workerId now picked =>
    intro m hm htaken
    refine hb m.outboxId m (OutboxTable.get_of_mem hwf.ids hm) ?_
    simp only [OutboxReader.taken, OutboxReader.claimable, Bool.and_eq_true, beq_iff_eq] at htaken
    exact htaken.1.1
  | enqueue | release | post | answer | mark | drop => trivial

/-- A claim beyond the limit leaves a row that is over it. -/
theorem claimsBelow_of_bounded (hwf : b.WellFormed) (h : b.act a = some b')
    (hb : b'.Bounded settings) : ClaimsBelowLimit settings b a := by
  cases a with
  | claim worker workerId now picked =>
    intro m hm htaken
    have hafter := get_act_of_some h (OutboxTable.get_of_mem hwf.ids hm)
    have hle := (hb _ (OutboxTable.mem_of_get hafter)).1
    simp only [rowAfter, htaken, if_true, OutboxReader.claimRow] at hle
    exact hle
  | enqueue | release | post | answer | mark | drop => trivial

end Limit

end Board

namespace DispatchState

variable {settings : Settings} {clock : Time} {ls : List DispatchLabel} {s : DispatchState}

/-- Every state of the run is within the limit. -/
def StaysBounded (settings : Settings) (clock : Time) (ls : List DispatchLabel) : Prop :=
  ∀ ks t, ks <+: ls → (initial clock).run settings ks = some t → t.board.Bounded settings

theorem numbered_run (hrun : (initial clock).run settings ls = some s) : s.board.Numbered :=
  board_invariant (Q := fun _ _ => True) (fun _ _ _ (hb : Board.Numbered _) _ hact => hb.act hact)
    Board.Numbered.empty (Transition.along_iff.mpr fun _ _ _ _ _ _ _ _ => trivial) hrun

theorem bounded_of_claims (hrun : (initial clock).run settings ls = some s)
    (hclaims : Transition.Along (step settings) (OnAction settings (Board.ClaimsBelowLimit settings))
      (initial clock) ls) : s.board.Bounded settings := by
  have hb := numbered_run hrun
  have hle : ∀ id m, OutboxTable.get s.board.outbox id = some m →
      m.attempts ≤ settings.dispatchMaxAttempts := by
    have hact : ∀ (b : Board) a b', (∀ id m, OutboxTable.get b.outbox id = some m →
          m.attempts ≤ settings.dispatchMaxAttempts) →
        Board.ClaimsBelowLimit settings b a → b.act a = some b' →
        ∀ id m, OutboxTable.get b'.outbox id = some m →
          m.attempts ≤ settings.dispatchMaxAttempts :=
      fun b a b' hb hq hact id m hm => Board.attempts_le_act hb hq hact hm
    refine board_invariant hact ?_ hclaims hrun
    intro id m hm
    cases hm
  intro m hm
  have hattempts := hle m.outboxId m (OutboxTable.get_of_mem hb.wellFormed.ids hm)
  exact ⟨hattempts, (hb.posts_le hm).trans hattempts⟩

theorem claimsBelow_of_returns
    (hreturns : Transition.Along (step settings)
      (OnAction settings (Board.ReturnsBelowLimit settings)) (initial clock) ls) :
    Transition.Along (step settings) (OnAction settings (Board.ClaimsBelowLimit settings))
      (initial clock) ls := by
  rw [Transition.along_iff]
  rintro ks l ms t rfl hks a _
  refine Board.PendingBelow.claims ?_ (wellFormed_run hks) a
  refine board_invariant (fun _ _ _ (hb : Board.PendingBelow settings _) hq hact => hb.act hq hact)
    ?_ (Transition.along_append hreturns).1 hks
  intro id m hm
  cases hm

/-- The limit holds in every state exactly in the runs in which no claim takes a row that
has used up its attempts; so it does where no such row comes back to PENDING. -/
theorem attempts_bounded_iff (hrun : (initial clock).run settings ls = some s) :
    (StaysBounded settings clock ls ↔
      Transition.Along (step settings) (OnAction settings (Board.ClaimsBelowLimit settings))
        (initial clock) ls) ∧
    (Transition.Along (step settings) (OnAction settings (Board.ReturnsBelowLimit settings))
        (initial clock) ls →
      Transition.Along (step settings) (OnAction settings (Board.ClaimsBelowLimit settings))
        (initial clock) ls) := by
  refine ⟨⟨fun hbounded => ?_, fun hclaims ks t hpre hks => ?_⟩, claimsBelow_of_returns⟩
  · rw [Transition.along_iff]
    rintro ks l ms t rfl hks a ha
    obtain ⟨t₁, ht₁, hrest⟩ := Transition.run_append_eq_some.mp hrun
    obtain rfl := Option.some.inj (hks.symm.trans ht₁)
    obtain ⟨t', hst, _⟩ := Transition.run_cons_eq_some.mp hrest
    have hafter := hbounded (ks ++ [l]) t' ⟨ms, by simp⟩
      (Transition.run_concat_eq_some.mpr ⟨t, hks, hst⟩)
    rcases step_board hst with ⟨a', ha', hact⟩ | ⟨hnone, _⟩
    · obtain rfl := Option.some.inj (ha.symm.trans ha')
      exact Board.claimsBelow_of_bounded (wellFormed_run hks) hact hafter
    · rw [Option.mem_def, hnone] at ha
      cases ha
  · obtain ⟨later, rfl⟩ := hpre
    exact bounded_of_claims hks (Transition.along_append hclaims).1

/-! ## A message that takes every worker down -/

namespace Sample

/-- The worker claims the message in its 60th cycle, after the release, and dies. -/
def claimAndDie (w : Nat) : List DispatchLabel :=
  [.tick 121000000, .start "w"] ++ idle w 59 ++
    [.poll w, .release w, .claim w [1], .die w, .lose w]

def crashLoop : List DispatchLabel :=
  .enqueue message :: (List.range 6).flatMap claimAndDie

end Sample

/-- The row comes back to PENDING below its limit and is claimed again. -/
theorem attempts_bounded_overtaken : StaysBounded {} 0 Sample.overtaken :=
  (attempts_bounded_iff (Sample.after_run (by decide +kernel))).1.mpr (by decide +kernel)

theorem attempts_exceeded :
    ¬ ∀ settings clock ls s, (initial clock).run settings ls = some s →
      StaysBounded settings clock ls := by
  intro hall
  have hrun := Sample.after_run
    (by decide +kernel : (Sample.after {} Sample.crashLoop).isSome = true)
  have hbounded := hall {} 0 _ _ hrun _ _ (List.prefix_refl _) hrun
  have hsix : ∃ m ∈ ((Sample.after {} Sample.crashLoop).get (by decide +kernel)).board.outbox,
      m.attempts = 6 := by decide +kernel
  obtain ⟨m, hm, hattempts⟩ := hsix
  have hle := (hbounded m hm).1
  rw [hattempts] at hle
  exact absurd hle (by decide)

end DispatchState

end EcommerceIntegration
