import EcommerceIntegration.Dispatch.ErpMock
import EcommerceIntegration.Dispatch.Finality

/-!
# One order of the ERP for one message

The key of a message is the same in all its requests, but the service registers an order
without looking at the key again, so two requests that were both new when they came make
two orders.
-/

namespace EcommerceIntegration

set_option autoImplicit false

namespace ErpSystem

open ErpMock

def answersFor (s : ErpSystem) (key : String) : List ErpAck :=
  (s.answers.filter (·.1 == key)).map Prod.snd

/-- The answers that report a new order. -/
def created (s : ErpSystem) (key : String) : Nat :=
  (s.answersFor key).countP fun ack => !ack.duplicate

/-- Unless there is no answer yet, all are about one order, which one of them reports as new. -/
def SingleOrder (s : ErpSystem) (key : String) : Prop :=
  s.answersFor key = [] ∨
    (∃ erpOrderId, ∀ ack ∈ s.answersFor key, ack.erpOrderId = erpOrderId) ∧ s.created key = 1

/-- The step registers an order for a request with this key. -/
def registers (messageKey : String) (s : ErpSystem) : ErpLabel → Bool
  | .wake r (.works ..) => (s.request r).any fun request => key request == messageKey
  | _ => false

/-- A request that registers an order finds its key still unknown. -/
def RegistersUnknown (messageKey : String) (s : ErpSystem) (l : ErpLabel) : Prop :=
  registers messageKey s l = true → s.server.acknowledgedByKey messageKey = none

instance (messageKey : String) (s : ErpSystem) (l : ErpLabel) :
    Decidable (RegistersUnknown messageKey s l) :=
  inferInstanceAs (Decidable (_ → _))

/-! ## What a step does to a key -/

/-- A step leaves the key alone, repeats what the service has for it, or registers. -/
inductive KeyStep (messageKey : String) (s : ErpSystem) (l : ErpLabel) (t : ErpSystem) : Prop
  | same (other : registers messageKey s l = false)
      (known : t.server.acknowledgedByKey messageKey = s.server.acknowledgedByKey messageKey)
      (answers : t.answersFor messageKey = s.answersFor messageKey)
  | repeats {record} (other : registers messageKey s l = false)
      (found : s.server.acknowledgedByKey messageKey = some record)
      (known : t.server.acknowledgedByKey messageKey = some record)
      (answers : t.answersFor messageKey =
        s.answersFor messageKey ++ [⟨record.erpOrderId, true⟩])
  | registers {record} (now : registers messageKey s l = true)
      (known : t.server.acknowledgedByKey messageKey = some record)
      (answers : t.answersFor messageKey =
        s.answersFor messageKey ++ [⟨record.erpOrderId, false⟩])

section Step
variable {settings : Settings} {s t : ErpSystem} {l : ErpLabel} {messageKey : String}

/-- The answers for a key after a request with the key `k` has been handled. -/
theorem answersFor_handle (messageKey : String) (s : ErpSystem) (r : Nat) (k : String) (handling : Handling)
    (server : State) :
    ({ s.handle r k handling with server } : ErpSystem).answersFor messageKey =
      s.answersFor messageKey ++
        match handling with
        | .answered (.ok ack) => if k = messageKey then [ack] else []
        | _ => [] := by
  unfold answersFor handle
  split
  · by_cases hk : k = messageKey <;> simp [hk]
  · simp

theorem keyStep_receive {r : Nat} (hst : s.step settings (.receive r) = some t) :
    KeyStep messageKey s (.receive r) t := by
  simp only [step] at hst
  split at hst
  · rename_i request _ _
    cases hst
    have hanswers := answersFor_handle messageKey s r (key request)
      (lookup s.server (key request)) s.server
    by_cases hempty : key request = ""
    · refine .same rfl rfl (hanswers.trans ?_)
      simp [lookup, hempty]
    · cases hfound : s.server.acknowledgedByKey (key request) with
      | none =>
        refine .same rfl rfl (hanswers.trans ?_)
        simp [lookup, hempty, hfound]
      | some record =>
        by_cases hk : key request = messageKey
        · rw [hk] at hfound
          refine .repeats rfl hfound hfound (hanswers.trans ?_)
          simp [lookup, hk, hk ▸ hempty, hfound]
        · refine .same rfl rfl (hanswers.trans ?_)
          simp [lookup, hempty, hfound, hk]
  · cases hst

/-- Only the key of the request is acknowledged now. -/
theorem wake_works {k : String} {payload : OrderPayload} {server server' : State}
    {erpOrderId : String} {receivedAt : Time} {handling : Handling} (hkey : messageKey ≠ "")
    (h : wake k payload server (.works erpOrderId receivedAt) = some (server', handling)) :
    handling = .answered (.ok ⟨erpOrderId, false⟩) ∧
      server'.acknowledgedByKey messageKey =
        if k = messageKey then some (register payload erpOrderId receivedAt server).2
        else server.acknowledgedByKey messageKey := by
  simp only [wake, Option.some.injEq, Prod.mk.injEq] at h
  obtain ⟨rfl, rfl⟩ := h
  refine ⟨rfl, ?_⟩
  by_cases hempty : k = ""
  · simp [hempty, Ne.symm hkey, register]
  · by_cases hk : k = messageKey
    · simp [hk, hkey]
    · simp [hempty, hk, register, Function.update_of_ne (Ne.symm hk)]

theorem keyStep_wake {r : Nat} {draw : Draw} (hkey : messageKey ≠ "")
    (hst : s.step settings (.wake r draw) = some t) : KeyStep messageKey s (.wake r draw) t := by
  simp only [step] at hst
  split at hst
  · rename_i request hrequest _
    obtain ⟨⟨server, handling⟩, hwake, rfl⟩ := Option.map_eq_some_iff.mp hst
    have hanswers := answersFor_handle messageKey s r (key request) handling server
    cases draw with
    | works erpOrderId receivedAt =>
      obtain ⟨rfl, hknown⟩ := wake_works hkey hwake
      by_cases hk : key request = messageKey
      · rw [if_pos hk] at hknown
        refine .registers (by simp [ErpSystem.registers, hrequest, hk]) hknown (hanswers.trans ?_)
        simp [hk, register]
      · rw [if_neg hk] at hknown
        refine .same (by simp [ErpSystem.registers, hrequest, hk]) hknown (hanswers.trans ?_)
        simp [hk]
    | fails code =>
      simp only [wake] at hwake
      split at hwake
      · cases hwake
        exact .same rfl rfl (hanswers.trans (by simp))
      · cases hwake
    | stalls code =>
      simp only [wake] at hwake
      split at hwake
      · cases hwake
        exact .same rfl rfl (hanswers.trans (by simp))
      · cases hwake
  · cases hst

theorem step_key (hkey : messageKey ≠ "") (hst : s.step settings l = some t) :
    KeyStep messageKey s l t := by
  cases l with
  | worker l =>
    simp only [step] at hst
    split at hst
    · obtain ⟨dispatch, _, rfl⟩ := Option.map_eq_some_iff.mp hst
      exact .same rfl rfl rfl
    · cases hst
  | receive r => exact keyStep_receive hst
  | wake r draw => exact keyStep_wake hkey hst
  | fail r =>
    simp only [step] at hst
    split at hst
    · rename_i request code _ _
      cases hst
      refine .same rfl rfl ((answersFor_handle messageKey s r (key request) _ s.server).trans ?_)
      simp
    · cases hst
  | deliver r =>
    simp only [step] at hst
    split at hst
    · obtain ⟨dispatch, _, rfl⟩ := Option.map_eq_some_iff.mp hst
      exact .same rfl rfl rfl
    · cases hst

/-- How many answers report a new order after the step. -/
theorem created_step (hstep : KeyStep messageKey s l t) :
    t.created messageKey =
      s.created messageKey + if registers messageKey s l = true then 1 else 0 := by
  cases hstep with
  | same other known answers => simp [created, answers, other]
  | repeats other found known answers => simp [created, answers, other]
  | registers now known answers => simp [created, answers, now]

/-- The service knows the key since the first answer for it. -/
structure Recorded (messageKey : String) (s : ErpSystem) : Prop where
  unknown : s.server.acknowledgedByKey messageKey = none → s.answersFor messageKey = []
  known : s.server.acknowledgedByKey messageKey ≠ none → 1 ≤ s.created messageKey

theorem Recorded.step (hs : Recorded messageKey s) (hstep : KeyStep messageKey s l t) :
    Recorded messageKey t := by
  have hcreated := created_step hstep
  cases hstep with
  | same other known answers =>
    refine ⟨fun hnone => ?_, fun hsome => ?_⟩
    · rw [answers]
      exact hs.unknown (known.symm.trans hnone)
    · rw [known] at hsome
      have := hs.known hsome
      omega
  | repeats other found known answers =>
    refine ⟨fun hnone => ?_, fun _ => ?_⟩
    · rw [known] at hnone
      cases hnone
    · have := hs.known (by simp [found])
      omega
  | registers now known answers =>
    refine ⟨fun hnone => ?_, fun _ => ?_⟩
    · rw [known] at hnone
      cases hnone
    · simp only [now, if_true] at hcreated
      omega

/-- All answers are about the order that the service has for the key. -/
def Agrees (messageKey : String) (s : ErpSystem) : Prop :=
  ∀ record, s.server.acknowledgedByKey messageKey = some record →
    (∀ ack ∈ s.answersFor messageKey, ack.erpOrderId = record.erpOrderId) ∧
      s.created messageKey = 1

theorem Agrees.step (hrec : Recorded messageKey s) (hs : Agrees messageKey s)
    (hunknown : RegistersUnknown messageKey s l) (hstep : KeyStep messageKey s l t) :
    Agrees messageKey t := by
  have hcreated := created_step hstep
  intro record hrecord
  cases hstep with
  | same other known answers =>
    obtain ⟨hall, hone⟩ := hs record (known.symm.trans hrecord)
    rw [answers]
    exact ⟨hall, by simpa [other, hone] using hcreated⟩
  | repeats other found known answers =>
    obtain rfl := Option.some.inj (known.symm.trans hrecord)
    obtain ⟨hall, hone⟩ := hs _ found
    rw [answers]
    refine ⟨fun ack hack => ?_, by simpa [other, hone] using hcreated⟩
    rcases List.mem_append.mp hack with hack | hack
    · exact hall ack hack
    · rw [List.mem_singleton.mp hack]
  | registers now known answers =>
    -- nothing has been answered for the key before
    obtain rfl := Option.some.inj (known.symm.trans hrecord)
    have hnone := hrec.unknown (hunknown now)
    have hzero : s.created messageKey = 0 := by simp [created, hnone]
    rw [answers, hnone]
    refine ⟨fun ack hack => ?_, by simpa [now, hzero] using hcreated⟩
    rw [List.mem_singleton.mp hack]

end Step

/-! ## Whole runs -/

section Runs
variable {settings : Settings} {clock : Time} {ls : List ErpLabel} {s : ErpSystem}
  {messageKey : String}

theorem recorded_run (hkey : messageKey ≠ "") (hrun : (initial clock).run settings ls = some s) :
    Recorded messageKey s :=
  Transition.run_invariant (fun _ _ _ hs hst => hs.step (step_key hkey hst))
    ⟨fun _ => rfl, fun h => absurd rfl h⟩ hrun

theorem agrees_run (hkey : messageKey ≠ "") (hrun : (initial clock).run settings ls = some s)
    (hunknown : Transition.Along (step settings) (RegistersUnknown messageKey) (initial clock) ls) :
    Agrees messageKey s := by
  have hinit : Agrees messageKey (initial clock) := fun record hrecord => by cases hrecord
  have hboth : ∀ s l t, Recorded messageKey s ∧ Agrees messageKey s →
      RegistersUnknown messageKey s l → step settings s l = some t →
      Recorded messageKey t ∧ Agrees messageKey t := by
    rintro s l t ⟨hrec, hs⟩ hl hst
    have hstep := step_key hkey hst
    exact ⟨hrec.step hstep, hs.step hrec hl hstep⟩
  exact (Transition.run_invariant_along hboth
    ⟨⟨fun _ => rfl, fun h => absurd rfl h⟩, hinit⟩ hunknown hrun).2

theorem created_le (hkey : messageKey ≠ "") {t : ErpSystem} (hrun : s.run settings ls = some t) :
    s.created messageKey ≤ t.created messageKey := by
  refine Transition.run_relates_along (P := fun _ _ => True)
    (R := fun s t => s.created messageKey ≤ t.created messageKey) (fun _ => Nat.le_refl _)
    Nat.le_trans (fun s l t _ hst => ?_) (Transition.along_true s ls) hrun
  rw [created_step (step_key hkey hst)]
  exact Nat.le_add_right _ _

theorem idempotencyKey_ne_empty (item : OutboxItem) :
    DispatchWorker.idempotencyKey item ≠ "" := by
  intro h
  have hlength := congrArg String.length h
  simp [DispatchWorker.idempotencyKey] at hlength

/-- The answers for a message are about one order, reported as new once, exactly in the
runs in which no order is registered for a message that has one already. -/
theorem singleOrder_iff (hrun : (initial clock).run settings ls = some s) (item : OutboxItem) :
    SingleOrder s (DispatchWorker.idempotencyKey item) ↔
      Transition.Along (step settings) (RegistersUnknown (DispatchWorker.idempotencyKey item))
        (initial clock) ls := by
  have hkey := idempotencyKey_ne_empty item
  constructor
  · intro hsingle
    rw [Transition.along_iff]
    rintro ks l ms t rfl hks hnow
    by_contra hknown
    obtain ⟨t₁, ht₁, hrest⟩ := Transition.run_append_eq_some.mp hrun
    obtain rfl := Option.some.inj (hks.symm.trans ht₁)
    obtain ⟨t', hst, hlater⟩ := Transition.run_cons_eq_some.mp hrest
    have hone := (recorded_run hkey hks).known hknown
    have htwo := created_step (step_key hkey hst)
    have hle := created_le hkey hlater
    rw [hnow, if_pos rfl] at htwo
    rcases hsingle with hnil | ⟨_, hcount⟩
    · have hzero : s.created (DispatchWorker.idempotencyKey item) = 0 := by simp [created, hnil]
      omega
    · omega
  · intro hunknown
    cases hfound : s.server.acknowledgedByKey (DispatchWorker.idempotencyKey item) with
    | none => exact .inl ((recorded_run hkey hrun).unknown hfound)
    | some record =>
      obtain ⟨hall, hone⟩ := agrees_run hkey hrun hunknown record hfound
      exact .inr ⟨⟨record.erpOrderId, hall⟩, hone⟩

end Runs

/-! ## Two requests at once -/

namespace Sample

open DispatchState.Sample

def item : OutboxItem := OutboxReader.toItem message

def workers (ls : List DispatchLabel) : List ErpLabel := ls.map .worker

/-- One request, one order, and a repetition that is told so. -/
def inTurn : List ErpLabel :=
  workers [.enqueue message, .start "a", .poll 0, .claim 0 [1], .post 0] ++
    [.receive 0, .wake 0 (.works "ERP-1" 7), .worker (.reply 0 (.timeout "")),
      .worker (.mark 0 0 0), .worker (.tick 1000000), .worker (.gathered 0)] ++
    workers [.poll 0, .claim 0 [1], .post 1] ++
    [.receive 1, .deliver 1, .worker (.mark 1 1000000 0)]

/-- The first worker was slow, so its message was released and claimed again; both post. -/
def together : List ErpLabel :=
  workers ([.enqueue message, .start "a", .poll 0, .claim 0 [1], .tick 121000000, .start "b"] ++
    idle 1 59 ++ [.poll 1, .release 1, .claim 1 [1], .post 0, .post 1]) ++
    [.receive 0, .receive 1, .wake 0 (.works "ERP-1" 7), .wake 1 (.works "ERP-2" 8)]

def after (ls : List ErpLabel) : Option ErpSystem := (initial 0).run {} ls

theorem after_run {ls : List ErpLabel} (h : (after ls).isSome = true) :
    (initial 0).run {} ls = some ((after ls).get h) :=
  (Option.some_get h).symm

end Sample

theorem singleOrder_inTurn :
    SingleOrder ((Sample.after Sample.inTurn).get (by decide +kernel))
      (DispatchWorker.idempotencyKey Sample.item) :=
  (singleOrder_iff (Sample.after_run _) Sample.item).mpr (by decide +kernel)

theorem twoOrders :
    ¬ ∀ settings clock ls s, (initial clock).run settings ls = some s →
      ∀ item, SingleOrder s (DispatchWorker.idempotencyKey item) := by
  intro hall
  have hrun := Sample.after_run (by decide +kernel : (Sample.after Sample.together).isSome = true)
  rcases hall {} 0 _ _ hrun Sample.item with hnil | ⟨_, hone⟩
  · revert hnil
    decide +kernel
  · revert hone
    decide +kernel

end ErpSystem

end EcommerceIntegration
