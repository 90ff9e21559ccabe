import EcommerceIntegration.Dispatch.Attempts
import EcommerceIntegration.Dispatch.Classification
import EcommerceIntegration.Dispatch.SingleOrder

/-!
# What the service knows of the outbox

A row is SENT only after the service has acknowledged its key, and what the service keeps
under a key is what the row of that key says. Both survive workers that die, answers that
are lost and requests that overtake each other.
-/

namespace EcommerceIntegration

set_option autoImplicit false

/-- What a message says; no statement of the workers changes it. -/
abbrev Letter := Nat × String × OrderPayload

def OutboxMessage.letter (m : OutboxMessage) : Letter := (m.outboxId, m.aggregateId, m.payload)

def OutboxItem.letter (item : OutboxItem) : Letter :=
  (item.outboxId, item.aggregateId, item.payload)

namespace Board

def letters (b : Board) : List Letter := b.outbox.map OutboxMessage.letter

variable {b b' : Board} {a : Action}

theorem letters_act (h : b.act a = some b') :
    b'.letters = b.letters ∨
      ∃ m, a = .enqueue m ∧ m.outboxId ∉ b.outbox.map OutboxMessage.outboxId ∧
        b'.outbox = b.outbox ++ [m] :=
  columns_act OutboxMessage.letter (fun _ _ _ => rfl) (fun _ => rfl)
    (fun verdict _ _ _ => by cases verdict <;> rfl) h

theorem letters_subset_act (h : b.act a = some b') : b.letters ⊆ b'.letters := by
  rcases letters_act h with heq | ⟨m, _, _, heq⟩
  · rw [heq]
    exact List.Subset.refl _
  · simp only [letters, heq, List.map_append]
    exact List.subset_append_left _ _

/-- A letter is told by its number. -/
theorem letter_unique (hb : b.WellFormed) {x y : Letter} (hx : x ∈ b.letters) (hy : y ∈ b.letters)
    (hid : x.1 = y.1) : x = y := by
  obtain ⟨m, hm, rfl⟩ := List.mem_map.mp hx
  obtain ⟨m', hm', rfl⟩ := List.mem_map.mp hy
  rw [List.inj_on_of_nodup_map hb.ids hm hm' hid]

/-! ## Tasks and requests carry the letters of their rows -/

structure Carried (b : Board) : Prop where
  tasks : ∀ t task, b.tasks t = some task → task.item.letter ∈ b.letters
  requests : ∀ q ∈ b.requests, q.item.letter ∈ b.letters
  /-- the task that has sent it, if it is still there -/
  sender : ∀ q ∈ b.requests, q.task < b.created ∧
    ∀ task, b.tasks q.task = some task → task.item = q.item

theorem Carried.empty : Carried {} := by
  refine ⟨fun t task ht => ?_, fun q hq => ?_, fun q hq => ?_⟩
  · cases ht
  · cases hq
  · cases hq

theorem Carried.act (hb : b.Carried) (hwf : b.WellFormed) (h : b.act a = some b') : b'.Carried where
  tasks := by
    intro t task' ht
    rcases task_of_act h ht with ⟨task, hold, hitem, _⟩ | ⟨_, _, now, picked, m, _, _, hm, rfl⟩
    · rw [hitem]
      exact letters_subset_act h (hb.tasks t task hold)
    · have hmem := OutboxTable.mem_of_get (get_of_taken hwf hm).1
      exact letters_subset_act h (List.mem_map.mpr ⟨m, hmem, rfl⟩)
  requests := by
    intro q hq
    refine letters_subset_act h ?_
    rcases requests_act h with heq | ⟨t, worker, item, _, ht, heq⟩
    · exact hb.requests q (heq ▸ hq)
    · rw [heq] at hq
      rcases List.mem_append.mp hq with hq | hq
      · exact hb.requests q hq
      · obtain rfl := List.mem_singleton.mp hq
        exact hb.tasks t _ ht
  sender := by
    have kept : ∀ k item, k < b.created → (∀ task, b.tasks k = some task → task.item = item) →
        k < b'.created ∧ ∀ task, b'.tasks k = some task → task.item = item := by
      intro k item hlt hitem
      refine ⟨Nat.lt_of_lt_of_le hlt (created_act h), fun task' ht => ?_⟩
      rcases task_of_act h ht with ⟨task, hold, hsame, _⟩ | ⟨_, _, _, _, _, _, hle, _⟩
      · rw [hsame, hitem task hold]
      · omega
    intro q hq
    rcases requests_act h with heq | ⟨t, worker, item, _, ht, heq⟩
    · obtain ⟨hlt, hitem⟩ := hb.sender q (heq ▸ hq)
      exact kept q.task q.item hlt hitem
    · rw [heq] at hq
      rcases List.mem_append.mp hq with hq | hq
      · obtain ⟨hlt, hitem⟩ := hb.sender q hq
        exact kept q.task q.item hlt hitem
      · obtain rfl := List.mem_singleton.mp hq
        refine kept t item (hwf.created t _ ht) fun task htask => ?_
        rw [Option.some.inj (htask.symm.trans ht)]

/-! ## Rows are SENT for a reason -/

/-- Of every row that is SENT or about to be, `K` holds. -/
structure Confirmed (K : Nat → Prop) (b : Board) : Prop where
  answered : ∀ t task, b.tasks t = some task → task.stage = .answered .sent → K task.item.outboxId
  sent : ∀ id m, OutboxTable.get b.outbox id = some m → m.status = .sent → K id

theorem Confirmed.mono {K K' : Nat → Prop} (hK : ∀ id, K id → K' id) (hb : b.Confirmed K) :
    b.Confirmed K' :=
  ⟨fun t task ht hs => hK _ (hb.answered t task ht hs), fun id m hm hs => hK _ (hb.sent id m hm hs)⟩

/-- A success is only noted where `K` holds. -/
def ConfirmsKnown (K : Nat → Prop) (b : Board) : Action → Prop
  | .answer t .sent => ∀ task, b.tasks t = some task → K task.item.outboxId
  | _ => True

variable {K : Nat → Prop}

theorem Confirmed.answered_act (hb : b.Confirmed K) (hknown : ConfirmsKnown K b a)
    (h : b.act a = some b') {t : Nat} {task : Task} (ht : b'.tasks t = some task)
    (hstage : task.stage = .answered .sent) : K task.item.outboxId := by
  have kept {k : Nat} {new : Option Task}
      (hnew : ∀ task ∈ new, task.stage = .answered .sent → K task.item.outboxId)
      (ht : Function.update b.tasks k new t = some task) : K task.item.outboxId := by
    rw [Function.update_apply] at ht
    split at ht
    · exact hnew task ht hstage
    · exact hb.answered t task ht hstage
  cases a with
  | enqueue m =>
    obtain ⟨_, _, rfl⟩ := act_enqueue h
    exact hb.answered t task ht hstage
  | release now =>
    cases h
    exact hb.answered t task ht hstage
  | claim worker workerId now picked =>
    cases h
    simp only [addTasks, OutboxReader.claim] at ht
    split at ht
    · exact hb.answered t task ht hstage
    · obtain ⟨item, _, rfl⟩ := Option.map_eq_some_iff.mp ht
      cases hstage
  | post k =>
    obtain ⟨worker, item, hk, rfl⟩ := act_post h
    exact kept (by simp) ht
  | answer k verdict =>
    obtain ⟨worker, item, hk, rfl⟩ := act_answer h
    refine kept (fun new hnew hsent => ?_) ht
    obtain rfl := Option.some.inj hnew
    cases hsent
    exact hknown ⟨worker, item, .posted⟩ hk
  | mark k now delay =>
    obtain ⟨worker, item, verdict, hk, rfl⟩ := act_mark h
    exact kept (by simp) ht
  | drop k =>
    obtain ⟨_, rfl⟩ := act_drop h
    exact kept (by simp) ht

theorem Confirmed.act (hb : b.Confirmed K) (hknown : ConfirmsKnown K b a)
    (h : b.act a = some b') : b'.Confirmed K where
  answered t task ht hstage := hb.answered_act hknown h ht hstage
  sent := by
    intro id m' hm' hsent
    rcases row_of_act h hm' with ⟨m, hm, rfl⟩ | ⟨rfl, hnew⟩
    · have hold := hb.sent id m hm
      cases a with
      | release now =>
        simp only [rowAfter] at hsent
        split at hsent
        · cases hsent
        · exact hold hsent
      | claim worker workerId now picked =>
        simp only [rowAfter] at hsent
        split at hsent
        · cases hsent
        · exact hold hsent
      | mark t now delay =>
        obtain ⟨worker, item, verdict, ht, rfl⟩ := act_mark h
        simp only [rowAfter, ht] at hsent
        split at hsent
        · rename_i hid
          -- it is the verdict of the task that the row is marked with
          have hverdict : verdict = .sent := by
            cases verdict with
            | sent => rfl
            | retry | deadLetter => cases hsent
          subst hverdict
          rw [← OutboxTable.id_of_get hm, hid]
          exact hb.answered t _ ht rfl
        · exact hold hsent
      | enqueue | post | answer | drop => exact hold hsent
    · simp only [OutboxMessage.isNew, Bool.and_eq_true, beq_iff_eq] at hnew
      rw [hsent] at hnew
      cases hnew.1.1.1.1.1

theorem Confirmed.empty : Confirmed K {} := by
  refine ⟨fun t task ht => ?_, fun id m hm => ?_⟩
  · cases ht
  · cases hm

end Board

/-! ## Keys -/

namespace ErpSystem

open ErpMock

def messageKey (outboxId : Nat) : String := "outbox-" ++ toString outboxId

theorem key_eq (request : ErpRequest) : key request = messageKey request.item.outboxId := rfl

theorem messageKey_ne_empty (outboxId : Nat) : messageKey outboxId ≠ "" := by
  intro h
  have hlength := congrArg String.length h
  simp [messageKey] at hlength

theorem messageKey_injective : Function.Injective messageKey := by
  intro m n h
  have htext : toString m = toString n := (String.append_right_inj "outbox-").mp h
  rw [Nat.toString_eq_ofList_toDigits, Nat.toString_eq_ofList_toDigits] at htext
  have hdigits : Nat.toDigits 10 m = Nat.toDigits 10 n := String.ofList_inj.mp htext
  rw [← Nat.ofDigitChars_ten_toDigits (n := m), hdigits, Nat.ofDigitChars_ten_toDigits]

/-- The service has acknowledged the message with that number. -/
def Knows (server : State) (outboxId : Nat) : Prop :=
  (server.acknowledgedByKey (messageKey outboxId)).isSome = true

/-- The record is what `_register` makes of the document. -/
def RecordOf (payload : OrderPayload) (record : ErpRecord) : Prop :=
  record = (register payload record.erpOrderId record.receivedAt {}).2

/-! ## The dictionaries of the service -/

/-- What the service has is about the letters in the outbox. -/
structure Filed (letters : List Letter) (server : State) : Prop where
  records : ∀ k record, server.acknowledgedByKey k = some record →
    ∃ x ∈ letters, k = messageKey x.1 ∧ RecordOf x.2.2 record
  orders : ∀ orderUid erpOrderId, server.erpIdByOrder orderUid = some erpOrderId →
    ∃ k record, server.acknowledgedByKey k = some record ∧ record.orderUid = orderUid ∧
      record.erpOrderId = erpOrderId
  numbered : ∀ k record, server.acknowledgedByKey k = some record →
    (server.erpIdByOrder record.orderUid).isSome = true

/-- The service after it has registered a request and stored its key. -/
def file (k : String) (payload : OrderPayload) (erpOrderId : String) (receivedAt : Time)
    (server : State) : State where
  acknowledgedByKey :=
    Function.update server.acknowledgedByKey k (some (register payload erpOrderId receivedAt {}).2)
  erpIdByOrder := Function.update server.erpIdByOrder payload.order.orderUid erpOrderId

section File
variable {letters : List Letter} {server : State} {x : Letter} {erpOrderId : String}
  {receivedAt : Time}

theorem Filed.mono {letters' : List Letter} (hle : letters ⊆ letters') (hf : Filed letters server) :
    Filed letters' server where
  records k record hk := by
    obtain ⟨x, hx, hkey, hrecord⟩ := hf.records k record hk
    exact ⟨x, hle hx, hkey, hrecord⟩
  orders := hf.orders
  numbered := hf.numbered

theorem Filed.empty : Filed letters {} := by
  refine ⟨fun k record hk => ?_, fun uid id hid => ?_, fun k record hk => ?_⟩
  · cases hk
  · cases hid
  · cases hk

/-- A key stands for one letter, so that no record of another order is lost. -/
theorem Filed.file (hf : Filed letters server) (hx : x ∈ letters)
    (hunique : ∀ y ∈ letters, y.1 = x.1 → y = x) :
    Filed letters (file (messageKey x.1) x.2.2 erpOrderId receivedAt server) where
  records k record hk := by
    simp only [ErpSystem.file, Function.update_apply] at hk
    split at hk
    · rename_i hkey
      obtain rfl := Option.some.inj hk
      exact ⟨x, hx, hkey, rfl⟩
    · exact hf.records k record hk
  orders orderUid id hid := by
    simp only [ErpSystem.file, Function.update_apply] at hid ⊢
    split at hid
    · rename_i huid
      refine ⟨messageKey x.1, _, if_pos rfl, ?_, Option.some.inj hid⟩
      exact huid.symm
    · rename_i huid
      obtain ⟨k, record, hk, hrecord, hrid⟩ := hf.orders orderUid id hid
      refine ⟨k, record, ?_, hrecord, hrid⟩
      rw [if_neg, hk]
      rintro rfl
      obtain ⟨y, hy, hkey, hof⟩ := hf.records _ record hk
      obtain rfl := hunique y hy (messageKey_injective hkey).symm
      rw [hof] at hrecord
      exact huid hrecord.symm
  numbered k record hk := by
    simp only [ErpSystem.file, Function.update_apply] at hk ⊢
    split
    · rfl
    · rename_i huid
      split at hk
      · obtain rfl := Option.some.inj hk
        exact absurd rfl huid
      · exact hf.numbered k record hk

theorem knows_file (id : Nat) : Knows (ErpSystem.file (messageKey id) x.2.2 erpOrderId receivedAt server) id := by
  simp [Knows, ErpSystem.file]

theorem Knows.file {id : Nat} (h : Knows server id) (k : String) (payload : OrderPayload) :
    Knows (ErpSystem.file k payload erpOrderId receivedAt server) id := by
  simp only [Knows, ErpSystem.file, Function.update_apply] at h ⊢
  split
  · rfl
  · exact h

end File

/-- A request that wakes up is filed and answered, or it fails now or later. -/
theorem wake_cases {k : String} {payload : OrderPayload} {server server' : State} {draw : Draw}
    {handling : Handling} (hk : k ≠ "") (h : wake k payload server draw = some (server', handling)) :
    (∃ erpOrderId receivedAt, server' = file k payload erpOrderId receivedAt server ∧
        handling = .answered (.ok ⟨erpOrderId, false⟩)) ∨
      server' = server ∧ ∃ code ∈ serverErrorCodes,
        handling = .stalled code ∨ handling = .answered (.error code) := by
  cases draw with
  | works erpOrderId receivedAt =>
    simp only [wake, if_neg hk, register, Option.some.injEq, Prod.mk.injEq] at h
    obtain ⟨rfl, rfl⟩ := h
    exact .inl ⟨erpOrderId, receivedAt, rfl, rfl⟩
  | fails code =>
    simp only [wake] at h
    split at h
    · rename_i hcode
      cases h
      exact .inr ⟨rfl, code, hcode, .inr rfl⟩
    · cases h
  | stalls code =>
    simp only [wake] at h
    split at h
    · rename_i hcode
      cases h
      exact .inr ⟨rfl, code, hcode, .inl rfl⟩
    · cases h

/-! ## Workers and service together -/

structure Sound (s : ErpSystem) : Prop where
  wellFormed : s.dispatch.board.WellFormed
  carried : s.dispatch.board.Carried
  confirmed : s.dispatch.board.Confirmed (Knows s.server)
  filed : Filed s.dispatch.board.letters s.server
  /-- only requests that were sent are handled -/
  received : ∀ r, (s.handling r).isSome = true → r < s.dispatch.board.requests.length
  answers : ∀ r request ack, s.request r = some request →
    s.handling r = some (.answered (.ok ack)) → Knows s.server request.item.outboxId
  failures : ∀ r code, s.handling r = some (.stalled code) ∨
    s.handling r = some (.answered (.error code)) → code ∈ serverErrorCodes

section Sound
variable {settings : Settings} {s t : ErpSystem} {l : ErpLabel} {a : Action} {d : DispatchState}

theorem Sound.initial (clock : Time) : Sound (ErpSystem.initial clock) where
  wellFormed := .empty
  carried := .empty
  confirmed := .empty
  filed := .empty
  received r hr := by cases hr
  answers r request ack _ hanswer := by cases hanswer
  failures r code hcode := by rcases hcode with hcode | hcode <;> cases hcode

theorem Sound.act (hs : Sound s) (hknown : s.dispatch.board.ConfirmsKnown (Knows s.server) a)
    (h : s.dispatch.board.act a = some d.board) : Sound { s with dispatch := d } where
  wellFormed := hs.wellFormed.act h
  carried := hs.carried.act hs.wellFormed h
  confirmed := hs.confirmed.act hknown h
  filed := hs.filed.mono (Board.letters_subset_act h)
  received r hr := by
    have hlt := hs.received r hr
    rcases Board.requests_act h with heq | ⟨_, _, _, _, _, heq⟩
    · exact heq ▸ hlt
    · simp only [heq, List.length_append]
      omega
  answers r request ack hrequest hanswer := by
    refine hs.answers r request ack ?_ hanswer
    have hlt := hs.received r (by rw [hanswer]; rfl)
    rcases Board.requests_act h with heq | ⟨_, _, _, _, _, heq⟩
    · simpa [ErpSystem.request, heq] using hrequest
    · simpa [ErpSystem.request, heq, List.getElem?_append_left hlt] using hrequest
  failures := hs.failures

theorem Sound.board (hs : Sound s) (h : d.board = s.dispatch.board) :
    Sound { s with dispatch := d } where
  wellFormed := h ▸ hs.wellFormed
  carried := h ▸ hs.carried
  confirmed := h ▸ hs.confirmed
  filed := h ▸ hs.filed
  received := h ▸ hs.received
  answers r request ack hrequest hanswer :=
    hs.answers r request ack (by simpa [ErpSystem.request, h] using hrequest) hanswer
  failures := hs.failures

theorem Sound.dispatch {l : DispatchLabel} (hs : Sound s)
    (hknown : ∀ a ∈ s.dispatch.action settings l, s.dispatch.board.ConfirmsKnown (Knows s.server) a)
    (h : s.dispatch.step settings l = some d) : Sound { s with dispatch := d } := by
  rcases DispatchState.step_board h with ⟨a, ha, hact⟩ | ⟨_, heq⟩
  · exact hs.act (hknown a ha) hact
  · exact hs.board heq

theorem reschedule_ne_sent (item : OutboxItem) (error : String) :
    DispatchWorker.reschedule settings item error ≠ .sent := by
  unfold DispatchWorker.reschedule
  split <;> simp

/-- Only a response of the service makes a task note a success. -/
theorem sent_of_dispatch {item : OutboxItem} {result : HttpResult}
    (h : DispatchWorker.dispatch settings item (ErpClient.sendOrder result) = .ok .sent) :
    ∃ body, ErpClient.sendOrder result = .ok body := by
  cases hsend : ErpClient.sendOrder result with
  | ok body => exact ⟨body, rfl⟩
  | error e =>
    rw [hsend] at h
    cases e with
    | temporary message => exact absurd (Except.ok.inj h) (reschedule_ne_sent item message)
    | permanent message => cases h
    | other message => cases h

/-- What a step of the tasks notes as a success. -/
theorem confirmsKnown_action {K : Nat → Prop} {l : DispatchLabel}
    (hreply : ∀ t result task body, l = .reply t result → s.dispatch.board.tasks t = some task →
      ErpClient.sendOrder result = .ok body → K task.item.outboxId) :
    ∀ a ∈ s.dispatch.action settings l, s.dispatch.board.ConfirmsKnown K a := by
  intro a ha
  cases l with
  | reply t result =>
    obtain ⟨item, hitem, rfl⟩ := Option.map_eq_some_iff.mp ha
    obtain ⟨task, ht, rfl⟩ := Option.map_eq_some_iff.mp hitem
    split
    · rename_i verdict hverdict
      cases verdict with
      | sent =>
        obtain ⟨body, hbody⟩ := sent_of_dispatch hverdict
        intro task' ht'
        exact hreply t result task' body rfl ht' hbody
      | retry | deadLetter => trivial
    · trivial
  | enqueue | release | post | markFails | lose =>
    cases ha
    trivial
  | claim w picked =>
    obtain ⟨_, _, rfl⟩ := Option.map_eq_some_iff.mp ha
    trivial
  | mark k readAt u =>
    obtain ⟨_, _, _, _, _, _, rfl⟩ := DispatchState.action_mark ha
    trivial
  | start | poll | stop | gathered | die | tick => cases ha

theorem Sound.worker {l : DispatchLabel} (hs : Sound s) (hnone : unanswered l = true)
    (h : s.dispatch.step settings l = some d) : Sound { s with dispatch := d } := by
  refine hs.dispatch (confirmsKnown_action fun t result task body hl _ hbody => ?_) h
  subst hl
  cases result with
  | response => cases hnone
  | timeout | transportError | decodingError => cases hbody

theorem Sound.deliver {r : Nat} {request : ErpRequest} {answer : Except Nat ErpAck} (hs : Sound s)
    (hrequest : s.request r = some request) (hanswer : s.handling r = some (.answered answer))
    (h : s.dispatch.step settings (.reply request.task (httpResult answer)) = some d) :
    Sound { s with dispatch := d } := by
  refine hs.dispatch (confirmsKnown_action fun t result task body hl ht hbody => ?_) h
  cases hl
  obtain ⟨_, hitem⟩ := hs.carried.sender request (List.mem_of_getElem? hrequest)
  rw [hitem task ht]
  cases answer with
  | ok ack => exact hs.answers r request ack hrequest hanswer
  | error code =>
    -- an error of the service is one of those that are tried again
    have hcode : code ∈ ErpClient.retryableStatusCodes := by
      have hmem := hs.failures r code (.inr hanswer)
      simp only [serverErrorCodes, List.mem_cons, List.not_mem_nil, or_false] at hmem
      rcases hmem with rfl | rfl <;> decide
    simp only [httpResult, ErpClient.sendOrder_retryable hcode] at hbody
    cases hbody

/-- The request `r` is handled, and the service has forgotten nothing. -/
theorem Sound.handle {r : Nat} {request : ErpRequest} {handling : Handling} {server : State}
    (hs : Sound s) (hrequest : s.request r = some request)
    (hlater : ∀ id, Knows s.server id → Knows server id)
    (hfiled : Filed s.dispatch.board.letters server)
    (hanswer : ∀ ack, handling = .answered (.ok ack) → Knows server request.item.outboxId)
    (hfails : ∀ code, handling = .stalled code ∨ handling = .answered (.error code) →
      code ∈ serverErrorCodes) :
    Sound { s.handle r (key request) handling with server } where
  wellFormed := hs.wellFormed
  carried := hs.carried
  confirmed := hs.confirmed.mono hlater
  filed := hfiled
  received k hk := by
    simp only [ErpSystem.handle, Function.update_apply] at hk
    split at hk
    · rename_i heq
      subst heq
      exact (List.getElem?_eq_some_iff.mp hrequest).1
    · exact hs.received k hk
  answers k request' ack hrequest' hack := by
    simp only [ErpSystem.handle, Function.update_apply] at hack
    split at hack
    · rename_i heq
      subst heq
      obtain rfl : request = request' := Option.some.inj (hrequest.symm.trans hrequest')
      exact hanswer ack (Option.some.inj hack)
    · exact hlater _ (hs.answers k request' ack hrequest' hack)
  failures k code hcode := by
    simp only [ErpSystem.handle, Function.update_apply] at hcode
    split at hcode
    · exact hfails code (hcode.imp Option.some.inj Option.some.inj)
    · exact hs.failures k code hcode

theorem Sound.receive {r : Nat} {request : ErpRequest} (hs : Sound s)
    (hrequest : s.request r = some request) :
    Sound (s.handle r (key request) (lookup s.server (key request))) := by
  have hkey : key request ≠ "" := messageKey_ne_empty request.item.outboxId
  refine hs.handle hrequest (fun _ h => h) hs.filed (fun ack hack => ?_) fun code hcode => ?_
  · rw [Knows, ← key_eq]
    cases hfound : s.server.acknowledgedByKey (key request) with
    | none => simp [lookup, hkey, hfound] at hack
    | some record => rfl
  · cases hfound : s.server.acknowledgedByKey (key request) with
    | none => simp [lookup, hkey, hfound] at hcode
    | some record => simp [lookup, hkey, hfound] at hcode

theorem Sound.wake {r : Nat} {request : ErpRequest} {draw : Draw} {server : State}
    {handling : Handling} (hs : Sound s) (hrequest : s.request r = some request)
    (h : ErpMock.wake (key request) request.item.payload s.server draw = some (server, handling)) :
    Sound { s.handle r (key request) handling with server } := by
  have hletter := hs.carried.requests request (List.mem_of_getElem? hrequest)
  rcases wake_cases (messageKey_ne_empty request.item.outboxId) h with
    ⟨erpOrderId, receivedAt, rfl, rfl⟩ | ⟨rfl, code, hcode, hfails⟩
  · refine hs.handle hrequest (fun _ hid => hid.file _ _) ?_ (fun _ _ => ?_) fun code hcode => ?_
    · exact hs.filed.file hletter fun y hy hid => Board.letter_unique hs.wellFormed hy hletter hid
    · exact knows_file (x := request.item.letter) _
    · rcases hcode with hcode | hcode <;> cases hcode
  · refine hs.handle hrequest (fun _ hid => hid) hs.filed (fun ack hack => ?_) fun code' hcode' => ?_
    · rcases hfails with rfl | rfl <;> cases hack
    · rcases hfails with rfl | rfl
      · rcases hcode' with heq | heq <;> cases heq
        exact hcode
      · rcases hcode' with heq | heq <;> cases heq
        exact hcode

theorem Sound.step (hs : Sound s) (hst : s.step settings l = some t) : Sound t := by
  cases l with
  | worker l =>
    simp only [ErpSystem.step] at hst
    split at hst
    · rename_i hnone
      obtain ⟨d, hd, rfl⟩ := Option.map_eq_some_iff.mp hst
      exact hs.worker hnone hd
    · cases hst
  | receive r =>
    simp only [ErpSystem.step] at hst
    split at hst
    · rename_i request hrequest _
      cases hst
      exact hs.receive hrequest
    · cases hst
  | wake r draw =>
    simp only [ErpSystem.step] at hst
    split at hst
    · rename_i request hrequest _
      obtain ⟨⟨server, handling⟩, hwake, rfl⟩ := Option.map_eq_some_iff.mp hst
      exact hs.wake hrequest hwake
    · cases hst
  | fail r =>
    simp only [ErpSystem.step] at hst
    split at hst
    · rename_i request code hrequest hstalled
      cases hst
      refine hs.handle hrequest (fun _ hid => hid) hs.filed (fun ack hack => ?_) fun code' hcode' => ?_
      · cases hack
      · rcases hcode' with heq | heq <;> cases heq
        exact hs.failures r code (.inl hstalled)
    · cases hst
  | deliver r =>
    simp only [ErpSystem.step] at hst
    split at hst
    · rename_i request answer hrequest hanswer
      obtain ⟨d, hd, rfl⟩ := Option.map_eq_some_iff.mp hst
      exact hs.deliver hrequest hanswer hd
    · cases hst

theorem sound_run {clock : Time} {ls : List ErpLabel}
    (hrun : (ErpSystem.initial clock).run settings ls = some s) : Sound s :=
  Transition.run_invariant (fun _ _ _ hs hst => hs.step hst) (.initial clock) hrun

/-- Under the key of a SENT row the service has what the row says. -/
theorem Sound.record_of_sent (hs : Sound s) {m : OutboxMessage} (hm : m ∈ s.dispatch.board.outbox)
    (hsent : m.status = .sent) :
    ∃ record, s.server.acknowledgedByKey (messageKey m.outboxId) = some record ∧
      RecordOf m.payload record := by
  have hget := OutboxTable.get_of_mem hs.wellFormed.ids hm
  obtain ⟨record, hrecord⟩ := Option.isSome_iff_exists.mp (hs.confirmed.sent _ m hget hsent)
  obtain ⟨x, hx, hkey, hof⟩ := hs.filed.records _ record hrecord
  have hletter : m.letter ∈ s.dispatch.board.letters := List.mem_map_of_mem hm
  obtain rfl := Board.letter_unique hs.wellFormed hx hletter (messageKey_injective hkey).symm
  exact ⟨record, hrecord, hof⟩

/-! ## The letters are the messages that were inserted -/

def inserted : ErpLabel → List OutboxMessage
  | .worker (.enqueue m) => [m]
  | _ => []

theorem letters_dispatch {l : DispatchLabel} {d' : DispatchState} (h : d.step settings l = some d') :
    d'.board.letters = d.board.letters ++ (inserted (.worker l)).map OutboxMessage.letter := by
  rcases DispatchState.step_board h with ⟨a, ha, hact⟩ | ⟨hnone, heq⟩
  · rcases Board.letters_act hact with heq | ⟨m, hm, _, heq⟩
    · cases l with
      | enqueue m =>
        cases ha
        obtain ⟨_, _, hboard⟩ := Board.act_enqueue hact
        simp [Board.letters, hboard, inserted]
      | release | post | mark | markFails | lose | start | poll | stop | gathered | die | tick
      | claim | reply => simp [heq, inserted]
    · subst hm
      obtain rfl := DispatchState.enqueue_of_action ha
      simp [Board.letters, heq, inserted]
  · cases l with
    | enqueue m => cases hnone
    | release | post | mark | markFails | lose | start | poll | stop | gathered | die | tick
    | claim | reply => simp [heq, inserted]

theorem letters_step (h : s.step settings l = some t) :
    t.dispatch.board.letters =
      s.dispatch.board.letters ++ (inserted l).map OutboxMessage.letter := by
  cases l with
  | worker l =>
    simp only [ErpSystem.step] at h
    split at h
    · obtain ⟨d, hd, rfl⟩ := Option.map_eq_some_iff.mp h
      exact letters_dispatch hd
    · cases h
  | deliver r =>
    simp only [ErpSystem.step] at h
    split at h
    · obtain ⟨d, hd, rfl⟩ := Option.map_eq_some_iff.mp h
      exact letters_dispatch hd
    · cases h
  | wake r draw =>
    simp only [ErpSystem.step] at h
    split at h
    · obtain ⟨_, _, rfl⟩ := Option.map_eq_some_iff.mp h
      exact (List.append_nil _).symm
    · cases h
  | receive | fail =>
    simp only [ErpSystem.step] at h
    split at h
    · cases h
      exact (List.append_nil _).symm
    · cases h

theorem letters_run {clock : Time} {ls : List ErpLabel}
    (hrun : (ErpSystem.initial clock).run settings ls = some s) :
    s.dispatch.board.letters = (ls.flatMap inserted).map OutboxMessage.letter := by
  induction ls using List.reverseRecOn generalizing s with
  | nil =>
    cases hrun
    rfl
  | append_singleton ls l ih =>
    obtain ⟨s', hrun', hst⟩ := Transition.run_concat_eq_some.mp hrun
    rw [letters_step hst, ih hrun', List.flatMap_append, List.map_append]
    simp

end Sound

end ErpSystem

end EcommerceIntegration
