import EcommerceIntegration.Ingest.Custody
import Mathlib.Algebra.BigOperators.Group.List.Basic
import Mathlib.Algebra.GroupWithZero.Nat

/-!
# How often a message is handed to the processor

A worker compares with the limit the number of deliveries that came with its copy: 1 with
a read, and with a reclaim the number before the claim. So the number lags behind by one
from the first reclaim on.
-/

namespace EcommerceIntegration

set_option autoImplicit false

open Transaction ConsumerGroup IngestWorker RedisStreamConsumer

theorem sum_map_set {α : Type} (f : α → Nat) {l : List α} {w : Nat} {x : α} (y : α)
    (h : l[w]? = some x) : ((l.set w y).map f).sum + f x = (l.map f).sum + f y := by
  induction l generalizing w with
  | nil => cases h
  | cons a l ih =>
    cases w with
    | zero =>
      cases h
      simp only [List.set_cons_zero, List.map_cons, List.sum_cons]
      omega
    | succ w =>
      have hrest := ih h
      simp only [List.set_cons_succ, List.map_cons, List.sum_cons]
      omega

namespace IngestSystem

/-- The message whose call of `process` ends in the step, with what the call ends in. -/
def returning (s : IngestSystem) : SystemLabel → Option (IngestMessage × Except Exn Result)
  | .act w .finish =>
    (s.workers[w]?.bind fun worker => worker.phase.current).bind fun (n, m) =>
      (s.outcome n).map fun result => (m, result)
  | _ => none

/-- A worker dies, also of an exception that nothing in its loop catches. -/
def crashes (s : IngestSystem) (l : SystemLabel) : Bool :=
  match l, s.returning l with
  | .act _ .die, _ => true
  | _, some (_, .error _) => true
  | _, _ => false

/-- The processing of the message ends in something else than RETRY. -/
def concludes (id : Nat) (s : IngestSystem) (l : SystemLabel) : Bool :=
  match s.returning l with
  | some (m, .ok result) => decide (m.messageId = id) && result.shouldAck
  | _ => false

/-- Nobody dies, and the calls for the message end in RETRY. -/
def AlwaysRetries (id : Nat) (s : IngestSystem) (l : SystemLabel) : Prop :=
  s.crashes l = false ∧ s.concludes id l = false

instance (id : Nat) (s : IngestSystem) (l : SystemLabel) : Decidable (AlwaysRetries id s l) :=
  inferInstanceAs (Decidable (_ ∧ _))

/-- A worker reclaims the message. -/
def reclaims (settings : Settings) (id : Nat) (s : IngestSystem) : SystemLabel → Bool
  | .act w .reclaim => decide (id ∈ ids (received settings s (.act w .reclaim)))
  | _ => false

/-- What the workers have, counted. -/
def tally (f : IngestPhase → Nat) (s : IngestSystem) : Nat :=
  (s.workers.map fun x => f x.phase).sum

/-- The copies of the message that are not yet handed to `process`. -/
def undone (id : Nat) (p : IngestPhase) : Nat := (ids p.batch.todo).count id

/-- The copies that the workers have got of the message. -/
def total (id : Nat) (s : IngestSystem) : Nat := s.handed.count id + tally (undone id) s

/-- The copies that have been handed to `process` and not yet sent to the dead letters. -/
def settling (id : Nat) (p : IngestPhase) : Nat :=
  (ids (p.current.toList.map Prod.snd)).count id +
    (ids (p.batch.deadLetters.map Prod.fst)).count id

variable {settings : Settings} {s t : IngestSystem} {l : SystemLabel} {id : Nat}

theorem tally_act (f : IngestPhase → Nat) (s' : IngestSystem) {w : Nat} (cycle : Nat)
    {worker : IngestWorker} (phase : IngestPhase) (hw : s.workers[w]? = some worker) :
    tally f { s' with workers := s.workers.set w ⟨cycle, phase⟩ } + f worker.phase =
      tally f s + f phase :=
  sum_map_set (fun x : IngestWorker => f x.phase) ⟨cycle, phase⟩ hw

/-! ## One act -/

section Act
variable {w : Nat} {act : WorkerAct} {worker : IngestWorker} {phase : IngestPhase}
  {s' : IngestSystem}

theorem not_raised {n : Nat} {m : IngestMessage} {e : Exn} (hw : s.workers[w]? = some worker)
    (hcur : worker.phase.current = some (n, m)) (hout : s.outcome n = some (.error e)) :
    s.crashes (.act w .finish) = true := by
  simp [crashes, returning, hw, hcur, hout]

theorem concludes_of_outcome {n : Nat} {m : IngestMessage} {result : Result}
    (hw : s.workers[w]? = some worker) (hcur : worker.phase.current = some (n, m))
    (hout : s.outcome n = some (.ok result)) :
    s.concludes m.messageId (.act w .finish) = result.shouldAck := by
  simp [concludes, returning, hw, hcur, hout]

/-- Copies are handed to `process` or stay to be done. -/
theorem Acted.total (hw : s.workers[w]? = some worker)
    (h : Acted settings s w worker.cycle act worker.phase s' phase)
    (hcrash : s.crashes (.act w act) = false)
    (hvalid : ∀ m ∈ worker.phase.held, m.messageId = id → m.payload ≠ none) :
    s'.handed.count id + undone id phase =
      s.handed.count id + undone id worker.phase +
        (ids (received settings s (.act w act))).count id := by
  obtain ⟨cycle, old⟩ := worker
  unfold undone
  cases h with
  | stop => simp [received]
  | read hpos hnext =>
    have hne : settings.consumerBatchSize ≠ 0 := Nat.pos_iff_ne_zero.mp hpos
    rcases hnext with rfl | rfl
    · simp [received, hw, hne]
    · simp [received, hw, hne]
  | reclaim =>
    simp [received, hw]
    omega
  | @invalid message todo acks dead hpayload =>
    have hheld : message ∈ (IngestPhase.handling ⟨message :: todo, acks, dead⟩).held := by
      simp [IngestPhase.held]
    have hne : message.messageId ≠ id := fun hid => hvalid message hheld hid hpayload
    simp [received, List.count_cons_of_ne hne]
  | hand =>
    simp [received, List.count_cons]
    omega
  | finish => simp [settle_todo, received]
  | raised hout _ => rw [not_raised hw rfl hout] at hcrash; cases hcrash
  | pendingCounts | exec | copy | bury | ack => simp [received]
  | crash | die => simp [crashes] at hcrash

/-- With the limit 1, a copy that has been handed over goes to the dead letters. -/
theorem Acted.settling (hw : s.workers[w]? = some worker)
    (h : Acted settings s w worker.cycle act worker.phase s' phase)
    (hretry : AlwaysRetries id s (.act w act))
    (hvalid : ∀ m ∈ worker.phase.held, m.messageId = id → m.payload ≠ none)
    (hexhausted : ∀ m ∈ worker.phase.held, m.messageId = id →
      deliveriesExhausted settings m = true) :
    s.handed.count id + settling id phase +
        (ids (s'.streams.deadLetters.map Prod.fst)).count id =
      s'.handed.count id + settling id worker.phase +
        (ids (s.streams.deadLetters.map Prod.fst)).count id := by
  obtain ⟨hcrash, hconcludes⟩ := hretry
  obtain ⟨cycle, old⟩ := worker
  unfold IngestSystem.settling
  have hack : ∀ acks : List Nat, (RedisStreamConsumer.ack acks s.streams).deadLetters =
      s.streams.deadLetters := by
    intro acks
    unfold RedisStreamConsumer.ack
    split <;> rfl
  cases h with
  | stop => simp
  | read hpos hnext =>
    rcases hnext with rfl | rfl
    · simp [RedisStreamConsumer.read]
    · simp [RedisStreamConsumer.read]
  | reclaim =>
    have hdead : ∀ counts, (reclaimAbandoned settings w counts s.streams).2.deadLetters =
        s.streams.deadLetters := by
      intro counts
      unfold reclaimAbandoned
      split <;> rfl
    simp [hdead]
  | @invalid message todo acks dead hpayload =>
    have hheld : message ∈ (IngestPhase.handling ⟨message :: todo, acks, dead⟩).held := by
      simp [IngestPhase.held]
    have hne : message.messageId ≠ id := fun hid => hvalid message hheld hid hpayload
    simp [List.count_cons_of_ne hne]
  | hand =>
    simp [List.count_cons]
    omega
  | @finish n message batch result _ hout _ =>
    have hheld : message ∈ (IngestPhase.processing n message batch).held := by
      simp [IngestPhase.held]
    simp only [IngestPhase.batch_handling, IngestPhase.current_handling, settle_deadLetters,
      IngestPhase.batch_processing, IngestPhase.current_processing, ids_append, List.count_append,
      Option.toList_some, Option.toList_none, List.map_cons, List.map_nil, ids_cons, ids_nil,
      List.count_nil]
    by_cases hid : message.messageId = id
    · have hnot : result.shouldAck = false := by
        rw [← concludes_of_outcome hw rfl hout, hid]
        exact hconcludes
      simp [hnot, hexhausted message hheld hid]
      omega
    · have hzero : (ids (if result.shouldAck = false ∧ deliveriesExhausted settings message = true
          then [message] else [])).count id = 0 := by
        split <;> simp [hid]
      rw [hzero, List.count_cons_of_ne hid, List.count_nil]
      omega
  | raised hout _ => rw [not_raised hw rfl hout] at hcrash; cases hcrash
  | copy =>
    simp [copyToDeadLetter, List.count_cons]
    omega
  | bury | ack => simp [hack]
  | pendingCounts | exec => simp
  | crash | die => simp [crashes] at hcrash

end Act

/-! ## One step -/

/-- The message, if it is published, is an event. -/
def IsEvent (id : Nat) (s : IngestSystem) : Prop := s.streams.stream.entries[id]? ≠ some none

theorem IsEvent.earlier (ht : IsEvent id t) (hle : s.streams.Later t.streams) : IsEvent id s :=
  fun hnone => ht (hle.entry hnone)

theorem Custody.payload (hs : Custody s) (hevent : IsEvent id s) {x : IngestWorker}
    (hx : x ∈ s.workers) : ∀ m ∈ x.phase.held, m.messageId = id → m.payload ≠ none := by
  rintro m hm rfl hnone
  have hentry := (hs.held x hx m hm).1
  rw [hnone] at hentry
  exact hevent hentry

theorem step_total (hs : Custody s) (hst : step settings s l = some t)
    (hcrash : s.crashes l = false) (hevent : IsEvent id s) :
    t.total id = s.total id + (ids (received settings s l)).count id := by
  cases l with
  | act w act =>
    obtain ⟨worker, s', phase, hw, hacted, rfl⟩ := step_act hst
    have hact := hacted.total hw hcrash (hs.payload hevent (List.mem_of_getElem? hw))
    have htally := tally_act (undone id) s' (nextCycle worker.cycle act) phase hw
    unfold total
    dsimp only
    omega
  | start =>
    cases hst
    simp [total, tally, undone, received]
  | publish | wait =>
    cases hst
    rfl
  | expire key | tick d =>
    obtain ⟨_, _, rfl⟩ := database_eq_some hst
    rfl

/-- What has been handed over is on its way to the dead letters or has come there. -/
def AllSettling (id : Nat) (s : IngestSystem) : Prop :=
  s.handed.count id =
    tally (settling id) s + (ids (s.streams.deadLetters.map Prod.fst)).count id

theorem AllSettling.step (h : AllSettling id s) (hs : Custody s)
    (hst : step settings s l = some t) (hretry : AlwaysRetries id s l) (hevent : IsEvent id s)
    (hexhausted : ∀ x ∈ s.workers, ∀ m ∈ x.phase.held, m.messageId = id →
      deliveriesExhausted settings m = true) : AllSettling id t := by
  unfold AllSettling at h ⊢
  cases l with
  | act w act =>
    obtain ⟨worker, s', phase, hw, hacted, rfl⟩ := step_act hst
    have hmem := List.mem_of_getElem? hw
    have hact := hacted.settling hw hretry (hs.payload hevent hmem) (hexhausted worker hmem)
    have htally := tally_act (settling id) s' (nextCycle worker.cycle act) phase hw
    dsimp only
    omega
  | start =>
    cases hst
    simpa [tally, settling] using h
  | publish | wait =>
    cases hst
    exact h
  | expire key | tick d =>
    obtain ⟨_, _, rfl⟩ := database_eq_some hst
    exact h

/-- A copy comes with a read, or with a count that the worker has asked for. -/
theorem received_count {m : IngestMessage} (hm : m ∈ received settings s l) :
    m.deliveryCount = firstDelivery ∨ ∃ x ∈ s.workers, ∃ messages counts,
      x.phase = .claiming messages counts ∧ (m.messageId, m.deliveryCount) ∈ counts := by
  unfold received at hm
  split at hm
  · split at hm
    · split at hm
      · cases hm
      · exact .inl (mem_read hm).2.2
    · rename_i hphase
      obtain ⟨x, hx, hxphase⟩ := Option.map_eq_some_iff.mp hphase
      exact .inr ⟨x, List.mem_of_getElem? hx, _, _, hxphase, (mem_reclaimAbandoned hm).2.2⟩
    · cases hm
  · cases hm

/-- A message that the step hands out for the first time is in the worker's hands. -/
theorem received_new (hst : step settings s l = some t)
    (hold : s.streams.stream.delivered ≤ id) (hnew : id < t.streams.stream.delivered) :
    (ids (received settings s l)).count id = 1 := by
  have hsame : t.streams.stream.delivered ≠ s.streams.stream.delivered := by omega
  have hack : ∀ acks : List Nat, (RedisStreamConsumer.ack acks s.streams).stream.delivered =
      s.streams.stream.delivered := by
    intro acks
    unfold RedisStreamConsumer.ack
    split <;> rfl
  cases l with
  | act w act =>
    obtain ⟨worker, s', phase, hw, hacted, rfl⟩ := step_act hst
    obtain ⟨cycle, old⟩ := worker
    cases hacted with
    | read hpos _ =>
      have hne : settings.consumerBatchSize ≠ 0 := Nat.pos_iff_ne_zero.mp hpos
      simp only [received, hw, Option.map_some, if_neg hne, ids_read]
      rw [Stream.count_fresh, if_pos ⟨hold, hnew⟩]
    | reclaim =>
      refine absurd ?_ hsame
      unfold reclaimAbandoned
      split <;> rfl
    | bury | ack => exact absurd (hack _) hsame
    | stop | pendingCounts | invalid | hand | exec | finish | raised | copy | crash | die =>
      exact absurd rfl hsame
  | publish | start | wait =>
    cases hst
    exact absurd rfl hsame
  | expire key | tick d =>
    obtain ⟨_, _, rfl⟩ := database_eq_some hst
    exact absurd rfl hsame

/-- Nothing is received that is not handed out. -/
theorem received_unseen (hst : step settings s l = some t)
    (hunseen : t.streams.stream.delivered ≤ id) : (ids (received settings s l)).count id = 0 := by
  refine List.count_eq_zero.mpr fun hmem => ?_
  obtain ⟨m, hm, rfl⟩ := List.mem_map.mp hmem
  have hlt := (received_delivered hst hm).2
  omega

/-! ## The counts that the copies carry -/

/-- The copy is the first, or one that has been counted before it was claimed. -/
def Fits (total count : Nat) : Prop := count = firstDelivery ∨ (1 ≤ count ∧ count + 1 ≤ total)

theorem Fits.mono {total total' count : Nat} (h : Fits total count) (hle : total ≤ total') :
    Fits total' count := by
  unfold Fits at h ⊢
  omega

theorem Fits.positive {total count : Nat} (h : Fits total count) : 1 ≤ count := by
  unfold Fits firstDelivery at h
  omega

structure Counted (settings : Settings) (id : Nat) (s : IngestSystem) : Prop where
  pending : ∀ p ∈ s.streams.stream.pending, p.id = id → p.deliveries = s.total id
  unseen : s.streams.stream.delivered ≤ id → s.total id = 0
  seen : id < s.streams.stream.delivered → 1 ≤ s.total id
  counts : ∀ x ∈ s.workers, ∀ messages counts, x.phase = .claiming messages counts →
    ∀ c, (id, c) ∈ counts → 1 ≤ c ∧ c ≤ s.total id
  copies : ∀ x ∈ s.workers, ∀ m ∈ x.phase.held, m.messageId = id →
    Fits (s.total id) m.deliveryCount
  leaving : ∀ x ∈ s.workers, ∀ m ∈ x.phase.leaving, m.messageId = id →
    settings.consumerMaxDelivery ≤ m.deliveryCount
  dead : ∀ d ∈ s.streams.deadLetters, d.1.messageId = id →
    Fits (s.total id) d.1.deliveryCount ∧ settings.consumerMaxDelivery ≤ d.1.deliveryCount
  acks : ∀ x ∈ s.workers, id ∉ x.phase.batch.acknowledgeable
  buried : ∀ x ∈ s.workers, ∀ m, x.phase.buried = some m →
    ∃ d ∈ s.streams.deadLetters, d.1.messageId = m.messageId
  acked : s.streams.stream.Acknowledged id → ∃ d ∈ s.streams.deadLetters, d.1.messageId = id

theorem Counted.initial (settings : Settings) (id : Nat) (clock : Time) :
    Counted settings id (initial clock) := by
  constructor <;> simp [IngestSystem.initial, total, tally, Stream.empty, Stream.Acknowledged]

/-- The count with which a copy comes was right before the claim. -/
theorem Counted.received (h : Counted settings id s) {m : IngestMessage}
    (hm : m ∈ received settings s l) (hid : m.messageId = id) :
    Fits (s.total id + (ids (IngestSystem.received settings s l)).count id) m.deliveryCount := by
  have hpos : 1 ≤ (ids (IngestSystem.received settings s l)).count id := by
    refine List.count_pos_iff.mpr ?_
    rw [← hid]
    exact List.mem_map_of_mem hm
  rcases received_count hm with hfirst | ⟨x, hx, messages, counts, hphase, hcount⟩
  · exact .inl hfirst
  · rw [hid] at hcount
    obtain ⟨hone, hle⟩ := h.counts x hx messages counts hphase _ hcount
    exact .inr ⟨hone, by omega⟩

theorem Acted.counts {w cycle : Nat} {act : WorkerAct} {phase : IngestPhase} {s' : IngestSystem}
    {messages : List IngestMessage} {counts : List (Nat × Nat)}
    (h : Acted settings s w cycle act phase s' (.claiming messages counts)) {c : Nat}
    (hc : (id, c) ∈ counts) :
    ∃ p ∈ s.streams.stream.pending, p.id = id ∧ p.deliveries = c := by
  generalize hphase : IngestPhase.claiming messages counts = phase' at h
  cases h with
  | pendingCounts answered =>
    cases hphase
    unfold pendingDeliveryCounts at hc
    split at hc
    · obtain ⟨p, hp, heq⟩ := List.mem_map.mp hc
      obtain ⟨rfl, rfl⟩ := Prod.mk.inj heq
      exact ⟨p, List.mem_of_mem_filter (List.mem_of_mem_take hp), rfl, rfl⟩
    · cases hc
  | read _ hnext =>
    rcases hnext with rfl | rfl
    · unfold handle at hphase
      split at hphase <;> cases hphase
    · cases hphase
  | reclaim =>
    unfold handle at hphase
    split at hphase <;> cases hphase
  | stop | invalid | hand | exec | finish | raised | copy | bury | ack | crash | die =>
    cases hphase

theorem Counted.step (h : Counted settings id s) (hs : Custody s)
    (hst : step settings s l = some t) (hretry : AlwaysRetries id s l) (hevent : IsEvent id s) :
    Counted settings id t := by
  have htotal := step_total hs hst hretry.1 hevent
  have hlater := step_later hst
  have hmono : s.total id ≤ t.total id := htotal ▸ Nat.le_add_right _ _
  have hdead : (∃ d ∈ s.streams.deadLetters, d.1.messageId = id) →
      ∃ d ∈ t.streams.deadLetters, d.1.messageId = id := by
    rintro ⟨d, hd, hid⟩
    exact ⟨d, hlater.deadLetters.subset hd, hid⟩
  refine ⟨?_, ?_, ?_, ?_, ?_, ?_, ?_, ?_, ?_, ?_⟩
  · rintro p hp rfl
    rcases step_pending hst hp with ⟨q, hq, hid, heq⟩ | ⟨hnew, hone, hcount⟩
    · rw [heq, htotal, h.pending q hq hid]
    · rw [hone, htotal, h.unseen hnew, hcount]
  · intro hunseen
    rw [htotal, received_unseen hst hunseen, h.unseen (hlater.delivered.trans hunseen)]
  · intro hseen
    by_cases hold : id < s.streams.stream.delivered
    · exact (h.seen hold).trans hmono
    · rw [htotal, received_new hst (Nat.le_of_not_lt hold) hseen]
      exact Nat.le_add_left _ _
  · intro x hx messages counts hphase c hc
    obtain ⟨w, hw⟩ := List.getElem?_of_mem hx
    rcases worker_cases hst hw with ⟨hold, _⟩ | ⟨_, rfl⟩ | ⟨act, worker, s', rfl, hworker, hacted, _⟩
    · obtain ⟨hone, hle⟩ := h.counts x (List.mem_of_getElem? hold) messages counts hphase c hc
      exact ⟨hone, hle.trans hmono⟩
    · cases hphase
    · rw [hphase] at hacted
      obtain ⟨p, hp, hid, rfl⟩ := hacted.counts hc
      have hlt := s.streams.stream.pending_lt p hp
      rw [h.pending p hp hid]
      exact ⟨h.seen (hid ▸ hlt), hmono⟩
  · intro x hx m hm hid
    obtain ⟨w, hw⟩ := List.getElem?_of_mem hx
    rcases worker_cases hst hw with ⟨hold, _⟩ | ⟨_, rfl⟩ | ⟨act, worker, s', rfl, hworker, hacted, _⟩
    · exact (h.copies x (List.mem_of_getElem? hold) m hm hid).mono hmono
    · simp [IngestPhase.held, IngestPhase.leaving] at hm
    · rcases hacted.held hworker hm with hold | hnew
      · exact (h.copies worker (List.mem_of_getElem? hworker) m hold hid).mono hmono
      · exact htotal ▸ h.received hnew hid
  · intro x hx m hm hid
    obtain ⟨w, hw⟩ := List.getElem?_of_mem hx
    rcases worker_cases hst hw with ⟨hold, _⟩ | ⟨_, rfl⟩ | ⟨act, worker, s', rfl, hworker, hacted, _⟩
    · exact h.leaving x (List.mem_of_getElem? hold) m hm hid
    · simp [IngestPhase.leaving] at hm
    · have hmem := List.mem_of_getElem? hworker
      rcases hacted.leaving hm with hold | ⟨hheld, hnone | hexhausted⟩
      · exact h.leaving worker hmem m hold hid
      · exact absurd hnone (hs.payload hevent hmem m hheld hid)
      · exact of_decide_eq_true hexhausted
  · intro d hd hid
    rcases step_deadLetters hst hd with hold | ⟨x, hx, _, _, hleaving, _⟩
    · obtain ⟨hfits, hlimit⟩ := h.dead d hold hid
      exact ⟨hfits.mono hmono, hlimit⟩
    · have hheld : d.1 ∈ x.phase.held :=
        List.mem_append_right _ (List.mem_append_right _ hleaving)
      exact ⟨(h.copies x hx d.1 hheld hid).mono hmono, h.leaving x hx d.1 hleaving hid⟩
  · intro x hx hid
    obtain ⟨w, hw⟩ := List.getElem?_of_mem hx
    rcases worker_cases hst hw with ⟨hold, _⟩ | ⟨_, rfl⟩ | ⟨act, worker, s', rfl, hworker, hacted, _⟩
    · exact h.acks x (List.mem_of_getElem? hold) hid
    · cases hid
    · rcases hacted.acknowledgeable hid with hold | ⟨n, m, result, rfl, hcur, rfl, hout, hack, _⟩
      · exact h.acks worker (List.mem_of_getElem? hworker) hold
      · have hconcludes := hretry.2
        rw [concludes_of_outcome hworker hcur hout, hack] at hconcludes
        cases hconcludes
  · intro x hx m hm
    obtain ⟨w, hw⟩ := List.getElem?_of_mem hx
    rcases worker_cases hst hw with ⟨hold, _⟩ | ⟨_, rfl⟩ |
      ⟨act, worker, s', rfl, _, hacted, _, hstreams⟩
    · obtain ⟨d, hd, hid⟩ := h.buried x (List.mem_of_getElem? hold) m hm
      exact ⟨d, hlater.deadLetters.subset hd, hid⟩
    · cases hm
    · obtain ⟨d, hd, rfl⟩ := hacted.buried hm
      exact ⟨d, hstreams ▸ hd, rfl⟩
  · intro hack
    rcases step_acknowledged hst hack with hold | ⟨w, x, hx, ⟨_, hmem⟩ | ⟨m, _, hburied, rfl⟩⟩
    · exact hdead (h.acked hold)
    · exact absurd hmem (h.acks x (List.mem_of_getElem? hx))
    · exact hdead (h.buried x (List.mem_of_getElem? hx) m hburied)

/-! ## No message is acknowledged before its copy is a dead letter -/

/-- A dead letter is acknowledged, or its worker is about to. -/
def Closing (id : Nat) (s : IngestSystem) : Prop :=
  (∃ d ∈ s.streams.deadLetters, d.1.messageId = id) →
    s.streams.stream.Acknowledged id ∨
      ∃ x ∈ s.workers, ∃ m, x.phase.buried = some m ∧ m.messageId = id

theorem step_stays_acknowledged (hst : step settings s l = some t)
    (hack : s.streams.stream.Acknowledged id) : t.streams.stream.Acknowledged id := by
  cases l with
  | act w act =>
    obtain ⟨⟨cycle, old⟩, s', phase, _, hacted, rfl⟩ := step_act hst
    cases hacted with
    | read => exact Stream.acknowledged_xreadgroup.mpr hack
    | reclaim => exact reclaimAbandoned_acknowledged.mpr hack
    | bury | ack => exact ack_acknowledged.mpr (.inl hack)
    | stop | pendingCounts | invalid | hand | exec | finish | raised | copy | crash | die =>
      exact hack
  | publish | start | wait =>
    cases hst
    exact hack
  | expire key | tick d =>
    obtain ⟨_, _, rfl⟩ := database_eq_some hst
    exact hack

theorem Closing.step (h : Closing id s) (hs : Custody s) (hst : step settings s l = some t)
    (hcrash : s.crashes l = false) : Closing id t := by
  rintro ⟨d, hd, rfl⟩
  rcases step_deadLetters hst hd with hold | ⟨_, _, y, hy, _, hburied⟩
  · rcases h ⟨d, hold, rfl⟩ with hack | ⟨x, hx, m, hburied, hid⟩
    · exact .inl (step_stays_acknowledged hst hack)
    · obtain ⟨w, hw⟩ := List.getElem?_of_mem hx
      by_cases hact : ∃ act, l = .act w act
      · obtain ⟨act, rfl⟩ := hact
        obtain ⟨worker, s', phase, hworker, hacted, rfl⟩ := step_act hst
        obtain rfl := Option.some.inj (hw.symm.trans hworker)
        obtain ⟨cycle, old⟩ := x
        cases hacted with
        | bury =>
          cases hburied
          have hheld := (hs.held _ hx m (by simp [IngestPhase.held, IngestPhase.leaving])).2
          exact .inl (ack_acknowledged.mpr (.inr ⟨hid ▸ hheld, by simp [hid]⟩))
        | die => simp [crashes] at hcrash
        | stop | read | pendingCounts | reclaim | invalid | hand | exec | finish | raised | copy
        | ack | crash => cases hburied
      · refine .inr ⟨x, ?_, m, hburied, hid⟩
        exact List.mem_of_getElem? (step_others hst hw fun act heq => hact ⟨act, heq⟩)
  · exact .inr ⟨y, hy, d.1, hburied, rfl⟩

/-! ## Runs -/

/-- The message is handed to `process` as often as the limit says, and is then a dead
letter and acknowledged. -/
def WithinLimit (settings : Settings) (id : Nat) (s : IngestSystem) : Prop :=
  s.handed.count id = settings.consumerMaxDelivery ∧
    (ids (s.streams.deadLetters.map Prod.fst)).count id = 1 ∧ s.streams.stream.Acknowledged id

/-- A delivery that is not a reclaim is the first one. -/
theorem received_first (hst : step settings s l = some t)
    (hfirst : reclaims settings id s l = false)
    (hid : 0 < (ids (received settings s l)).count id) :
    s.streams.stream.delivered ≤ id ∧ (ids (received settings s l)).count id = 1 := by
  have hmem := List.count_pos_iff.mp hid
  cases l with
  | publish | start | wait | expire | tick => cases hmem
  | act w act =>
    obtain ⟨⟨cycle, old⟩, s', phase, hw, hacted, _⟩ := step_act hst
    cases hacted with
    | read hpos _ =>
      have hne : settings.consumerBatchSize ≠ 0 := Nat.pos_iff_ne_zero.mp hpos
      simp only [received, hw, Option.map_some, if_neg hne, ids_read, Stream.count_fresh] at hid ⊢
      split at hid
      · rename_i hrange
        exact ⟨hrange.1, if_pos hrange⟩
      · cases hid
    | reclaim => exact absurd hmem (of_decide_eq_false hfirst)
    | stop | pendingCounts | invalid | hand | exec | finish | raised | copy | bury | ack | crash
    | die => simp [received] at hmem

structure Tracked (settings : Settings) (id : Nat) (s : IngestSystem) : Prop where
  custody : Custody s
  counted : Counted settings id s
  closing : Closing id s

theorem Tracked.step (h : Tracked settings id s) (hst : step settings s l = some t)
    (hretry : AlwaysRetries id s l) (hevent : IsEvent id s) : Tracked settings id t :=
  ⟨h.custody.step hst, h.counted.step h.custody hst hretry hevent,
    h.closing.step h.custody hst hretry.1⟩

theorem Tracked.initial (settings : Settings) (id : Nat) (clock : Time) :
    Tracked settings id (initial clock) where
  custody := Custody.initial clock
  counted := Counted.initial settings id clock
  closing := by
    rintro ⟨d, hd, _⟩
    cases hd

/-- The message was an event all along. -/
theorem along_isEvent {ls : List SystemLabel} (hrun : Transition.run (step settings) s ls = some t)
    (hevent : IsEvent id t) : Transition.Along (step settings) (fun u _ => IsEvent id u) s ls := by
  rw [Transition.along_iff]
  rintro ks l ms u rfl hbefore
  obtain ⟨u', hu', hrest⟩ := Transition.run_append_eq_some.mp hrun
  obtain rfl := Option.some.inj (hbefore.symm.trans hu')
  have hlater : u.streams.Later t.streams :=
    Transition.run_relates_along (R := fun u v : IngestSystem => u.streams.Later v.streams)
      (fun _ => Streams.Later.refl _) Streams.Later.trans (fun _ _ _ _ hst => step_later hst)
      (Transition.along_true u (l :: ms)) hrest
  exact hevent.earlier hlater

section Run
variable {clock : Time} {ls : List SystemLabel}

/-- What a run of the claimed kind keeps. -/
theorem tracked_invariant {P : IngestSystem → SystemLabel → Prop} {F : IngestSystem → Prop}
    (hretry : Transition.Along (step settings) (AlwaysRetries id) s ls)
    (hP : Transition.Along (step settings) P s ls) (hs : Tracked settings id s) (hF : F s)
    (hevent : IsEvent id t) (hrun : Transition.run (step settings) s ls = some t)
    (hstep : ∀ u l v, Tracked settings id u → F u → P u l → AlwaysRetries id u l → IsEvent id u →
      step settings u l = some v → F v) : Tracked settings id t ∧ F t := by
  have hall : Transition.Along (step settings)
      (fun u l => (AlwaysRetries id u l ∧ P u l) ∧ IsEvent id u) s ls := by
    have hev := along_isEvent hrun hevent
    rw [Transition.along_iff] at hretry hP hev ⊢
    intro ks l ms u heq hbefore
    exact ⟨⟨hretry ks l ms u heq hbefore, hP ks l ms u heq hbefore⟩,
      hev ks l ms u heq hbefore⟩
  refine Transition.run_invariant_along
    (fun u l v (hu : Tracked settings id u ∧ F u) hl hst => ⟨?_, ?_⟩) ⟨hs, hF⟩ hall hrun
  · exact hu.1.step hst hl.1.1 hl.2
  · exact hstep u l v hu.1 hu.2 hl.1.2 hl.1.1 hl.2 hst

theorem tally_eq_zero {f : IngestPhase → Nat} (hzero : ∀ x ∈ s.workers, f x.phase = 0) :
    tally f s = 0 := by
  refine List.sum_eq_zero fun n hn => ?_
  obtain ⟨x, hx, rfl⟩ := List.mem_map.mp hn
  exact hzero x hx

theorem count_ids_eq_zero {ms : List IngestMessage} (h : ∀ m ∈ ms, m.messageId ≠ id) :
    (ids ms).count id = 0 := by
  refine List.count_eq_zero.mpr fun hmem => ?_
  obtain ⟨m, hm, hid⟩ := List.mem_map.mp hmem
  exact h m hm hid

/-- When no worker has a copy, all have been handed over. -/
theorem total_of_free (hfree : ∀ x ∈ s.workers, ∀ m ∈ x.phase.held, m.messageId ≠ id) :
    s.total id = s.handed.count id := by
  have hzero : tally (undone id) s = 0 := tally_eq_zero fun x hx =>
    count_ids_eq_zero fun m hm => hfree x hx m (List.mem_append_left _ hm)
  rw [total, hzero, Nat.add_zero]

theorem settling_of_free (hfree : ∀ x ∈ s.workers, ∀ m ∈ x.phase.held, m.messageId ≠ id) :
    tally (settling id) s = 0 := by
  refine tally_eq_zero fun x hx => ?_
  have hcurrent : (ids (x.phase.current.toList.map Prod.snd)).count id = 0 :=
    count_ids_eq_zero fun m hm =>
      hfree x hx m (List.mem_append_right _ (List.mem_append_left _ hm))
  have hdead : (ids (x.phase.batch.deadLetters.map Prod.fst)).count id = 0 :=
    count_ids_eq_zero fun m hm => hfree x hx m
      (List.mem_append_right _ (List.mem_append_right _ (List.mem_append_left _ hm)))
  rw [settling, hcurrent, hdead]

/-- A reclaim is a delivery at least for the second time. -/
theorem two_le_total (hs : Tracked settings id s) (hst : step settings s l = some t)
    (hretry : AlwaysRetries id s l) (hevent : IsEvent id s)
    (hreclaim : reclaims settings id s l = true) : 2 ≤ t.total id := by
  have htotal := step_total hs.custody hst hretry.1 hevent
  unfold reclaims at hreclaim
  split at hreclaim
  · rename_i w
    have hmem := of_decide_eq_true hreclaim
    have hcount := List.count_pos_iff.mpr hmem
    obtain ⟨worker, s', phase, hw, hacted, _⟩ := step_act hst
    obtain ⟨cycle, old⟩ := worker
    cases hacted
    simp only [received, hw, Option.map_some] at hmem
    obtain ⟨m, hm, rfl⟩ := List.mem_map.mp hmem
    have hseen := hs.counted.seen (mem_reclaimAbandoned hm).1.2
    omega
  · cases hreclaim

/-- When nobody holds the message any more, it has been handed over within the limit
exactly if the limit is 1 and it was never reclaimed. -/
theorem deliveryLimit_iff {i : EventEnvelope} (hlimit : 1 ≤ settings.consumerMaxDelivery)
    (hretry : Transition.Along (step settings) (AlwaysRetries id) (initial clock) ls)
    (hrun : run settings clock ls = some s)
    (hevent : s.streams.stream.entries[id]? = some (some i))
    (hdelivered : id < s.streams.stream.delivered)
    (hfree : ∀ x ∈ s.workers, ∀ m ∈ x.phase.held, m.messageId ≠ id) :
    WithinLimit settings id s ↔ settings.consumerMaxDelivery = 1 ∧
      Transition.Along (step settings) (fun u l => reclaims settings id u l = false)
        (initial clock) ls := by
  have hisEvent : IsEvent id s := by
    intro hnone
    rw [hevent] at hnone
    cases hnone
  have hinit := Tracked.initial settings id clock
  have htotal := total_of_free hfree
  constructor
  · rintro ⟨hhanded, hdead, _⟩
    obtain ⟨htracked, _⟩ := tracked_invariant (F := fun _ => True) hretry
      (Transition.along_true _ _) hinit trivial hisEvent hrun fun _ _ _ _ _ _ _ _ _ => trivial
    have hpos : 0 < (ids (s.streams.deadLetters.map Prod.fst)).count id := by omega
    obtain ⟨m, hm, hid⟩ := List.mem_map.mp (List.count_pos_iff.mp hpos)
    obtain ⟨d, hd, rfl⟩ := List.mem_map.mp hm
    obtain ⟨hfits, hexhausted⟩ := htracked.counted.dead d hd hid
    unfold Fits firstDelivery at hfits
    have hone : settings.consumerMaxDelivery = 1 := by omega
    refine ⟨hone, Transition.along_iff.mpr ?_⟩
    rintro ks l ms u rfl hbefore
    by_contra hnot
    have hreclaim : reclaims settings id u l = true := by simpa using hnot
    obtain ⟨u', hu', hrest⟩ := Transition.run_append_eq_some.mp hrun
    obtain rfl := Option.some.inj (hbefore.symm.trans hu')
    obtain ⟨v, hst, hafter⟩ := Transition.run_cons_eq_some.mp hrest
    obtain ⟨hretry₀, hrest₀⟩ := Transition.along_append hretry
    obtain ⟨hretry₁, hretry₂⟩ := hrest₀ u hbefore
    have hevent₁ := Transition.along_at (along_isEvent hrun hisEvent) hbefore
    obtain ⟨hu, _⟩ := tracked_invariant (F := fun _ => True) hretry₀
      (Transition.along_true _ _) hinit trivial hevent₁ hbefore fun _ _ _ _ _ _ _ _ _ => trivial
    have htwo := two_le_total hu hst hretry₁ hevent₁ hreclaim
    obtain ⟨_, hend⟩ := tracked_invariant (F := fun u => 2 ≤ u.total id) (hretry₂ v hst)
      (Transition.along_true _ _) (hu.step hst hretry₁ hevent₁) htwo hisEvent hafter
      fun u l v hu hF _ hl hev hst => by
        have hstep := step_total hu.custody hst hl.1 hev
        omega
    omega
  · rintro ⟨hone, hfirst⟩
    obtain ⟨htracked, hle, hsettling⟩ := tracked_invariant
      (F := fun u => u.total id ≤ 1 ∧ AllSettling id u) hretry hfirst hinit
      ⟨Nat.zero_le _, rfl⟩ hisEvent hrun fun u l v hu hF hl hretry hev hst => by
        have hstep := step_total hu.custody hst hretry.1 hev
        refine ⟨?_, hF.2.step hu.custody hst hretry hev fun x hx m hm hid => ?_⟩
        · by_cases hnew : 0 < (ids (received settings u l)).count id
          · obtain ⟨hunseen, hcount⟩ := received_first hst hl hnew
            have hzero := hu.counted.unseen hunseen
            omega
          · omega
        · have hpositive := (hu.counted.copies x hx m hm hid).positive
          exact decide_eq_true (hone ▸ hpositive)
    have hseen := htracked.counted.seen hdelivered
    unfold AllSettling at hsettling
    rw [settling_of_free hfree] at hsettling
    have hdead : (ids (s.streams.deadLetters.map Prod.fst)).count id = 1 := by omega
    refine ⟨by omega, hdead, ?_⟩
    have hpos : 0 < (ids (s.streams.deadLetters.map Prod.fst)).count id := by omega
    obtain ⟨m, hm, hid⟩ := List.mem_map.mp (List.count_pos_iff.mp hpos)
    obtain ⟨d, hd, rfl⟩ := List.mem_map.mp hm
    rcases htracked.closing ⟨d, hd, hid⟩ with hack | ⟨x, hx, m, hburied, hm⟩
    · exact hack
    · exact absurd hm (hfree x hx m (by simp [IngestPhase.held, IngestPhase.leaving, hburied]))

end Run

end IngestSystem

/-! ## An invoice whose order never comes -/

namespace Sample
open IngestSystem

def limited (n : Nat) : Settings := { consumerMaxDelivery := n }

def acts (w : Nat) (as : List WorkerAct) : List SystemLabel := as.map (.act w)

/-- A call of `process` that ends in RETRY. -/
def retried : List WorkerAct := [.persist] ++ List.replicate 6 (.exec .ok) ++ [.finish]

def buried : List WorkerAct := [.copy, .bury, .ack]

def firstRead : List SystemLabel :=
  [.publish (some invoice1), .start] ++ acts 0 ([.read] ++ retried)

/-- The message has been idle long enough at the cycle that reclaims. -/
def reclaimed (reads : Nat) : List SystemLabel :=
  [.wait 60000] ++
    acts 0 (List.replicate reads .read ++ [.pendingCounts true, .reclaim] ++ retried)

def oneCall : List SystemLabel := firstRead ++ acts 0 buried

def threeCalls : List SystemLabel :=
  firstRead ++ acts 0 [.ack] ++ reclaimed 19 ++ acts 0 [.ack] ++ reclaimed 20 ++ acts 0 buried

def oneCallEnd : IngestSystem := (run (limited 1) 0 oneCall).get (by decide +kernel)

def threeCallsEnd : IngestSystem := (run (limited 2) 0 threeCalls).get (by decide +kernel)

end Sample

theorem IngestSystem.deliveryLimit_iff_oneCall :
    WithinLimit (Sample.limited 1) 0 Sample.oneCallEnd ↔ (Sample.limited 1).consumerMaxDelivery = 1 ∧
      Transition.Along (step (Sample.limited 1))
        (fun u l => reclaims (Sample.limited 1) 0 u l = false) (initial 0) Sample.oneCall :=
  deliveryLimit_iff (i := Sample.invoice1) (by decide) (by decide +kernel) (Option.some_get _).symm
    rfl (by decide +kernel) (by decide +kernel)

/-- With the limit 2 the message is handed over for a third time. -/
theorem IngestSystem.deliveryLimit_exceeded :
    ¬ ∀ (settings : Settings) (clock : Time) (ls : List SystemLabel) (s : IngestSystem) (id : Nat)
      (i : EventEnvelope), 1 ≤ settings.consumerMaxDelivery →
      Transition.Along (step settings) (AlwaysRetries id) (initial clock) ls →
      run settings clock ls = some s → s.streams.stream.entries[id]? = some (some i) →
      s.streams.stream.Acknowledged id →
      (∀ x ∈ s.workers, ∀ m ∈ x.phase.held, m.messageId ≠ id) → WithinLimit settings id s := by
  intro hall
  have hwithin := hall (Sample.limited 2) 0 Sample.threeCalls Sample.threeCallsEnd 0
    Sample.invoice1 (by decide) (by decide +kernel) (Option.some_get _).symm rfl
    (by decide +kernel) (by decide +kernel)
  have hcount := hwithin.1
  revert hcount
  decide +kernel

end EcommerceIntegration
