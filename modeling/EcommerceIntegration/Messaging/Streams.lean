import EcommerceIntegration.Config
import EcommerceIntegration.Library.ConsumerGroup
import EcommerceIntegration.Library.Transition

/-!
# The event stream and its dead letters

What the publisher and the consumers do to Redis. `α` is the type of the payloads. The calls
are those of Redis while each stream is within the `MAXLEN` of its `XADD`. What trimming may
take from longer streams is a `Streams.Trimming`.
-/

namespace EcommerceIntegration

set_option autoImplicit false

open ConsumerGroup

variable {α : Type}

structure StreamMessage (α : Type) where
  messageId : Nat
  payload : α
  deliveryCount : Nat

/-- A message with the reason why it goes to the dead-letter stream. -/
abbrev DeadLetter (α : Type) := StreamMessage α × String

/-- A dead letter has the payload and the reason. Which message it was, and its count, are
kept here to tell the copies apart. `now` is the clock of Redis in milliseconds. -/
structure Streams (α : Type) where
  stream : Stream α := .empty
  deadLetters : List (DeadLetter α) := []
  now : Nat := 0

def deadLetterMaxlen : Nat := 100000

/-- How many of the oldest entries `XADD` has trimmed. `MAXLEN ~` may leave more entries than
the limit and never takes one within it. -/
structure Streams.Trimming (settings : Settings) (s : Streams α) where
  entries : Nat
  deadLetters : Nat
  entries_le : entries ≤ s.stream.entries.length - settings.streamMaxlen
  deadLetters_le : deadLetters ≤ s.deadLetters.length - deadLetterMaxlen

section Trimming
variable {settings : Settings} {s : Streams α} (trimming : s.Trimming settings)

theorem Streams.Trimming.entries_eq_zero (h : s.stream.entries.length ≤ settings.streamMaxlen) :
    trimming.entries = 0 := by
  have hle := trimming.entries_le
  omega

theorem Streams.Trimming.deadLetters_eq_zero (h : s.deadLetters.length ≤ deadLetterMaxlen) :
    trimming.deadLetters = 0 := by
  have hle := trimming.deadLetters_le
  omega

end Trimming

namespace RedisStreamPublisher

def healthyLagWhenUnmeasurable : Nat := 0

def publishMany (events : List α) (s : Streams α) : Streams α :=
  { s with stream := events.foldl (fun stream event => stream.xadd event) s.stream }

/-- From the answer to `XLEN`, `none` when the call raises. -/
def pendingLag : Option Nat → Nat
  | some length => length
  | none => healthyLagWhenUnmeasurable

end RedisStreamPublisher

namespace RedisStreamConsumer

def firstDelivery : Nat := 1

def read (settings : Settings) (consumer : Nat) (s : Streams α) :
    List (StreamMessage α) × Streams α :=
  ((s.stream.fresh settings.consumerBatchSize).map fun e => ⟨e.2, e.1, firstDelivery⟩,
    { s with stream := s.stream.xreadgroup consumer settings.consumerBatchSize s.now })

/-- Message ids with the number of their deliveries so far. A `ResponseError` counts as
no pending message. -/
def pendingDeliveryCounts (settings : Settings) (answered : Bool) (s : Streams α) :
    List (Nat × Nat) :=
  if answered then
    (s.stream.xpendingRange settings.consumerBatchSize settings.consumerIdleReclaimMs s.now).map
      fun p => (p.id, p.deliveries)
  else []

/-- `reclaim_abandoned` after `counts` have been read. -/
def reclaimAbandoned (settings : Settings) (consumer : Nat) (counts : List (Nat × Nat))
    (s : Streams α) : List (StreamMessage α) × Streams α :=
  if counts = [] then ([], s)
  else
    let ids := counts.map Prod.fst
    ((s.stream.claimed ids settings.consumerIdleReclaimMs s.now).map fun e =>
        ⟨e.2, e.1, (counts.lookup e.2).getD firstDelivery⟩,
      { s with
        stream := s.stream.xclaim consumer ids settings.consumerIdleReclaimMs s.now })

def ack (messageIds : List Nat) (s : Streams α) : Streams α :=
  if messageIds = [] then s else { s with stream := s.stream.xack messageIds }

/-- `send_to_dead_letter` up to its acknowledgement. -/
def copyToDeadLetter (message : StreamMessage α) (reason : String) (s : Streams α) : Streams α :=
  { s with
    deadLetters := s.deadLetters ++ [(message, String.ofList (reason.toList.take 500))] }

def sendToDeadLetter (message : StreamMessage α) (reason : String) (s : Streams α) : Streams α :=
  ack [message.messageId] (copyToDeadLetter message reason s)

end RedisStreamConsumer

/-! ## Any history of calls -/

inductive StreamLabel (α : Type)
  | publishMany (events : List α)
  | read (consumer : Nat)
  | reclaim (consumer : Nat) (counts : List (Nat × Nat))
  | ack (messageIds : List Nat)
  | sendToDeadLetter (message : StreamMessage α) (reason : String)
  | wait (ms : Nat)

open RedisStreamPublisher RedisStreamConsumer

namespace Streams

def step (settings : Settings) (s : Streams α) : StreamLabel α → Option (Streams α)
  | .publishMany events => some (publishMany events s)
  | .read consumer => some (read settings consumer s).2
  | .reclaim consumer counts => some (reclaimAbandoned settings consumer counts s).2
  | .ack messageIds => some (RedisStreamConsumer.ack messageIds s)
  | .sendToDeadLetter message reason => some (RedisStreamConsumer.sendToDeadLetter message reason s)
  | .wait ms => some { s with now := s.now + ms }

def run (settings : Settings) (ls : List (StreamLabel α)) : Option (Streams α) :=
  Transition.run (step settings) {} ls

end Streams

/-! ## Publishing -/

@[simp] theorem publishMany_acknowledged {events : List α} {s : Streams α} {id : Nat} :
    (publishMany events s).stream.Acknowledged id ↔ s.stream.Acknowledged id := by
  simp only [publishMany]
  generalize s.stream = stream
  induction events generalizing stream with
  | nil => rfl
  | cons event events ih => exact (ih (stream.xadd event)).trans Stream.acknowledged_xadd

theorem publishMany_entries (events : List α) (s : Streams α) :
    (publishMany events s).stream.entries = s.stream.entries ++ events := by
  simp only [publishMany]
  generalize s.stream = stream
  induction events generalizing stream with
  | nil => simp
  | cons event events ih =>
    rw [List.foldl_cons, ih]
    simp [Stream.xadd]

/-! ## What every call keeps -/

/-- Entries, deliveries and dead letters are only added. -/
structure Streams.Later (s t : Streams α) : Prop where
  entries : s.stream.entries <+: t.stream.entries
  delivered : s.stream.delivered ≤ t.stream.delivered
  deadLetters : s.deadLetters <+: t.deadLetters

theorem Streams.Later.refl (s : Streams α) : s.Later s :=
  ⟨List.prefix_refl _, Nat.le_refl _, List.prefix_refl _⟩

theorem Streams.Later.trans {s t u : Streams α} (h : s.Later t) (h' : t.Later u) : s.Later u :=
  ⟨h.entries.trans h'.entries, h.delivered.trans h'.delivered,
    h.deadLetters.trans h'.deadLetters⟩

theorem Streams.Later.entry {s t : Streams α} (h : s.Later t) {id : Nat} {a : α}
    (ha : s.stream.entries[id]? = some a) : t.stream.entries[id]? = some a := by
  obtain ⟨new, hnew⟩ := h.entries
  obtain ⟨hlt, _⟩ := List.getElem?_eq_some_iff.mp ha
  rw [← hnew, List.getElem?_append_left hlt, ha]

theorem publishMany_later (events : List α) (s : Streams α) :
    s.Later (publishMany events s) := by
  refine ⟨?_, ?_, List.prefix_refl _⟩
  · rw [publishMany_entries]
    exact List.prefix_append _ _
  · simp only [publishMany]
    generalize s.stream = stream
    induction events generalizing stream with
    | nil => exact Nat.le_refl _
    | cons event events ih => exact ih (stream.xadd event)

theorem read_later (settings : Settings) (consumer : Nat) (s : Streams α) :
    s.Later (read settings consumer s).2 :=
  ⟨List.prefix_refl _, Nat.le_add_right _ _, List.prefix_refl _⟩

theorem reclaimAbandoned_later (settings : Settings) (consumer : Nat) (counts : List (Nat × Nat))
    (s : Streams α) : s.Later (reclaimAbandoned settings consumer counts s).2 := by
  unfold reclaimAbandoned
  split <;> exact ⟨List.prefix_refl _, Nat.le_refl _, List.prefix_refl _⟩

theorem ack_later (ids : List Nat) (s : Streams α) : s.Later (ack ids s) := by
  unfold RedisStreamConsumer.ack
  split <;> exact ⟨List.prefix_refl _, Nat.le_refl _, List.prefix_refl _⟩

theorem copyToDeadLetter_later (message : StreamMessage α) (reason : String) (s : Streams α) :
    s.Later (copyToDeadLetter message reason s) :=
  ⟨List.prefix_refl _, Nat.le_refl _, List.prefix_append _ _⟩

/-! ## The messages that a consumer gets -/

/-- The message is an entry that has been handed out. -/
def StreamMessage.Delivered (s : Streams α) (m : StreamMessage α) : Prop :=
  s.stream.entries[m.messageId]? = some m.payload ∧ m.messageId < s.stream.delivered

theorem StreamMessage.Delivered.later {s t : Streams α} {m : StreamMessage α}
    (h : m.Delivered s) (hle : s.Later t) : m.Delivered t :=
  ⟨hle.entry h.1, Nat.lt_of_lt_of_le h.2 hle.delivered⟩

/-- A first delivery, of an entry that had not been handed out. -/
theorem mem_read {settings : Settings} {consumer : Nat} {s : Streams α} {m : StreamMessage α}
    (hm : m ∈ (read settings consumer s).1) :
    m.Delivered (read settings consumer s).2 ∧ s.stream.delivered ≤ m.messageId ∧
      m.deliveryCount = firstDelivery := by
  obtain ⟨⟨a, id⟩, he, rfl⟩ := List.mem_map.mp hm
  have hid : id ∈ (s.stream.fresh settings.consumerBatchSize).map Prod.snd :=
    List.mem_map_of_mem (f := Prod.snd) he
  rw [Stream.fresh_ids, List.mem_range'_1] at hid
  have ha : s.stream.entries[id]? = some a := Stream.mem_fresh he
  exact ⟨⟨ha, hid.2⟩, hid.1, rfl⟩

/-- A delivery of a pending entry, with the number of deliveries that was read before. -/
theorem mem_reclaimAbandoned {settings : Settings} {consumer : Nat} {counts : List (Nat × Nat)}
    {s : Streams α} {m : StreamMessage α}
    (hm : m ∈ (reclaimAbandoned settings consumer counts s).1) :
    m.Delivered s ∧ (∃ p ∈ s.stream.pending, p.id = m.messageId) ∧
      (m.messageId, m.deliveryCount) ∈ counts := by
  unfold reclaimAbandoned at hm
  split at hm
  · cases hm
  · obtain ⟨⟨a, id⟩, he, rfl⟩ := List.mem_map.mp hm
    obtain ⟨ha, p, hp, rfl, hclaimable⟩ := Stream.mem_claimed he
    refine ⟨⟨ha, s.stream.pending_lt p hp⟩, ⟨p, hp, rfl⟩, ?_⟩
    have hid : p.id ∈ counts.map Prod.fst :=
      of_decide_eq_true (Bool.and_eq_true_iff.mp hclaimable).1
    cases hlookup : counts.lookup p.id with
    | some c =>
      have hmem := List.lookup_eq_some_iff.mp hlookup
      obtain ⟨l₁, l₂, rfl, _⟩ := hmem
      simp
    | none =>
      obtain ⟨⟨id, c⟩, hc, heq⟩ := List.mem_map.mp hid
      have hnone := List.lookup_eq_none_iff.mp hlookup (id, c) hc
      simp only at heq
      simp [heq] at hnone

def ids (messages : List (StreamMessage α)) : List Nat := messages.map StreamMessage.messageId

@[simp] theorem ids_nil : ids ([] : List (StreamMessage α)) = [] := rfl

@[simp] theorem ids_cons (m : StreamMessage α) (ms : List (StreamMessage α)) :
    ids (m :: ms) = m.messageId :: ids ms := rfl

@[simp] theorem ids_append (ms ms' : List (StreamMessage α)) :
    ids (ms ++ ms') = ids ms ++ ids ms' := List.map_append

theorem ids_read (settings : Settings) (consumer : Nat) (s : Streams α) :
    ids (read settings consumer s).1 =
      (s.stream.fresh settings.consumerBatchSize).map Prod.snd := by
  simp only [ids, RedisStreamConsumer.read, List.map_map]
  rfl

theorem ids_reclaimAbandoned (settings : Settings) (consumer : Nat) (counts : List (Nat × Nat))
    (s : Streams α) : ids (reclaimAbandoned settings consumer counts s).1 =
      (s.stream.claimed (counts.map Prod.fst) settings.consumerIdleReclaimMs s.now).map
        Prod.snd := by
  unfold reclaimAbandoned
  split
  · rename_i hnil
    simp [hnil]
  · simp only [ids, List.map_map]
    rfl

theorem pending_reclaimAbandoned {settings : Settings} {consumer : Nat}
    {counts : List (Nat × Nat)} {s : Streams α} {p : Pending}
    (hp : p ∈ (reclaimAbandoned settings consumer counts s).2.stream.pending) :
    ∃ q ∈ s.stream.pending, q.id = p.id ∧
      p.deliveries = q.deliveries + (ids (reclaimAbandoned settings consumer counts s).1).count p.id := by
  rw [ids_reclaimAbandoned]
  unfold reclaimAbandoned at hp
  split at hp
  · rename_i hnil
    refine ⟨p, hp, rfl, ?_⟩
    simp [hnil]
  · exact Stream.pending_xclaim hp

/-! ## What a call acknowledges -/

/-- The ids that the call passes to `XACK`. -/
def StreamLabel.acked : StreamLabel α → List Nat
  | .ack messageIds => messageIds
  | .sendToDeadLetter message _ => [message.messageId]
  | _ => []

/-- The call acknowledges a message that is pending. -/
def Acknowledges (s : Streams α) (l : StreamLabel α) : Prop :=
  ∃ p ∈ s.stream.pending, p.id ∈ l.acked

instance (s : Streams α) (l : StreamLabel α) : Decidable (Acknowledges s l) :=
  inferInstanceAs (Decidable (∃ p ∈ s.stream.pending, p.id ∈ l.acked))

@[simp] theorem ack_acknowledged {ids : List Nat} {s : Streams α} {id : Nat} :
    (ack ids s).stream.Acknowledged id ↔
      s.stream.Acknowledged id ∨ (id < s.stream.delivered ∧ id ∈ ids) := by
  unfold RedisStreamConsumer.ack
  split
  · rename_i hnil
    simp [hnil]
  · exact Stream.acknowledged_xack

@[simp] theorem reclaimAbandoned_acknowledged {settings : Settings} {consumer : Nat}
    {counts : List (Nat × Nat)} {s : Streams α} {id : Nat} :
    (reclaimAbandoned settings consumer counts s).2.stream.Acknowledged id ↔
      s.stream.Acknowledged id := by
  unfold reclaimAbandoned
  split
  · rfl
  · exact Stream.acknowledged_xclaim

namespace Streams
variable {settings : Settings} {s t : Streams α} {l : StreamLabel α}

theorem step_acknowledged (hst : step settings s l = some t) (id : Nat) :
    t.stream.Acknowledged id ↔
      s.stream.Acknowledged id ∨ (id < s.stream.delivered ∧ id ∈ l.acked) := by
  cases l with
  | publishMany | read | reclaim | wait =>
    cases hst
    simp [StreamLabel.acked, RedisStreamConsumer.read]
  | ack ids =>
    cases hst
    exact ack_acknowledged
  | sendToDeadLetter message reason =>
    cases hst
    exact ack_acknowledged

/-- Nothing is acknowledged after the call exactly when nothing was before and the call
acknowledges no pending message. -/
theorem step_none_acknowledged (hst : step settings s l = some t) :
    (∀ id, ¬ t.stream.Acknowledged id) ↔
      (∀ id, ¬ s.stream.Acknowledged id) ∧ ¬ Acknowledges s l := by
  constructor
  · intro hnone
    refine ⟨fun id hack => hnone id ((step_acknowledged hst id).mpr (.inl hack)), ?_⟩
    rintro ⟨p, hp, hid⟩
    exact hnone p.id ((step_acknowledged hst p.id).mpr (.inr ⟨s.stream.pending_lt p hp, hid⟩))
  · rintro ⟨hnone, hnot⟩ id hack
    rcases (step_acknowledged hst id).mp hack with hold | ⟨hlt, hid⟩
    · exact hnone id hold
    · refine hnone id ⟨hlt, ?_⟩
      rintro p hp rfl
      exact hnot ⟨p, hp, hid⟩

theorem run_none_acknowledged {ls : List (StreamLabel α)} (hs : ∀ id, ¬ s.stream.Acknowledged id)
    (hrun : Transition.run (step settings) s ls = some t) :
    (∀ id, ¬ t.stream.Acknowledged id) ↔
      Transition.Along (step settings) (fun s l => ¬ Acknowledges s l) s ls := by
  constructor
  · intro hend
    rw [Transition.along_iff]
    rintro ks l ms u rfl hbefore hl
    obtain ⟨u', hu', hrest⟩ := Transition.run_append_eq_some.mp hrun
    obtain rfl := Option.some.inj (hbefore.symm.trans hu')
    obtain ⟨v, hst, hafter⟩ := Transition.run_cons_eq_some.mp hrest
    have hnot : ¬ ∀ id, ¬ v.stream.Acknowledged id :=
      fun hnone => ((step_none_acknowledged hst).mp hnone).2 hl
    refine hnot fun id hack => ?_
    have hkept : t.stream.Acknowledged id :=
      Transition.run_invariant (fun _ _ _ hi hst => (step_acknowledged hst id).mpr (.inl hi))
        hack hafter
    exact hend id hkept
  · intro hguard
    exact Transition.run_invariant_along
      (fun _ _ _ hi hl hst => (step_none_acknowledged hst).mpr ⟨hi, hl⟩) hs hguard hrun

theorem step_later (hst : step settings s l = some t) : s.Later t := by
  cases l with
  | publishMany events =>
    cases hst
    exact publishMany_later events s
  | read consumer =>
    cases hst
    exact read_later settings consumer s
  | reclaim consumer counts =>
    cases hst
    exact reclaimAbandoned_later settings consumer counts s
  | ack ids =>
    cases hst
    exact ack_later ids s
  | sendToDeadLetter message reason =>
    cases hst
    exact (copyToDeadLetter_later message reason s).trans (ack_later _ _)
  | wait ms =>
    cases hst
    exact ⟨List.prefix_refl _, Nat.le_refl _, List.prefix_refl _⟩

theorem run_later {ls : List (StreamLabel α)}
    (hrun : Transition.run (step settings) s ls = some t) : s.Later t :=
  Transition.run_relates_along Later.refl Later.trans (fun _ _ _ _ hst => step_later hst)
    (Transition.along_true s ls) hrun

/-- No call takes an entry out of the stream. -/
theorem run_xlen {ls : List (StreamLabel α)}
    (hrun : Transition.run (step settings) s ls = some t) : s.stream.xlen ≤ t.stream.xlen :=
  (run_later hrun).entries.length_le

end Streams

end EcommerceIntegration
