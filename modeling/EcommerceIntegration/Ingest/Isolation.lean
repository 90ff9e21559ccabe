import EcommerceIntegration.Ingest.Alone

/-!
# A batch and the events of it that fail

`_persist` goes through its messages alone. Every message comes with what the database and
Redis answer while it is processed, the reservations pass from one to the next.
-/

namespace EcommerceIntegration

set_option autoImplicit false

open Transaction EventProcessor IngestWorker

structure BatchMessage where
  message : IngestMessage
  answers : Answers

section Persist
variable (settings : Settings) (registry : HandlerRegistry)

/-- One turn of the loop of `_persist`. -/
def persistMessage (m : BatchMessage) (reserved : List String) (batch : IngestBatch) :
    Except Exn IngestBatch × List String :=
  match parse m.message with
  | none =>
    (.ok { batch with deadLetters := batch.deadLetters ++ [(m.message, "payload invalido")] },
      reserved)
  | some envelope =>
    match m.answers.process registry envelope reserved with
    | (.ok result, reserved') => (.ok (settle settings m.message result batch), reserved')
    | (.error e, reserved') => (.error e, reserved')

def persist : List BatchMessage → List String → IngestBatch → Except Exn IngestBatch × List String
  | [], reserved, batch => (.ok batch, reserved)
  | m :: messages, reserved, batch =>
    match persistMessage settings registry m reserved batch with
    | (.ok batch', reserved') => persist messages reserved' batch'
    | (.error e, reserved') => (.error e, reserved')

end Persist

/-! ## The classes of a batch -/

inductive MessageClass
  | acknowledge
  | deadLetter
  | pending
  deriving DecidableEq

/-- What the loop makes of a result. -/
def classify (settings : Settings) (message : IngestMessage) (result : Result) : MessageClass :=
  if result.shouldAck then .acknowledge
  else if deliveriesExhausted settings message then .deadLetter
  else .pending

section Classes
variable (settings : Settings) (registry : HandlerRegistry)

/-- `none` where `process` raises. -/
def classOf (m : BatchMessage) (reserved : List String) : Option MessageClass :=
  match parse m.message with
  | none => some .deadLetter
  | some envelope =>
    match (m.answers.process registry envelope reserved).1 with
    | .ok result => some (classify settings m.message result)
    | .error _ => none

/-- The reservations when the loop has come past the message. -/
def past (m : BatchMessage) (reserved : List String) : List String :=
  match parse m.message with
  | none => reserved
  | some envelope => (m.answers.process registry envelope reserved).2

def pastAll (messages : List BatchMessage) (reserved : List String) : List String :=
  messages.foldl (fun reserved m => past registry m reserved) reserved

/-- `process` returns for each of the messages. -/
def AllPass : List BatchMessage → List String → Prop
  | [], _ => True
  | m :: messages, reserved =>
    classOf settings registry m reserved ≠ none ∧ AllPass messages (past registry m reserved)

/-- The handler or the database fails, or the payload is invalid. -/
def fails (m : BatchMessage) : Bool :=
  match parse m.message with
  | none => true
  | some envelope =>
    registry.supports envelope.eventType &&
      match m.answers.transaction registry envelope with
      | .ok _ => false
      | .error _ => true

def sameEvent (m m' : BatchMessage) : Bool :=
  match parse m.message, parse m'.message with
  | some envelope, some envelope' => decide (envelope.eventId = envelope'.eventId)
  | _, _ => false

/-- The messages without those of other events that fail. -/
def withoutFailing (m : BatchMessage) (messages : List BatchMessage) : List BatchMessage :=
  messages.filter fun m' => sameEvent m' m || !fails registry m'

/-- An exception without a text leaves the transaction of the message. -/
def FailsSilently (m : BatchMessage) (reserved : List String) : Prop :=
  ∃ envelope, parse m.message = some envelope ∧ registry.supports envelope.eventType = true ∧
    m.answers.claims envelope reserved = true ∧
      ∃ e, m.answers.transaction registry envelope = .error e ∧ Blank e

end Classes

/-- The lists of `_persist` have the messages of the two classes, in their order. -/
structure Sorted (messages : List BatchMessage) (classes : List MessageClass)
    (batch : IngestBatch) : Prop where
  length : classes.length = messages.length
  acknowledgeable : batch.acknowledgeable =
    ((messages.zip classes).filter (·.2 = .acknowledge)).map (·.1.message.messageId)
  deadLetters : batch.deadLetters.map Prod.fst =
    ((messages.zip classes).filter (·.2 = .deadLetter)).map (·.1.message)

section Classes
variable {settings : Settings} {registry : HandlerRegistry} {m : BatchMessage}
  {messages pre : List BatchMessage} {reserved reserved' : List String}

theorem classOf_eq_none (hreg : registry.DatabaseOnly) :
    classOf settings registry m reserved = none ↔ FailsSilently registry m reserved := by
  unfold classOf FailsSilently
  cases parse m.message with
  | none => exact ⟨fun h => (by cases h), fun ⟨_, h, _⟩ => (by cases h)⟩
  | some envelope =>
    have hiff := Answers.process_error_iff m.answers envelope reserved hreg
    constructor
    · intro h
      refine ⟨envelope, rfl, hiff.mp ?_⟩
      dsimp only at h
      split at h
      · cases h
      · rename_i e heq
        exact ⟨e, heq⟩
    · rintro ⟨envelope', henv, h⟩
      cases henv
      obtain ⟨e, he⟩ := hiff.mpr h
      simp only [he]

theorem persistMessage_of_none (h : classOf settings registry m reserved = none)
    (batch : IngestBatch) : ∃ e, (persistMessage settings registry m reserved batch).1 = .error e := by
  unfold classOf at h
  unfold persistMessage
  split at h
  · cases h
  · rename_i envelope henv
    cases hprocess : m.answers.process registry envelope reserved with
    | mk result after =>
      rw [hprocess] at h
      cases result with
      | ok r => cases h
      | error e => exact ⟨e, rfl⟩

theorem persistMessage_of_some {c : MessageClass}
    (h : classOf settings registry m reserved = some c) (batch : IngestBatch) :
    ∃ batch', persistMessage settings registry m reserved batch =
        (.ok batch', past registry m reserved) ∧
      batch'.acknowledgeable = batch.acknowledgeable ++
        (([(m, c)].filter (·.2 = .acknowledge)).map (·.1.message.messageId)) ∧
      batch'.deadLetters.map Prod.fst = batch.deadLetters.map Prod.fst ++
        (([(m, c)].filter (·.2 = .deadLetter)).map (·.1.message)) := by
  unfold classOf at h
  unfold persistMessage past
  split at h
  · rename_i henv
    cases h
    exact ⟨_, rfl, by simp, by simp⟩
  · rename_i envelope henv
    cases hprocess : m.answers.process registry envelope reserved with
    | mk result after =>
      rw [hprocess] at h
      cases result with
      | error e => cases h
      | ok r =>
        cases h
        refine ⟨_, rfl, ?_, ?_⟩
        · unfold settle classify
          split
          · simp
          · split <;> simp
        · unfold settle classify
          split
          · simp
          · split <;> simp

theorem persist_of_allPass (h : AllPass settings registry messages reserved) (batch : IngestBatch) :
    ∃ batch' classes, (persist settings registry messages reserved batch).1 = .ok batch' ∧
      classes.length = messages.length ∧
      batch'.acknowledgeable = batch.acknowledgeable ++
        ((messages.zip classes).filter (·.2 = .acknowledge)).map (·.1.message.messageId) ∧
      batch'.deadLetters.map Prod.fst = batch.deadLetters.map Prod.fst ++
        ((messages.zip classes).filter (·.2 = .deadLetter)).map (·.1.message) ∧
      ∀ pre m post, messages = pre ++ m :: post →
        classes[pre.length]? = classOf settings registry m (pastAll registry pre reserved) := by
  induction messages generalizing reserved batch with
  | nil => exact ⟨batch, [], rfl, rfl, by simp, by simp, by simp⟩
  | cons m messages ih =>
    obtain ⟨hm, hrest⟩ := h
    obtain ⟨c, hc⟩ := Option.ne_none_iff_exists'.mp hm
    obtain ⟨batch₁, hpersist, hacks₁, hdead₁⟩ := persistMessage_of_some hc batch
    obtain ⟨batch₂, classes, hok, hlength, hacks₂, hdead₂, hclasses⟩ := ih hrest batch₁
    refine ⟨batch₂, c :: classes, ?_, by simp [hlength], ?_, ?_, ?_⟩
    · unfold persist
      rw [hpersist]
      exact hok
    · rw [hacks₂, hacks₁, List.append_assoc, ← List.map_append, ← List.filter_append]
      rfl
    · rw [hdead₂, hdead₁, List.append_assoc, ← List.map_append, ← List.filter_append]
      rfl
    · intro pre m' post heq
      cases pre with
      | nil =>
        cases heq
        exact hc.symm
      | cons p pre =>
        cases heq
        exact hclasses pre m' post rfl

theorem allPass_of_persist {batch batch' : IngestBatch}
    (h : (persist settings registry messages reserved batch).1 = .ok batch') :
    AllPass settings registry messages reserved := by
  induction messages generalizing reserved batch with
  | nil => trivial
  | cons m messages ih =>
    unfold persist at h
    cases hc : classOf settings registry m reserved with
    | none =>
      obtain ⟨e, he⟩ := persistMessage_of_none hc batch
      cases hpersist : persistMessage settings registry m reserved batch with
      | mk result after =>
        rw [hpersist] at h he
        obtain rfl : result = .error e := he
        cases h
    | some c =>
      obtain ⟨batch₁, hpersist, _, _⟩ := persistMessage_of_some hc batch
      rw [hpersist] at h
      exact ⟨by rw [hc]; exact Option.some_ne_none c, ih h⟩

theorem allPass_iff : AllPass settings registry messages reserved ↔
    ∀ pre m post, messages = pre ++ m :: post →
      classOf settings registry m (pastAll registry pre reserved) ≠ none := by
  induction messages generalizing reserved with
  | nil => simp [AllPass]
  | cons m messages ih =>
    constructor
    · rintro ⟨hm, hrest⟩ pre m' post heq
      cases pre with
      | nil =>
        cases heq
        exact hm
      | cons p pre =>
        cases heq
        exact ih.mp hrest pre m' post rfl
    · intro h
      refine ⟨h [] m messages rfl, ih.mpr fun pre m' post heq => ?_⟩
      exact h (m :: pre) m' post (by rw [heq]; rfl)

theorem allPass_append {post : List BatchMessage} :
    AllPass settings registry (pre ++ post) reserved ↔ AllPass settings registry pre reserved ∧
      AllPass settings registry post (pastAll registry pre reserved) := by
  induction pre generalizing reserved with
  | nil => exact ⟨fun h => ⟨trivial, h⟩, And.right⟩
  | cons p pre ih =>
    constructor
    · rintro ⟨hp, hrest⟩
      exact ⟨⟨hp, (ih.mp hrest).1⟩, (ih.mp hrest).2⟩
    · rintro ⟨⟨hp, hpre⟩, hpost⟩
      exact ⟨hp, ih.mpr ⟨hpre, hpost⟩⟩

/-! ## Messages that do not matter to another -/

theorem classOf_ne_none_of_not_fails (hreg : registry.DatabaseOnly)
    (h : fails registry m = false) : classOf settings registry m reserved ≠ none := by
  intro hnone
  obtain ⟨envelope, henv, hsupports, _, e, he, _⟩ := (classOf_eq_none hreg).mp hnone
  simp [fails, henv, hsupports, he] at h

theorem sameEvent_eq_true {m' : BatchMessage} {envelope : EventEnvelope}
    (hm : parse m.message = some envelope) (h : sameEvent m' m = true) :
    ∃ envelope', parse m'.message = some envelope' ∧ envelope'.eventId = envelope.eventId := by
  unfold sameEvent at h
  rw [hm] at h
  split at h
  · rename_i envelope₁ envelope₂ henv heq
    cases heq
    exact ⟨envelope₁, henv, of_decide_eq_true h⟩
  · cases h

theorem past_of_other (reserved : List String) (hreg : registry.DatabaseOnly)
    {m' : BatchMessage} {envelope : EventEnvelope}
    (hm : parse m.message = some envelope) (h : sameEvent m' m = false) :
    RedisDeduplicator.key envelope.eventId ∈ past registry m' reserved ↔
      RedisDeduplicator.key envelope.eventId ∈ reserved := by
  unfold past
  split
  · rfl
  · rename_i envelope' henv
    refine Answers.process_frame hreg fun hkey => ?_
    have hid : envelope'.eventId = envelope.eventId := Subtype.ext (key_injective hkey).symm
    simp [sameEvent, hm, henv, hid] at h

theorem past_of_same (settings : Settings) (hreg : registry.DatabaseOnly)
    {m' : BatchMessage} {envelope : EventEnvelope}
    (hm : parse m.message = some envelope) (h : sameEvent m' m = true)
    (hkey : RedisDeduplicator.key envelope.eventId ∈ reserved ↔
      RedisDeduplicator.key envelope.eventId ∈ reserved') :
    (RedisDeduplicator.key envelope.eventId ∈ past registry m' reserved ↔
      RedisDeduplicator.key envelope.eventId ∈ past registry m' reserved') ∧
      classOf settings registry m' reserved = classOf settings registry m' reserved' := by
  obtain ⟨envelope', henv, hid⟩ := sameEvent_eq_true hm h
  rw [← hid] at hkey ⊢
  obtain ⟨hresult, hafter⟩ := Answers.process_congr (a := m'.answers) hreg hkey
  simp only [past, classOf, henv, hresult]
  exact ⟨hafter, trivial⟩

theorem sameEvent_self {envelope : EventEnvelope} (hm : parse m.message = some envelope) :
    sameEvent m m = true := by
  simp [sameEvent, hm]

/-- The messages of other events that fail change nothing for the rest. -/
theorem withoutFailing_agrees (hreg : registry.DatabaseOnly) {envelope : EventEnvelope}
    (hm : parse m.message = some envelope)
    (hkey : RedisDeduplicator.key envelope.eventId ∈ reserved ↔
      RedisDeduplicator.key envelope.eventId ∈ reserved')
    (hpass : AllPass settings registry messages reserved) :
    (RedisDeduplicator.key envelope.eventId ∈ pastAll registry messages reserved ↔
      RedisDeduplicator.key envelope.eventId ∈
        pastAll registry (withoutFailing registry m messages) reserved') ∧
      AllPass settings registry (withoutFailing registry m messages) reserved' := by
  induction messages generalizing reserved reserved' with
  | nil => exact ⟨hkey, trivial⟩
  | cons p messages ih =>
    obtain ⟨hp, hrest⟩ := hpass
    cases hsame : sameEvent p m with
    | true =>
      obtain ⟨hafter, hclass⟩ := past_of_same settings hreg hm hsame hkey
      obtain ⟨hend, hpassed⟩ := ih hafter hrest
      have hkept : withoutFailing registry m (p :: messages) =
          p :: withoutFailing registry m messages := by simp [withoutFailing, hsame]
      rw [hkept]
      exact ⟨hend, hclass ▸ hp, hpassed⟩
    | false =>
      have hbefore := past_of_other reserved hreg hm hsame
      cases hfails : fails registry p with
      | true =>
        have hdropped : withoutFailing registry m (p :: messages) =
            withoutFailing registry m messages := by simp [withoutFailing, hsame, hfails]
        rw [hdropped]
        exact ih (hbefore.trans hkey) hrest
      | false =>
        have hbefore' := past_of_other reserved' hreg hm hsame
        obtain ⟨hend, hpassed⟩ := ih ((hbefore.trans hkey).trans hbefore'.symm) hrest
        have hkept : withoutFailing registry m (p :: messages) =
            p :: withoutFailing registry m messages := by simp [withoutFailing, hfails]
        rw [hkept]
        exact ⟨hend, classOf_ne_none_of_not_fails hreg hfails, hpassed⟩

theorem withoutFailing_invalid (hreg : registry.DatabaseOnly) (hm : parse m.message = none) :
    AllPass settings registry (withoutFailing registry m messages) reserved := by
  induction messages generalizing reserved with
  | nil => trivial
  | cons p messages ih =>
    have hsame : sameEvent p m = false := by simp [sameEvent, hm]
    cases hfails : fails registry p with
    | true =>
      have hdropped : withoutFailing registry m (p :: messages) =
          withoutFailing registry m messages := by simp [withoutFailing, hsame, hfails]
      rw [hdropped]
      exact ih
    | false =>
      have hkept : withoutFailing registry m (p :: messages) =
          p :: withoutFailing registry m messages := by simp [withoutFailing, hfails]
      rw [hkept]
      exact ⟨classOf_ne_none_of_not_fails hreg hfails, ih⟩

end Classes

/-! ## No event takes its batch down -/

/-- `process` returns for every message, `_persist` returns with each in one class, and the
class is that in a batch without the messages before it that fail. -/
structure Isolates (settings : Settings) (registry : HandlerRegistry) (messages : List BatchMessage)
    (reserved : List String) : Prop where
  results : ∀ pre m post envelope, messages = pre ++ m :: post → parse m.message = some envelope →
    ∃ result, (m.answers.process registry envelope (pastAll registry pre reserved)).1 = .ok result
  sorted : ∃ batch classes,
    (persist settings registry messages reserved ⟨[], [], []⟩).1 = .ok batch ∧
      Sorted messages classes batch ∧
      ∀ pre m post, messages = pre ++ m :: post →
        classes[pre.length]? = classOf settings registry m (pastAll registry pre reserved)
  independent : ∀ pre m post, messages = pre ++ m :: post →
    (∃ batch, (persist settings registry (withoutFailing registry m pre ++ [m]) reserved
        ⟨[], [], []⟩).1 = .ok batch) ∧
      classOf settings registry m (pastAll registry (withoutFailing registry m pre) reserved) =
        classOf settings registry m (pastAll registry pre reserved)

theorem isolates_of_allPass {settings : Settings} {registry : HandlerRegistry}
    (hreg : registry.DatabaseOnly) {messages : List BatchMessage} {reserved : List String}
    (hpass : AllPass settings registry messages reserved) :
    Isolates settings registry messages reserved := by
  constructor
  · intro pre m post envelope heq henv
    have hm := allPass_iff.mp hpass pre m post heq
    simp only [classOf, henv] at hm
    split at hm
    · rename_i result hresult
      exact ⟨result, hresult⟩
    · exact absurd rfl hm
  · obtain ⟨batch, classes, hok, hlength, hacks, hdead, hclasses⟩ :=
      persist_of_allPass hpass ⟨[], [], []⟩
    exact ⟨batch, classes, hok, ⟨hlength, hacks, hdead⟩, hclasses⟩
  · rintro pre m post rfl
    obtain ⟨hpre, hm, _⟩ := allPass_append.mp hpass
    have hreduced : AllPass settings registry (withoutFailing registry m pre) reserved ∧
        classOf settings registry m (pastAll registry (withoutFailing registry m pre) reserved) =
          classOf settings registry m (pastAll registry pre reserved) := by
      cases henv : parse m.message with
      | none =>
        refine ⟨withoutFailing_invalid hreg henv, ?_⟩
        simp [classOf, henv]
      | some envelope =>
        obtain ⟨hkey, hpassed⟩ := withoutFailing_agrees hreg henv Iff.rfl hpre
        exact ⟨hpassed, (past_of_same settings hreg henv (sameEvent_self henv) hkey).2.symm⟩
    obtain ⟨hpassed, hclass⟩ := hreduced
    have hall : AllPass settings registry (withoutFailing registry m pre ++ [m]) reserved :=
      allPass_append.mpr ⟨hpassed, hclass ▸ hm, trivial⟩
    obtain ⟨batch, _, hok, _⟩ := persist_of_allPass hall ⟨[], [], []⟩
    exact ⟨⟨batch, hok⟩, hclass⟩

/-- A batch is safe exactly when no exception without a text leaves one of its
transactions. -/
theorem batch_isolated_iff (settings : Settings) {registry : HandlerRegistry}
    (hreg : registry.DatabaseOnly) (messages : List BatchMessage) (reserved : List String) :
    Isolates settings registry messages reserved ↔
      ∀ pre m post, messages = pre ++ m :: post →
        ¬ FailsSilently registry m (pastAll registry pre reserved) := by
  constructor
  · intro h pre m post heq hfails
    obtain ⟨batch, _, hok, _⟩ := h.sorted
    exact allPass_iff.mp (allPass_of_persist hok) pre m post heq ((classOf_eq_none hreg).mpr hfails)
  · intro h
    refine isolates_of_allPass hreg (allPass_iff.mpr fun pre m post heq hnone => ?_)
    exact h pre m post heq ((classOf_eq_none hreg).mp hnone)

namespace Sample

/-- The database raises at every call. -/
def failing (text : String) : Answers := ⟨fun _ _ => .error (.fault text), fun _ => none⟩

def failingOrder (text : String) : BatchMessage := ⟨⟨0, some order1, 1⟩, failing text⟩

def garbled : BatchMessage := ⟨⟨1, none, 1⟩, failing ""⟩

end Sample

theorem batch_isolated_iff_deadlock :
    Isolates {} buildRegistry [Sample.failingOrder "deadlock", Sample.garbled] [] := by
  refine (batch_isolated_iff {} buildRegistry_databaseOnly _ []).mpr fun pre m post heq => ?_
  have hm : m ∈ [Sample.failingOrder "deadlock", Sample.garbled] := by rw [heq]; simp
  rintro ⟨envelope, henv, _, _, e, he, hblank⟩
  rcases List.mem_pair.mp hm with rfl | rfl
  · cases henv
    have htx : (Sample.failing "deadlock").transaction buildRegistry Sample.order1 =
        .error (.fault "deadlock") := rfl
    obtain rfl : e = .fault "deadlock" := Except.error.inj (he.symm.trans htx)
    exact absurd hblank (by decide : ¬ "deadlock" = "")
  · cases henv

/-- The database raises an exception without a text, and `_persist` raises too. -/
theorem silentFailure_escapes : ¬ ∀ (settings : Settings) (registry : HandlerRegistry)
    (messages : List BatchMessage) (reserved : List String),
      registry.DatabaseOnly → Isolates settings registry messages reserved := by
  intro hall
  obtain ⟨batch, _, hok, _⟩ :=
    (hall {} buildRegistry [Sample.failingOrder ""] [] buildRegistry_databaseOnly).sorted
  have hraised : (persist {} buildRegistry [Sample.failingOrder ""] [] ⟨[], [], []⟩).1 =
      .error (.app (.indexError "list index out of range")) := rfl
  cases hok.symm.trans hraised

end EcommerceIntegration
