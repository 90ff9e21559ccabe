import EcommerceIntegration.Ingest.ConstraintBarrier
import EcommerceIntegration.Ingest.DeliveryLimit
import EcommerceIntegration.Ingest.ExactlyOnce
import EcommerceIntegration.Ingest.Reservations

/-!
# What becomes of the event of an acknowledged message

An event is carried by the stream entries that no worker has done with, and by the copies
that workers still have to work on. A worker may be done with a message before anything
is decided about its event: it only found the reservation taken. The event is lost when
nobody carries it after that.
-/

namespace EcommerceIntegration

set_option autoImplicit false

open Transaction ConsumerGroup IngestWorker RedisStreamConsumer

def eventOf (payload : Payload) : Option String := payload.map fun i => i.eventId.val

/-- A unique key of the business tables has refused the transaction of the event. -/
def Barred (s : IngestState) (eventId : String) : Prop :=
  ∃ r ∈ s.returned, r.input.eventId.val = eventId ∧ ∃ c k, (c, k) ∈ r.progress.refusals ∧
    HandlerWrite r.input.eventType c ∧ k.business = true

def Decided (s : IngestState) (eventId : String) : Prop :=
  InLedger (committed s) eventId ∨ Barred s eventId

theorem Decided.step {s t : IngestState} {l : IngestLabel} {e : String} (h : Decided s e)
    (hst : Transaction.step engine ingest s l = some t) : Decided t e := by
  rcases h with hledger | ⟨r, hr, hbarred⟩
  · exact .inl (hledger.later (step_history hst))
  · refine .inr ⟨r, ?_, hbarred⟩
    cases l with
    | start i =>
      obtain rfl := step_start hst
      exact hr
    | exec n choice =>
      obtain ⟨_, _, _, _, _, _, _, _, _, rfl⟩ := step_exec hst
      exact hr
    | finish n =>
      obtain ⟨_, _, _, _, _, _, rfl⟩ := step_finish hst
      exact List.mem_append_left _ hr
    | crash n =>
      obtain ⟨_, _, rfl⟩ := step_crash hst
      exact hr
    | tick d | remote r =>
      cases hst
      exact hr

theorem Decided.later {settings : Settings} {s t : IngestSystem} {l : SystemLabel} {e : String}
    (h : Decided s.attempts e) (hst : IngestSystem.step settings s l = some t) :
    Decided t.attempts e := by
  rcases IngestSystem.step_attempts hst with heq | ⟨l, hl⟩
  · exact heq ▸ h
  · exact h.step hl

/-- The attempt has found the reservation of its event taken. -/
def Discards (s : IngestState) (n : Nat) : Prop :=
  ∃ a, s.active n = some a ∧ Discarded a.input a.progress

/-- The worker still has to do something about its copy. -/
def Carrying (s : IngestState) (p : IngestPhase) (m : IngestMessage) : Prop :=
  m ∈ p.batch.todo ∨ m ∈ p.leaving ∨ ∃ n, p.current = some (n, m) ∧ ¬ Discards s n

namespace IngestSystem

/-- The event of the stream entry. -/
def eventAt (s : IngestSystem) (id : Nat) : Option String :=
  s.streams.stream.entries[id]?.bind eventOf

def InDlq (s : IngestSystem) (id : Nat) : Prop := ∃ d ∈ s.streams.deadLetters, d.1.messageId = id

/-- The message is acknowledged, or a worker will acknowledge it unless it dies. -/
def Closed (s : IngestSystem) (id : Nat) : Prop :=
  s.streams.stream.Acknowledged id ∨ ∃ x ∈ s.workers, id ∈ x.phase.batch.acknowledgeable ∨
    ∃ n m, x.phase.current = some (n, m) ∧ m.messageId = id ∧ Discards s.attempts n

/-- The event of an acknowledged message is in the ledger or barred, the message is in the
dead-letter stream, or someone still carries the event. -/
def NoEventVanishes (s : IngestSystem) : Prop :=
  ∀ id, s.streams.stream.Acknowledged id → s.InDlq id ∨ ∃ e, s.eventAt id = some e ∧
    (Decided s.attempts e ∨ (∃ id', s.eventAt id' = some e ∧ ¬ s.streams.stream.Acknowledged id') ∨
      ∃ x ∈ s.workers, ∃ m, Carrying s.attempts x.phase m ∧ eventOf m.payload = some e)

/-! ## Steps that give up an event -/

def phase (s : IngestSystem) (w : Nat) : IngestPhase :=
  (s.workers[w]?.map IngestWorker.phase).getD .gone

/-- The message with which the step is done, because the reservation is taken or because
it is acknowledged as a dead letter. -/
def closing (s : IngestSystem) : SystemLabel → List IngestMessage
  | .act w (.exec choice) =>
    match (s.phase w).current with
    | some (n, m) => if (discarding s.attempts (.exec n choice)).isSome then [m] else []
    | none => []
  | .act w .bury => (s.phase w).buried.toList
  | _ => []

/-- The copies that the worker of the step loses with nothing decided by the step. -/
def givesUp (settings : Settings) (s : IngestSystem) : SystemLabel → List IngestMessage
  | .act w .die => (s.phase w).held
  | .act w .finish =>
    match s.returning (.act w .finish) with
    | some (_, .error _) => (s.phase w).held
    | some (m, .ok result) =>
      if result.shouldAck || deliveriesExhausted settings m then [] else [m]
    | none => []
  | l => s.closing l

/-- The event is decided, an entry or the copy of another worker carries it, or all its
messages that nobody will process any more are in the dead-letter stream. -/
def StillCarried (s : IngestSystem) (l : SystemLabel) (eventId : String) : Prop :=
  Decided s.attempts eventId ∨
    (∃ id, s.eventAt id = some eventId ∧ ¬ s.Closed id ∧ id ∉ ids (s.closing l)) ∨
    (∃ w x m, s.workers[w]? = some x ∧ (∀ act, l ≠ .act w act) ∧
      Carrying s.attempts x.phase m ∧ eventOf m.payload = some eventId) ∨
    ∀ id, s.eventAt id = some eventId → s.Closed id ∨ id ∈ ids (s.closing l) → s.InDlq id

/-- A worker gives up a copy only where its event does not depend on it. -/
def Careful (settings : Settings) (s : IngestSystem) (l : SystemLabel) : Prop :=
  ∀ m ∈ givesUp settings s l, ∀ e, eventOf m.payload = some e → s.StillCarried l e

variable {settings : Settings} {s t : IngestSystem} {l : SystemLabel}

/-! ## What stays -/

theorem InDlq.later {id : Nat} (h : s.InDlq id) (hst : step settings s l = some t) :
    t.InDlq id := by
  obtain ⟨d, hd, hid⟩ := h
  exact ⟨d, (step_later hst).deadLetters.subset hd, hid⟩

theorem eventAt_later {id : Nat} {e : String} (h : s.eventAt id = some e)
    (hst : step settings s l = some t) : t.eventAt id = some e := by
  obtain ⟨payload, hpayload, he⟩ := Option.bind_eq_some_iff.mp h
  exact Option.bind_eq_some_iff.mpr ⟨payload, (step_later hst).entry hpayload, he⟩

theorem eventAt_of_delivered {m : IngestMessage} (hm : m.Delivered s.streams) :
    s.eventAt m.messageId = eventOf m.payload := by
  unfold eventAt
  rw [hm.1, Option.bind_some]

theorem phase_of_worker {w : Nat} {x : IngestWorker} (hw : s.workers[w]? = some x) :
    s.phase w = x.phase := by
  simp [phase, hw]

/-- What the other workers are in goes on as it was. -/
theorem discards_of_other (hs : Custody s) (hst : step settings s l = some t) {w : Nat}
    {x : IngestWorker} (hw : s.workers[w]? = some x) (hother : ∀ act, l ≠ .act w act) {n : Nat}
    {m : IngestMessage} (hcur : x.phase.current = some (n, m)) (h : Discards t.attempts n) :
    Discards s.attempts n := by
  obtain ⟨a, ha, _⟩ := hs.attempt x (List.mem_of_getElem? hw) n m hcur
  have hkept : t.attempts.active n = some a := by
    refine hs.active hst ha ?_
    rintro v act y rfl hy m' hcur'
    obtain rfl := hs.distinct w v x y n m m' hw hy hcur hcur'
    exact hother act rfl
  obtain ⟨b, hb, hdiscarded⟩ := h
  obtain rfl := Option.some.inj (hkept.symm.trans hb)
  exact ⟨a, ha, hdiscarded⟩

theorem carrying_of_other (hs : Custody s) (hst : step settings s l = some t) {w : Nat}
    {x : IngestWorker} (hw : s.workers[w]? = some x) (hother : ∀ act, l ≠ .act w act)
    {m : IngestMessage} (h : Carrying s.attempts x.phase m) : Carrying t.attempts x.phase m := by
  rcases h with htodo | hleaving | ⟨n, hcur, hnot⟩
  · exact .inl htodo
  · exact .inr (.inl hleaving)
  · exact .inr (.inr ⟨n, hcur, fun h => hnot (discards_of_other hs hst hw hother hcur h)⟩)

/-! ## The end of a call -/

/-- A call that ends in something else than RETRY was discarded, or has decided the event. -/
theorem decided_of_finish (hs : Custody s) {x : IngestWorker} (hx : x ∈ s.workers) {n : Nat}
    {m : IngestMessage} (hcur : x.phase.current = some (n, m)) {result : Result}
    (hout : s.outcome n = some (.ok result)) (hack : result.shouldAck = true) {t : IngestState}
    (hst : Transaction.step engine ingest s.attempts (.finish n) = some t) :
    Discards s.attempts n ∨ ∃ e, eventOf m.payload = some e ∧ Decided t e := by
  obtain ⟨a, ha, hpayload⟩ := hs.attempt x hx n m hcur
  obtain ⟨clock, reserved, hreach⟩ := hs.reachable
  have ht : IngestReachable t := ⟨clock, reserved, hreach.tail hst⟩
  obtain ⟨i, q, p, r, hactive, rfl, rfl⟩ := step_finish hst
  obtain rfl := Option.some.inj (hactive.symm.trans ha)
  obtain rfl : r = .ok result := by
    unfold outcome at hout
    rw [hactive] at hout
    cases r with
    | ok value => simpa [Program.ofExcept] using hout
    | error e => simp [Program.ofExcept] at hout
  have hr : (⟨n, i, p, .ok result⟩ : Returned store EventEnvelope Result) ∈
      s.attempts.returned ++ [⟨n, i, p, .ok result⟩] :=
    List.mem_append_right _ (List.mem_singleton.mpr rfl)
  obtain ⟨h, hle, hpost⟩ := ht.sound.returned _ hr
  have hevent : eventOf m.payload = some i.eventId.val := by
    rw [hpayload]
    rfl
  change EventProcessor.Concluded i h p (.ok result) at hpost
  cases hpost with
  | discarded => exact .inl ⟨_, hactive, List.mem_singleton.mpr rfl⟩
  | processed _ =>
    obtain ⟨c, hc, hinput, _⟩ := ht.commit_of_returned keyLaws hr (List.mem_singleton.mpr rfl)
    refine .inr ⟨_, hevent, .inl ((inLedger_iff_commit ht.sound.kept _).mpr ⟨c, hc, ?_⟩)⟩
    exact congrArg (fun i : EventEnvelope => i.eventId.val) hinput
  | registered _ hledger => exact .inr ⟨_, hevent, .inl (hledger.later hle)⟩
  | @barred x c k _ hwrite =>
    have hmem : (c, k) ∈ [(c, k)] := List.mem_singleton.mpr rfl
    obtain ⟨_, _, _, hrefused⟩ := ht.handlerRefused.returned _ hr _ _ hmem hwrite
    exact .inr ⟨_, hevent, .inr ⟨_, hr, rfl, _, _, hmem, hwrite, hrefused.business⟩⟩
  | retried => simp [Result.shouldAck] at hack

/-! ## What a step does to the carriers -/

theorem discards_of_exec {s t : IngestState} {n : Nat} {choice : Choice}
    (hst : Transaction.step engine ingest s (.exec n choice) = some t) (h : Discards t n) :
    Discards s n ∨ ∃ i, discarding s (.exec n choice) = some i := by
  obtain ⟨i, o, k, p, r, p', sh, ha, hr, rfl⟩ := step_exec hst
  obtain ⟨b, hb, hdiscarded⟩ := h
  have hb' : b = ⟨i, k r, p'⟩ := by simpa using hb.symm
  subst hb'
  by_cases hold : Discarded i p
  · exact .inl ⟨_, ha, hold⟩
  · exact .inr ⟨i, discarding_of_respond ha hr hold hdiscarded⟩

/-- The copy stays with the worker, is given up, or its event is decided. -/
theorem Acted.carrying (hs : Custody s) {w : Nat} {act : WorkerAct} {x : IngestWorker}
    {phase : IngestPhase} {s' : IngestSystem} (hw : s.workers[w]? = some x)
    (h : Acted settings s w x.cycle act x.phase s' phase) {m : IngestMessage}
    (hm : Carrying s.attempts x.phase m) :
    Carrying s'.attempts phase m ∨ m ∈ givesUp settings s (.act w act) ∨
      ∃ e, eventOf m.payload = some e ∧ Decided s'.attempts e := by
  have hheld : m ∈ x.phase.held := by
    rcases hm with htodo | hleaving | ⟨n, hcur, _⟩
    · exact List.mem_append_left _ htodo
    · exact List.mem_append_right _ (List.mem_append_right _ hleaving)
    · simp [IngestPhase.held, hcur]
  have hphase := phase_of_worker hw
  have hmem := List.mem_of_getElem? hw
  obtain ⟨cycle, old⟩ := x
  cases h with
  | stop | read | ack => simp [IngestPhase.held, IngestPhase.leaving] at hheld
  | pendingCounts => exact .inl hm
  | reclaim =>
    left
    simp [IngestPhase.held, IngestPhase.leaving] at hheld
    exact .inl (by simp [hheld])
  | crash | die =>
    refine .inr (.inl ?_)
    simpa [givesUp, hphase] using hheld
  | raised hout =>
    refine .inr (.inl ?_)
    simpa [givesUp, returning, hw, hout, hphase] using hheld
  | invalid =>
    left
    simp [Carrying, IngestPhase.leaving] at hm ⊢
    grind
  | hand hpayload hst =>
    left
    rcases hm with htodo | hleaving | ⟨n, hcur, _⟩
    · rcases List.mem_cons.mp htodo with rfl | htodo
      · refine .inr (.inr ⟨_, rfl, ?_⟩)
        rintro ⟨a, ha, hdiscarded⟩
        rw [step_start hst] at ha
        obtain rfl : a = ⟨_, _, {}⟩ := by simpa using ha.symm
        cases hdiscarded
      · exact .inl htodo
    · exact .inr (.inl hleaving)
    · cases hcur
  | @exec choice n message batch attempts' hst =>
    rcases hm with htodo | hleaving | ⟨n, hcur, hnot⟩
    · exact .inl (.inl htodo)
    · exact .inl (.inr (.inl hleaving))
    · cases hcur
      by_cases hdiscards : Discards attempts' n
      · obtain hold | ⟨i, hi⟩ := discards_of_exec hst hdiscards
        · exact absurd hold hnot
        · refine .inr (.inl ?_)
          simp [givesUp, closing, hphase, hi]
      · exact .inl (.inr (.inr ⟨n, rfl, hdiscards⟩))
  | @finish n message batch result attempts' hout hst =>
    rcases hm with htodo | hleaving | ⟨n, hcur, hnot⟩
    · exact .inl (.inl (by simpa [settle_todo] using htodo))
    · left
      refine .inr (.inl ?_)
      simp [IngestPhase.leaving, settle_deadLetters, -List.mem_map] at hleaving ⊢
      exact .inl hleaving
    · cases hcur
      by_cases hack : result.shouldAck = true
      · rcases decided_of_finish hs hmem rfl hout hack hst with hdiscards | hdecided
        · exact absurd hdiscards hnot
        · exact .inr (.inr hdecided)
      · by_cases hexhausted : deliveriesExhausted settings m = true
        · left
          refine .inr (.inl ?_)
          simp [IngestPhase.leaving, settle_deadLetters, hack, hexhausted, -List.mem_map]
        · refine .inr (.inl ?_)
          simp [givesUp, returning, hw, hout, hack, hexhausted]
  | copy =>
    left
    simp [Carrying, IngestPhase.leaving] at hm ⊢
    grind
  | bury =>
    simp [Carrying, IngestPhase.leaving, givesUp, closing, hphase] at hm ⊢
    grind

theorem step_carrying (hs : Custody s) (hst : step settings s l = some t) {x : IngestWorker}
    (hx : x ∈ s.workers) {m : IngestMessage} (hm : Carrying s.attempts x.phase m) :
    (∃ y ∈ t.workers, Carrying t.attempts y.phase m) ∨ m ∈ givesUp settings s l ∨
      ∃ e, eventOf m.payload = some e ∧ Decided t.attempts e := by
  obtain ⟨w, hw⟩ := List.getElem?_of_mem hx
  by_cases hother : ∀ act, l ≠ .act w act
  · refine .inl ⟨x, List.mem_of_getElem? (step_others hst hw hother), ?_⟩
    exact carrying_of_other hs hst hw hother hm
  · obtain ⟨act, rfl⟩ : ∃ act, l = .act w act := by
      by_contra hnone
      exact hother fun act heq => hnone ⟨act, heq⟩
    obtain ⟨worker, s', phase, hw', hacted, rfl⟩ := step_act hst
    obtain rfl := Option.some.inj (hw.symm.trans hw')
    rcases hacted.carrying hs hw hm with hkept | hrest
    · exact .inl ⟨_, List.mem_of_getElem? (getElem?_set_act hw), hkept⟩
    · exact .inr hrest

/-- A worker is done with a message in the step, or was before, or its event is decided. -/
theorem step_closed (hs : Custody s) (hst : step settings s l = some t) {id : Nat}
    (hid : t.Closed id) : s.Closed id ∨ id ∈ ids (s.closing l) ∨
      ∃ e, s.eventAt id = some e ∧ Decided t.attempts e := by
  rcases hid with hack | ⟨y, hy, hcase⟩
  · rcases step_acknowledged hst hack with hold | ⟨w, x, hx, ⟨_, hacks⟩ | ⟨m, rfl, hburied, rfl⟩⟩
    · exact .inl (.inl hold)
    · exact .inl (.inr ⟨x, List.mem_of_getElem? hx, .inl hacks⟩)
    · refine .inr (.inl ?_)
      simp [closing, phase_of_worker hx, hburied]
  obtain ⟨w, hw⟩ := List.getElem?_of_mem hy
  rcases worker_cases hst hw with ⟨hold, hother⟩ | ⟨_, rfl⟩ |
    ⟨act, x, s', rfl, hx, hacted, hattempts, _⟩
  · refine .inl (.inr ⟨y, List.mem_of_getElem? hold, ?_⟩)
    rcases hcase with hacks | ⟨n, m, hcur, hm, hdiscards⟩
    · exact .inl hacks
    · exact .inr ⟨n, m, hcur, hm, discards_of_other hs hst hold hother hcur hdiscards⟩
  · rcases hcase with hacks | ⟨n, m, hcur, _⟩
    · cases hacks
    · cases hcur
  · have hmem := List.mem_of_getElem? hx
    rcases hcase with hacks | ⟨n, m, hcur, rfl, hdiscards⟩
    · rcases hacted.acknowledgeable hacks with hold | ⟨n, m, result, rfl, hcur, rfl, hout, hack, hst'⟩
      · exact .inl (.inr ⟨x, hmem, .inl hold⟩)
      · rcases decided_of_finish hs hmem hcur hout hack hst' with hdiscards | ⟨e, he, hdecided⟩
        · exact .inl (.inr ⟨x, hmem, .inr ⟨n, m, hcur, rfl, hdiscards⟩⟩)
        · have hheld : m ∈ x.phase.held := by simp [IngestPhase.held, hcur]
          refine .inr (.inr ⟨e, ?_, hattempts ▸ hdecided⟩)
          rw [eventAt_of_delivered (hs.held x hmem m hheld), he]
    · rw [← hattempts] at hdiscards
      rcases hacted.current hcur with ⟨hcur', choice, rfl, hexec⟩ | ⟨rfl, envelope, _, hstart⟩
      · rcases discards_of_exec hexec hdiscards with hold | ⟨i, hi⟩
        · exact .inl (.inr ⟨x, hmem, .inr ⟨n, m, hcur', rfl, hold⟩⟩)
        · refine .inr (.inl ?_)
          simp [closing, phase_of_worker hx, hcur', hi]
      · obtain ⟨a, ha, hdiscarded⟩ := hdiscards
        rw [step_start hstart] at ha
        obtain rfl : a = ⟨_, _, {}⟩ := by simpa using ha.symm
        cases hdiscarded

/-! ## The invariant -/

def Kept (s : IngestSystem) (eventId : String) : Prop :=
  Decided s.attempts eventId ∨ (∃ id, s.eventAt id = some eventId ∧ ¬ s.Closed id) ∨
    ∃ x ∈ s.workers, ∃ m, Carrying s.attempts x.phase m ∧ eventOf m.payload = some eventId

structure Covered (s : IngestSystem) : Prop where
  custody : Custody s
  copied : ∀ x ∈ s.workers, ∀ m, x.phase.buried = some m → s.InDlq m.messageId
  closed : ∀ id, s.Closed id → s.InDlq id ∨ ∃ e, s.eventAt id = some e ∧ s.Kept e

theorem Covered.initial (clock : Time) : Covered (initial clock) where
  custody := Custody.initial clock
  copied := by
    intro x hx
    cases hx
  closed := by
    rintro id (⟨hlt, _⟩ | ⟨x, hx, _⟩)
    · exact absurd hlt (Nat.not_lt_zero _)
    · cases hx

theorem copied_step (hcopied : ∀ x ∈ s.workers, ∀ m, x.phase.buried = some m → s.InDlq m.messageId)
    (hst : step settings s l = some t) :
    ∀ y ∈ t.workers, ∀ m, y.phase.buried = some m → t.InDlq m.messageId := by
  intro y hy m hburied
  obtain ⟨w, hw⟩ := List.getElem?_of_mem hy
  rcases worker_cases hst hw with ⟨hold, _⟩ | ⟨_, rfl⟩ | ⟨act, x, s', _, _, hacted, _, hstreams⟩
  · exact (hcopied y (List.mem_of_getElem? hold) m hburied).later hst
  · cases hburied
  · obtain ⟨d, hd, rfl⟩ := hacted.buried hburied
    exact ⟨d, hstreams ▸ hd, rfl⟩

theorem closing_subset {m : IngestMessage} (hm : m ∈ s.closing l) : m ∈ givesUp settings s l := by
  unfold givesUp
  split
  · cases hm
  · cases hm
  · exact hm

/-- A message that the step closes is the one its worker is at. -/
theorem closing_cases (hs : Custody s) {m : IngestMessage} (hm : m ∈ s.closing l) :
    m.Delivered s.streams ∧
      ((∃ e, eventOf m.payload = some e) ∨ ∃ x ∈ s.workers, x.phase.buried = some m) := by
  have hworker : ∀ {w}, s.phase w ≠ .gone → ∃ x ∈ s.workers, s.phase w = x.phase := by
    intro w hne
    cases hw : s.workers[w]? with
    | none => simp [phase, hw] at hne
    | some x => exact ⟨x, List.mem_of_getElem? hw, phase_of_worker hw⟩
  unfold closing at hm
  split at hm
  · rename_i w choice
    cases hcur : (s.phase w).current with
    | none => simp [hcur] at hm
    | some p =>
      obtain ⟨n, m'⟩ := p
      obtain ⟨x, hx, hphase⟩ := hworker (w := w) fun hgone => by simp [hgone] at hcur
      obtain rfl : m = m' := by
        simp only [hcur] at hm
        split at hm
        · exact List.mem_singleton.mp hm
        · cases hm
      rw [hphase] at hcur
      obtain ⟨a, _, hpayload⟩ := hs.attempt x hx n m hcur
      refine ⟨hs.held x hx m (by simp [IngestPhase.held, hcur]), .inl ⟨a.input.eventId.val, ?_⟩⟩
      rw [hpayload]
      rfl
  · rename_i w
    have hburied := Option.mem_toList.mp hm
    obtain ⟨x, hx, hphase⟩ := hworker (w := w) fun hgone => by simp [hgone] at hburied
    rw [hphase] at hburied
    refine ⟨hs.held x hx m ?_, .inr ⟨x, hx, hburied⟩⟩
    simp [IngestPhase.held, IngestPhase.leaving, Option.mem_def.mp hburied]
  · cases hm

theorem kept_of_open (hs : Custody s) (hst : step settings s l = some t) {id : Nat} {e : String}
    (he : s.eventAt id = some e) (hopen : ¬ s.Closed id) (hnot : id ∉ ids (s.closing l)) :
    t.Kept e := by
  by_cases hclosed : t.Closed id
  · rcases step_closed hs hst hclosed with hold | hclosing | ⟨e', he', hdecided⟩
    · exact absurd hold hopen
    · exact absurd hclosing hnot
    · obtain rfl := Option.some.inj (he.symm.trans he')
      exact .inl hdecided
  · exact .inr (.inl ⟨id, eventAt_later he hst, hclosed⟩)

theorem StillCarried.kept {e : String} (h : s.StillCarried l e) (hs : Custody s)
    (hst : step settings s l = some t) {id : Nat} (he : s.eventAt id = some e)
    (hid : s.Closed id ∨ id ∈ ids (s.closing l)) : t.InDlq id ∨ t.Kept e := by
  rcases h with hdecided | ⟨id', he', hopen, hnot⟩ | ⟨w, x, m, hw, hother, hcarrying, hm⟩ | hdlq
  · exact .inr (.inl (hdecided.later hst))
  · exact .inr (kept_of_open hs hst he' hopen hnot)
  · have hx := List.mem_of_getElem? (step_others hst hw hother)
    exact .inr (.inr (.inr ⟨x, hx, m, carrying_of_other hs hst hw hother hcarrying, hm⟩))
  · exact .inl ((hdlq id he hid).later hst)

theorem Covered.step (hs : Covered s) (hl : Careful settings s l)
    (hst : step settings s l = some t) : Covered t := by
  refine ⟨hs.custody.step hst, copied_step hs.copied hst, fun id hid => ?_⟩
  have hgivenUp : ∀ m ∈ givesUp settings s l, ∀ e, eventOf m.payload = some e →
      s.eventAt id = some e → s.Closed id ∨ id ∈ ids (s.closing l) → t.InDlq id ∨ t.Kept e :=
    fun m hm e he hat hclosed => (hl m hm e he).kept hs.custody hst hat hclosed
  have hlift : ∀ {e}, s.eventAt id = some e → t.InDlq id ∨ t.Kept e →
      t.InDlq id ∨ ∃ e, t.eventAt id = some e ∧ t.Kept e := by
    intro e he h
    rcases h with hdlq | hkept
    · exact .inl hdlq
    · exact .inr ⟨e, eventAt_later he hst, hkept⟩
  rcases step_closed hs.custody hst hid with hold | hclosing | ⟨e, he, hdecided⟩
  · rcases hs.closed id hold with hdlq | ⟨e, he, hkept⟩
    · exact .inl (hdlq.later hst)
    refine hlift he ?_
    rcases hkept with hdecided | ⟨id', he', hopen⟩ | ⟨x, hx, m, hcarrying, hm⟩
    · exact .inr (.inl (hdecided.later hst))
    · by_cases hnot : id' ∈ ids (s.closing l)
      · obtain ⟨m, hm, rfl⟩ := List.mem_map.mp hnot
        rw [eventAt_of_delivered (closing_cases hs.custody hm).1] at he'
        exact hgivenUp m (closing_subset hm) e he' he (.inl hold)
      · exact .inr (kept_of_open hs.custody hst he' hopen hnot)
    · rcases step_carrying hs.custody hst hx hcarrying with ⟨y, hy, hkept⟩ | hup | ⟨e', he', hdecided⟩
      · exact .inr (.inr (.inr ⟨y, hy, m, hkept, hm⟩))
      · exact hgivenUp m hup e hm he (.inl hold)
      · obtain rfl := Option.some.inj (hm.symm.trans he')
        exact .inr (.inl hdecided)
  · obtain ⟨m, hm, rfl⟩ := List.mem_map.mp hclosing
    obtain ⟨hdelivered, ⟨e, he⟩ | ⟨x, hx, hburied⟩⟩ := closing_cases hs.custody hm
    · have hat : s.eventAt m.messageId = some e := (eventAt_of_delivered hdelivered).trans he
      exact hlift hat (hgivenUp m (closing_subset hm) e he hat (.inr hclosing))
    · exact .inl ((hs.copied x hx m hburied).later hst)
  · exact .inr ⟨e, eventAt_later he hst, .inl hdecided⟩

/-- When no worker gives up a copy on which its event depends, no event vanishes. -/
theorem noEventVanishes_of_careful {clock : Time} {ls : List SystemLabel}
    (hcareful : Transition.Along (step settings) (Careful settings) (initial clock) ls)
    (hrun : run settings clock ls = some s) : s.NoEventVanishes := by
  have hs : Covered s := Transition.run_invariant_along
    (fun _ _ _ hs hl hst => hs.step hl hst) (Covered.initial clock) hcareful hrun
  intro id hack
  rcases hs.closed id (.inl hack) with hdlq | ⟨e, he, hdecided | ⟨id', he', hopen⟩ | hcarried⟩
  · exact .inl hdlq
  · exact .inr ⟨e, he, .inl hdecided⟩
  · exact .inr ⟨e, he, .inr (.inl ⟨id', he', fun hack' => hopen (.inl hack')⟩)⟩
  · exact .inr ⟨e, he, .inr (.inr hcarried)⟩

end IngestSystem

/-! ## A client event that is published twice -/

namespace Sample
open IngestSystem

def called (k : Nat) : List WorkerAct := [.persist] ++ List.replicate k (.exec .ok) ++ [.finish]

/-- One worker stores the event, and finds the reservation taken at the second message. -/
def storedOnce : List SystemLabel :=
  [.publish (some clientEvent), .publish (some clientEvent), .start] ++
    acts 0 ([.read] ++ called 10 ++ called 1 ++ [.ack])

/-- A worker dies with the reservation, another one gets the message again. -/
def diedAfterClaim : List SystemLabel :=
  [.publish (some clientEvent), .start] ++ acts 0 [.read, .persist, .exec .ok, .die] ++
    [.start, .wait 60000] ++
    acts 1 (List.replicate 20 .read ++ [.pendingCounts true, .reclaim] ++ called 1 ++ [.ack])

def storedOnceEnd : IngestSystem := (run {} 0 storedOnce).get (by decide +kernel)

def diedAfterClaimEnd : IngestSystem := (run {} 0 diedAfterClaim).get (by decide +kernel)

end Sample

namespace IngestSystem

theorem careful_of_ledger {settings : Settings} {s : IngestSystem} {l : SystemLabel}
    (h : ∀ m ∈ givesUp settings s l, ∀ e ∈ eventOf m.payload, InLedger (committed s.attempts) e) :
    Careful settings s l :=
  fun m hm e he => .inl (.inl (h m hm e he))

theorem noEventVanishes_of_careful_storedOnce : Sample.storedOnceEnd.NoEventVanishes := by
  have hrun : run {} 0 Sample.storedOnce = some Sample.storedOnceEnd := (Option.some_get _).symm
  refine noEventVanishes_of_careful ?_ hrun
  exact Transition.Along.mono (fun _ _ => careful_of_ledger) (by decide +kernel)

/-- The worker that died keeps its reservation, and the event is discarded. -/
theorem event_vanishes :
    ¬ ∀ (settings : Settings) (clock : Time) (ls : List SystemLabel) (s : IngestSystem),
      run settings clock ls = some s → s.NoEventVanishes := by
  intro hall
  obtain ⟨d, hd, _⟩ | ⟨e, _, (⟨r, hr, _⟩ | ⟨r, hr, _, c, k, href, _⟩) | ⟨id, hid, hopen⟩ |
      ⟨x, hx, m, hcarrying, _⟩⟩ :=
    hall {} 0 Sample.diedAfterClaim Sample.diedAfterClaimEnd (Option.some_get _).symm 0
      (by decide +kernel)
  · have hnone : Sample.diedAfterClaimEnd.streams.deadLetters.isEmpty = true := by decide +kernel
    rw [List.isEmpty_iff.mp hnone] at hd
    cases hd
  · have hnone : (committed Sample.diedAfterClaimEnd.attempts).processedEvents.isEmpty = true := by
      decide +kernel
    rw [List.isEmpty_iff.mp hnone] at hr
    cases hr
  · have hnone : ∀ r ∈ Sample.diedAfterClaimEnd.attempts.returned,
        r.progress.refusals.isEmpty = true := by decide +kernel
    rw [List.isEmpty_iff.mp (hnone r hr)] at href
    cases href
  · obtain ⟨_, hentry, _⟩ := Option.bind_eq_some_iff.mp hid
    obtain ⟨hlt, _⟩ := List.getElem?_eq_some_iff.mp hentry
    have hlength : Sample.diedAfterClaimEnd.streams.stream.entries.length = 1 := by decide +kernel
    obtain rfl : id = 0 := by omega
    exact hopen (by decide +kernel)
  · have hidle : ∀ x ∈ Sample.diedAfterClaimEnd.workers, x.phase.batch.todo.isEmpty = true ∧
        x.phase.leaving.isEmpty = true ∧ x.phase.current.isNone = true := by decide +kernel
    obtain ⟨htodo, hleaving, hcurrent⟩ := hidle x hx
    rw [List.isEmpty_iff] at htodo hleaving
    simp [Carrying, htodo, hleaving, Option.isNone_iff_eq_none.mp hcurrent] at hcarrying

end IngestSystem

end EcommerceIntegration
