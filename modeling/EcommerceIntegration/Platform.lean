import EcommerceIntegration.Dispatch.Backend
import EcommerceIntegration.Ingest.NoLoss
import EcommerceIntegration.Ingest.Totals
import EcommerceIntegration.Webhook.Api

/-!
# The platform from the partners to the ERP

Any number of web processes write to the stream, the ingest workers read from it, what
they commit to the outbox goes to the ERP. Publications may fail half-way and every
process may die. Whatever happens, nothing is on the stream, in the database or at the ERP
that no partner has sent in an accepted event.
-/

namespace EcommerceIntegration

set_option autoImplicit false

open RedisStreamPublisher

/-- A process publishes texts, of which only matters what the workers make of them. -/
abbrev WebProcess := ApiState Payload

/-- The events of a batch that have been written. -/
def masked {α : Type} : List α → List Bool → List α
  | event :: events, written :: mask =>
    if written then event :: masked events mask else masked events mask
  | _, _ => []

namespace WebProcess

/-- The publication in progress fails; the events marked by `mask` have been written. -/
def publishFails (mask : List Bool) (a : WebProcess) : Option (WebProcess × List Payload) :=
  match a.buffer.publishing with
  | [] => none
  | batch :: publishing =>
    some ({ a with
      buffer := { a.buffer with publishing }
      stream := a.stream ++ masked batch.1 mask }, masked batch.1 mask)

/-- The queue and the requests that wait are gone, what the partners were told is not. -/
def restart (a : WebProcess) : WebProcess where
  now := a.now
  answered := a.answered
  published := a.published
  stream := a.stream

/-- What has been accepted and is not on the stream yet. -/
def waiting (a : WebProcess) : List Payload :=
  a.buffer.queue ++ a.buffer.publishing.flatMap Subtype.val

end WebProcess

structure Platform where
  apis : List WebProcess := []
  ingest : IngestSystem
  erp : ErpSystem

inductive PlatformLabel
  /-- one more web process -/
  | serve
  | api (k : Nat) (l : ApiLabel Payload)
  | publishFails (k : Nat) (mask : List Bool)
  | restart (k : Nat)
  | ingest (l : SystemLabel)
  | erp (l : ErpLabel)

def SystemLabel.publishes : SystemLabel → Bool
  | .publish _ => true
  | _ => false

namespace Platform

def publish (events : List Payload) (s : IngestSystem) : IngestSystem :=
  { s with streams := publishMany events s.streams }

/-- The rows that have come into the outbox from `s` to `t`. -/
def newRows (s t : IngestState) : List OutboxMessage :=
  (committed t).outbox.drop (committed s).outbox.length

def step (settings : Settings) (s : Platform) : PlatformLabel → Option Platform
  | .serve => some { s with apis := s.apis ++ [{}] }
  | .api k l => s.apis[k]?.bind fun a => (a.step settings l).map fun a' =>
      { s with
        apis := s.apis.set k a'
        ingest := publish (a'.stream.drop a.stream.length) s.ingest }
  | .publishFails k mask => s.apis[k]?.bind fun a => (a.publishFails mask).map fun (a', written) =>
      { s with
        apis := s.apis.set k a'
        ingest := publish written s.ingest }
  | .restart k => s.apis[k]?.map fun a => { s with apis := s.apis.set k a.restart }
  | .ingest l =>
    -- the workers publish nothing
    if l.publishes then none
    else (s.ingest.step settings l).map fun ingest =>
      { s with
        ingest
        erp := Backend.arrive s.erp (newRows s.ingest.attempts ingest.attempts) }
  | .erp l =>
    if Backend.inserts l then none else (s.erp.step settings l).map fun erp => { s with erp }

def initial (clock : Time) : Platform where
  ingest := .initial clock
  erp := .initial clock

def run (settings : Settings) (s : Platform) (ls : List PlatformLabel) : Option Platform :=
  Transition.run (step settings) s ls

/-- All events that partners were told to be accepted. -/
def accepted (s : Platform) : List Payload := s.apis.flatMap ApiState.accepted

def streamed (s : Platform) : List Payload := s.ingest.streams.stream.entries

/-- A partner has sent the event and it was accepted. -/
def Accepted (s : Platform) (e : EventEnvelope) : Prop := some e ∈ s.accepted

def Loses : PlatformLabel → Prop
  | .publishFails _ _ => True
  | .restart _ => True
  | _ => False

end Platform

/-! ## The web processes -/

section Processes
variable {settings : Settings} {a b : WebProcess} {l : ApiLabel Payload}

/-- Only a publication that returns writes to the stream. -/
theorem ApiState.step_stream (hst : a.step settings l = some b) : a.stream <+: b.stream := by
  cases l with
  | request events =>
    simp only [ApiState.step] at hst
    split at hst <;> cases hst <;> exact List.prefix_refl _
  | lagAnswered k length =>
    obtain ⟨events, _, rfl⟩ := Option.map_eq_some_iff.mp hst
    exact List.prefix_refl _
  | flush =>
    simp only [ApiState.step] at hst
    split at hst
    · cases hst
      exact List.prefix_refl _
    · cases hst
  | publishReturns =>
    simp only [ApiState.step] at hst
    split at hst
    · cases hst
    · cases hst
      exact List.prefix_append _ _
  | wait micros =>
    cases hst
    exact List.prefix_refl _

/-- A run of the buffer in which nothing raises adds what it accepts. -/
theorem Ingestion.run_places {s t : IngestionState Payload} {ks : List (IngestionLabel Payload)}
    (hrun : Transition.run (Ingestion.step settings) s ks = some t)
    (hnone : ∀ k ∈ ks, ¬ Ingestion.Raises k) :
    ∃ new, t.accepted = s.accepted ++ new ∧
      (Ingestion.places t).Perm (Ingestion.places s ++ new) := by
  induction ks generalizing s with
  | nil =>
    cases hrun
    exact ⟨[], (List.append_nil _).symm, by simp⟩
  | cons k ks ih =>
    obtain ⟨s', hst, hrun'⟩ := Transition.run_cons_eq_some.mp hrun
    obtain ⟨later, hlater, hperm⟩ := ih hrun' fun k hk => hnone k (List.mem_cons_of_mem _ hk)
    rcases Ingestion.step_places hst with ⟨_, new, hnew, hplaces⟩ | ⟨hraises, _⟩
    · refine ⟨new ++ later, by rw [hlater, hnew, List.append_assoc], ?_⟩
      rw [← List.append_assoc]
      exact hperm.trans (hplaces.append_right later)
    · exact absurd hraises (hnone k List.mem_cons_self)

/-- Every step of the event loop keeps all events, and adds those that it accepts. -/
theorem ApiState.step_places (hst : a.step settings l = some b) :
    ∃ new, b.accepted = a.accepted ++ new ∧
      (Ingestion.places b.ingestion).Perm (Ingestion.places a.ingestion ++ new) := by
  obtain ⟨ks, hrun, hnone⟩ := ApiState.step_ingestion hst
  exact Ingestion.run_places hrun hnone

end Processes

theorem masked_sublist {α : Type} (events : List α) (mask : List Bool) :
    (masked events mask).Sublist events := by
  induction events generalizing mask with
  | nil => exact List.nil_sublist _
  | cons event events ih =>
    cases mask with
    | nil => exact List.nil_sublist _
    | cons written mask =>
      cases written with
      | true => exact (ih mask).cons_cons event
      | false => exact (ih mask).cons event

/-- A failure may lose events of the batch, and adds none. -/
theorem WebProcess.publishFails_spec {mask : List Bool} {a b : WebProcess} {written : List Payload}
    (h : a.publishFails mask = some (b, written)) :
    b.accepted = a.accepted ∧ b.stream = a.stream ++ written ∧
      (Ingestion.places b.ingestion).Subperm (Ingestion.places a.ingestion) := by
  unfold publishFails at h
  split at h
  · cases h
  · rename_i batch publishing hpublishing
    cases h
    refine ⟨rfl, rfl, ?_⟩
    simp only [Ingestion.places, ApiState.ingestion, hpublishing, List.flatMap_cons,
      List.append_assoc]
    refine (List.subperm_append_left _).mpr ?_
    have hsub := (masked_sublist batch.1 mask).subperm
    have hmoved : (publishing.flatMap Subtype.val ++ (a.stream ++ masked batch.1 mask)).Perm
        (masked batch.1 mask ++ (publishing.flatMap Subtype.val ++ a.stream)) := by
      rw [← List.append_assoc]
      exact List.perm_append_comm
    exact hmoved.subperm.trans ((List.subperm_append_right _).mpr hsub)

/-- The process `a` is replaced by `b`. -/
theorem flatMap_set {α β : Type} {f : α → List β} {xs : List α} {k : Nat} {a b : α} {new : List β}
    (ha : xs[k]? = some a) (hf : f b = f a ++ new) :
    ((xs.set k b).flatMap f).Perm (xs.flatMap f ++ new) := by
  induction xs generalizing k with
  | nil => cases ha
  | cons x xs ih =>
    cases k with
    | zero =>
      cases ha
      simp only [List.set_cons_zero, List.flatMap_cons, hf, List.append_assoc]
      exact List.Perm.append_left _ List.perm_append_comm
    | succ k =>
      simp only [List.set_cons_succ, List.flatMap_cons, List.append_assoc]
      exact List.Perm.append_left _ (ih ha)

theorem flatMap_subperm {α β : Type} {f g : α → List β} {xs : List α}
    (h : ∀ a ∈ xs, (f a).Subperm (g a)) : (xs.flatMap f).Subperm (xs.flatMap g) := by
  induction xs with
  | nil => exact List.Subperm.refl _
  | cons x xs ih =>
    have hrest := ih fun a ha => h a (List.mem_cons_of_mem x ha)
    exact (h x List.mem_cons_self).append hrest

namespace Platform
variable {settings : Settings} {clock : Time} {s t : Platform} {l : PlatformLabel}
  {ls : List PlatformLabel}

/-! ## Database, dispatch and ERP -/

def backend (s : Platform) : Backend := ⟨s.ingest.attempts, s.erp⟩

theorem newRows_eq {s t : IngestState} {l : IngestLabel}
    (hst : Transaction.step engine EcommerceIntegration.ingest s l = some t) :
    newRows s t = Pipeline.arriving s l := by
  rw [newRows, Pipeline.address_arriving s l hst, List.drop_left]

theorem newRows_self (s : IngestState) : newRows s s = [] := List.drop_length

theorem step_backend (hst : s.step settings l = some t) :
    t.backend = s.backend ∨ ∃ l', s.backend.step settings l' = some t.backend := by
  cases l with
  | serve =>
    cases hst
    exact .inl rfl
  | api k l =>
    obtain ⟨a, _, hst⟩ := Option.bind_eq_some_iff.mp hst
    obtain ⟨b, _, rfl⟩ := Option.map_eq_some_iff.mp hst
    exact .inl rfl
  | publishFails k mask =>
    obtain ⟨a, _, hst⟩ := Option.bind_eq_some_iff.mp hst
    obtain ⟨⟨b, written⟩, _, rfl⟩ := Option.map_eq_some_iff.mp hst
    exact .inl rfl
  | restart k =>
    obtain ⟨a, _, rfl⟩ := Option.map_eq_some_iff.mp hst
    exact .inl rfl
  | ingest l =>
    simp only [step] at hst
    split at hst
    · cases hst
    · obtain ⟨ingest, hingest, rfl⟩ := Option.map_eq_some_iff.mp hst
      rcases IngestSystem.step_attempts hingest with heq | ⟨l', hl'⟩
      · left
        simp only [backend, heq, newRows_self]
        simp [Backend.arrive, Pipeline.arrive]
      · refine .inr ⟨.ingest l', ?_⟩
        simp only [Backend.step, backend, hl', newRows_eq hl', Option.map_some]
  | erp l =>
    simp only [step] at hst
    split at hst
    · cases hst
    · rename_i hnot
      obtain ⟨erp, herp, rfl⟩ := Option.map_eq_some_iff.mp hst
      refine .inr ⟨.erp l, ?_⟩
      simp [Backend.step, backend, hnot, herp]

/-- Behind the stream the platform does what database, dispatch and ERP can do. -/
theorem run_backend (hrun : (initial clock).run settings ls = some s) :
    ∃ ls', (Backend.initial clock []).run settings ls' = some s.backend := by
  induction ls using List.reverseRecOn generalizing s with
  | nil =>
    cases hrun
    exact ⟨[], rfl⟩
  | append_singleton ls l ih =>
    obtain ⟨s', hrun', hst⟩ := Transition.run_concat_eq_some.mp hrun
    obtain ⟨ls', hls'⟩ := ih hrun'
    rcases step_backend hst with heq | ⟨l', hl'⟩
    · exact ⟨ls', heq ▸ hls'⟩
    · exact ⟨ls' ++ [l'], Transition.run_concat_eq_some.mpr ⟨_, hls', hl'⟩⟩

/-! ## What is on the stream -/

/-- Each process has its events in three places, and the stream has what the processes
have written. -/
structure Accounted (s : Platform) : Prop where
  places : ∀ a ∈ s.apis, (Ingestion.places a.ingestion).Subperm a.accepted
  stream : s.streamed.Perm (s.apis.flatMap ApiState.stream)

theorem streamed_publish (events : List Payload) (s : IngestSystem) :
    (publish events s).streams.stream.entries = s.streams.stream.entries ++ events :=
  publishMany_entries events s.streams

theorem streamed_ingest {s t : IngestSystem} {l : SystemLabel} (hnot : l.publishes = false)
    (hst : s.step settings l = some t) :
    t.streams.stream.entries = s.streams.stream.entries := by
  cases l with
  | publish payload => cases hnot
  | start | wait =>
    cases hst
    rfl
  | expire | tick =>
    obtain ⟨_, _, rfl⟩ := IngestSystem.database_eq_some hst
    rfl
  | act w act =>
    obtain ⟨⟨cycle, old⟩, s', phase, _, hacted, rfl⟩ := IngestSystem.step_act hst
    cases hacted with
    | reclaim =>
      unfold RedisStreamConsumer.reclaimAbandoned
      dsimp only
      split <;> rfl
    | ack =>
      unfold RedisStreamConsumer.ack
      dsimp only
      split <;> rfl
    | stop | read | pendingCounts | invalid | hand | exec | finish | raised | copy | bury | crash
    | die => rfl

theorem Accounted.replace (hs : Accounted s) {k : Nat} {a b : WebProcess} {written : List Payload}
    (ha : s.apis[k]? = some a) (hb : (Ingestion.places b.ingestion).Subperm b.accepted)
    (hstream : b.stream = a.stream ++ written) :
    Accounted { s with apis := s.apis.set k b, ingest := publish written s.ingest } := by
  refine ⟨fun c hc => ?_, ?_⟩
  · rcases List.mem_or_eq_of_mem_set hc with hc | rfl
    · exact hs.places c hc
    · exact hb
  · have hset := flatMap_set ha hstream
    refine List.Perm.trans ?_ hset.symm
    unfold streamed
    rw [streamed_publish]
    exact hs.stream.append_right written

theorem Accounted.step (hs : Accounted s) (hst : s.step settings l = some t) : Accounted t := by
  cases l with
  | serve =>
    cases hst
    refine ⟨fun a ha => ?_, ?_⟩
    · rcases List.mem_append.mp ha with ha | ha
      · exact hs.places a ha
      · obtain rfl := List.mem_singleton.mp ha
        exact List.Subperm.refl _
    · simpa [streamed] using hs.stream
  | api k l =>
    obtain ⟨a, ha, hst⟩ := Option.bind_eq_some_iff.mp hst
    obtain ⟨b, hb, rfl⟩ := Option.map_eq_some_iff.mp hst
    obtain ⟨new, haccepted, hplaces⟩ := ApiState.step_places hb
    obtain ⟨written, hwritten⟩ := ApiState.step_stream hb
    rw [← hwritten, List.drop_left]
    refine hs.replace ha ?_ hwritten.symm
    rw [haccepted]
    have hold := hs.places a (List.mem_of_getElem? ha)
    exact hplaces.subperm.trans ((List.subperm_append_right new).mpr hold)
  | publishFails k mask =>
    obtain ⟨a, ha, hst⟩ := Option.bind_eq_some_iff.mp hst
    obtain ⟨⟨b, written⟩, hb, rfl⟩ := Option.map_eq_some_iff.mp hst
    obtain ⟨haccepted, hstream, hplaces⟩ := WebProcess.publishFails_spec hb
    refine hs.replace ha ?_ hstream
    rw [haccepted]
    exact hplaces.trans (hs.places a (List.mem_of_getElem? ha))
  | restart k =>
    obtain ⟨a, ha, rfl⟩ := Option.map_eq_some_iff.mp hst
    have hlost : (Ingestion.places (WebProcess.restart a).ingestion).Subperm a.accepted := by
      have hsub : a.stream.Subperm (Ingestion.places a.ingestion) :=
        (List.sublist_append_right _ _).subperm
      exact hsub.trans (hs.places a (List.mem_of_getElem? ha))
    have hreplaced := hs.replace ha hlost (List.append_nil a.stream).symm
    exact ⟨hreplaced.places, hreplaced.stream⟩
  | ingest l =>
    simp only [Platform.step] at hst
    split at hst
    · cases hst
    · rename_i hnot
      obtain ⟨ingest, hingest, rfl⟩ := Option.map_eq_some_iff.mp hst
      refine ⟨hs.places, ?_⟩
      unfold streamed
      rw [streamed_ingest (by simpa using hnot) hingest]
      exact hs.stream
  | erp l =>
    simp only [Platform.step] at hst
    split at hst
    · cases hst
    · obtain ⟨erp, _, rfl⟩ := Option.map_eq_some_iff.mp hst
      exact ⟨hs.places, hs.stream⟩

theorem Accounted.initial : Accounted (initial clock) := by
  refine ⟨fun a ha => ?_, List.Perm.refl _⟩
  cases ha

/-- No event is on the stream more often than partners were told that it is accepted. -/
theorem Accounted.subperm (hs : Accounted s) : s.streamed.Subperm s.accepted := by
  refine hs.stream.subperm.trans (flatMap_subperm fun a ha => ?_)
  have hsub : a.stream.Subperm (Ingestion.places a.ingestion) :=
    (List.sublist_append_right _ _).subperm
  exact hsub.trans (hs.places a ha)

theorem run_accounted (hrun : (Platform.initial clock).run settings ls = some s) : Accounted s :=
  Transition.run_invariant (fun _ _ _ hs hst => hs.step hst) Accounted.initial hrun

/-- What one process has accepted is where it should be. -/
def Conserves (s : Platform) : Prop := ∀ a ∈ s.apis, Ingestion.Conserved a.ingestion

theorem Conserves.step (hs : Conserves s) (hl : ¬ Loses l) (hst : s.step settings l = some t) :
    Conserves t := by
  cases l with
  | serve =>
    cases hst
    intro a ha
    rcases List.mem_append.mp ha with ha | ha
    · exact hs a ha
    · obtain rfl := List.mem_singleton.mp ha
      exact List.Perm.refl _
  | api k l =>
    obtain ⟨a, ha, hst⟩ := Option.bind_eq_some_iff.mp hst
    obtain ⟨b, hb, rfl⟩ := Option.map_eq_some_iff.mp hst
    obtain ⟨new, haccepted, hplaces⟩ := ApiState.step_places hb
    intro c hc
    rcases List.mem_or_eq_of_mem_set hc with hc | rfl
    · exact hs c hc
    · have hold := hs a (List.mem_of_getElem? ha)
      unfold Ingestion.Conserved at hold ⊢
      have hsame : c.ingestion.accepted = a.ingestion.accepted ++ new := haccepted
      rw [hsame]
      exact (hold.append_right new).trans hplaces.symm
  | publishFails k mask => exact absurd trivial hl
  | restart k => exact absurd trivial hl
  | ingest l =>
    simp only [Platform.step] at hst
    split at hst
    · cases hst
    · obtain ⟨ingest, _, rfl⟩ := Option.map_eq_some_iff.mp hst
      exact hs
  | erp l =>
    simp only [Platform.step] at hst
    split at hst
    · cases hst
    · obtain ⟨erp, _, rfl⟩ := Option.map_eq_some_iff.mp hst
      exact hs

theorem run_conserves (hrun : (Platform.initial clock).run settings ls = some s)
    (hnone : Transition.Along (Platform.step settings) (fun _ l => ¬ Loses l)
      (Platform.initial clock) ls) : Conserves s :=
  Transition.run_invariant_along (fun _ _ _ hs hl hst => hs.step hl hst)
    (fun a ha => by cases ha) hnone hrun

theorem Conserves.perm (hs : Conserves s) (haccounted : Accounted s) :
    s.accepted.Perm (s.apis.flatMap WebProcess.waiting ++ s.streamed) := by
  have hplaces : s.accepted.Perm
      (s.apis.flatMap fun a => WebProcess.waiting a ++ a.stream) :=
    List.Perm.flatMap_left s.apis hs
  refine hplaces.trans ((List.flatMap_append_perm _ _ _).symm.trans ?_)
  exact List.Perm.append_left _ haccounted.stream.symm

/-- With multiplicities, the stream has only accepted events, whatever is trimmed; and as long
as no publication fails, no process dies and the stream is within `stream_maxlen`, every
accepted event waits in a process or is on the stream. -/
theorem stream_accounted (hrun : (Platform.initial clock).run settings ls = some s)
    (trimming : s.ingest.streams.Trimming settings) :
    (s.streamed.drop trimming.entries).Subperm s.accepted ∧
      ((∀ l ∈ ls, ¬ Loses l) → s.streamed.length ≤ settings.streamMaxlen →
        s.accepted.Perm
          (s.apis.flatMap WebProcess.waiting ++ s.streamed.drop trimming.entries)) := by
  have hs := run_accounted hrun
  refine ⟨(List.drop_sublist _ _).subperm.trans hs.subperm, fun hnone hwithin => ?_⟩
  have hconserves : Conserves s := run_conserves hrun
    (Transition.along_iff.mpr fun us l vs _ heq _ => hnone l (by simp [heq]))
  rw [trimming.entries_eq_zero hwithin, List.drop_zero]
  exact hconserves.perm hs

/-! ## What the workers process -/

/-- Every attempt and every transaction is about an event of the stream. -/
def Fed (s : IngestSystem) : Prop :=
  Transaction.Inputs (fun e => some e ∈ s.streams.stream.entries) s.attempts

theorem Fed.act {settings : Settings} {s s' : IngestSystem} {w cycle : Nat} {act : WorkerAct}
    {phase phase' : IngestPhase} (hs : Fed s)
    (hheld : ∀ m ∈ phase.held, m.Delivered s.streams)
    (h : IngestSystem.Acted settings s w cycle act phase s' phase') :
    Transaction.Inputs (fun e => some e ∈ s.streams.stream.entries) s'.attempts := by
  cases h with
  | @hand message todo acks dead envelope attempts' hpayload hst =>
    refine hs.step (fun e he => ?_) hst
    cases he
    have hmem : message ∈ (IngestPhase.handling ⟨message :: todo, acks, dead⟩).held :=
      List.mem_append_left _ List.mem_cons_self
    obtain ⟨hentry, _⟩ := hheld message hmem
    exact hpayload ▸ List.mem_of_getElem? hentry
  | exec hst | finish _ hst | raised _ hst | crash hst =>
    exact hs.step (fun e he => by cases he) hst
  | stop | read | pendingCounts | reclaim | invalid | copy | bury | ack | die => exact hs

theorem Fed.step {s t : IngestSystem} {l : SystemLabel} (hs : Fed s)
    (hcustody : IngestSystem.Custody s) (hst : s.step settings l = some t) : Fed t := by
  have hlater := IngestSystem.step_later hst
  refine Transaction.Inputs.mono (fun e he => hlater.entries.subset he) ?_
  cases l with
  | publish | start | wait =>
    cases hst
    exact hs
  | expire | tick =>
    obtain ⟨_, hstep, rfl⟩ := IngestSystem.database_eq_some hst
    exact Transaction.Inputs.step hs (fun e he => by cases he) hstep
  | act w act =>
    obtain ⟨worker, s', phase, hw, hacted, rfl⟩ := IngestSystem.step_act hst
    have hinputs := hs.act (hcustody.held worker (List.mem_of_getElem? hw)) hacted
    exact hinputs

/-- The workers are where a run of their own can bring them. -/
structure Ingesting (s : IngestSystem) : Prop where
  custody : IngestSystem.Custody s
  fed : Fed s

theorem Ingesting.step {s t : IngestSystem} {l : SystemLabel} (hs : Ingesting s)
    (hst : s.step settings l = some t) : Ingesting t :=
  ⟨hs.custody.step hst, hs.fed.step hs.custody hst⟩

theorem run_publish (settings : Settings) (events : List Payload) (s : IngestSystem) :
    Transition.run (IngestSystem.step settings) s (events.map .publish) =
      some (publish events s) := by
  induction events generalizing s with
  | nil => rfl
  | cons event events ih => exact ih (publish [event] s)

theorem Ingesting.publish {s : IngestSystem} (hs : Ingesting s) (events : List Payload) :
    Ingesting (publish events s) :=
  Transition.run_invariant (fun _ _ _ hs hst => hs.step hst) hs (run_publish {} events s)

theorem ingesting_step (hs : Ingesting s.ingest) (hst : s.step settings l = some t) :
    Ingesting t.ingest := by
  cases l with
  | serve =>
    cases hst
    exact hs
  | api k l =>
    obtain ⟨a, _, hst⟩ := Option.bind_eq_some_iff.mp hst
    obtain ⟨b, _, rfl⟩ := Option.map_eq_some_iff.mp hst
    exact hs.publish _
  | publishFails k mask =>
    obtain ⟨a, _, hst⟩ := Option.bind_eq_some_iff.mp hst
    obtain ⟨⟨b, written⟩, _, rfl⟩ := Option.map_eq_some_iff.mp hst
    exact hs.publish _
  | restart k =>
    obtain ⟨a, _, rfl⟩ := Option.map_eq_some_iff.mp hst
    exact hs
  | ingest l =>
    simp only [Platform.step] at hst
    split at hst
    · cases hst
    · obtain ⟨ingest, hingest, rfl⟩ := Option.map_eq_some_iff.mp hst
      exact hs.step hingest
  | erp l =>
    simp only [Platform.step] at hst
    split at hst
    · cases hst
    · obtain ⟨erp, _, rfl⟩ := Option.map_eq_some_iff.mp hst
      exact hs

theorem run_ingesting (hrun : (Platform.initial clock).run settings ls = some s) :
    Ingesting s.ingest := by
  have hstep : ∀ s l t, Ingesting s.ingest → Platform.step settings s l = some t →
      Ingesting t.ingest := fun _ _ _ hs hst => ingesting_step hs hst
  refine Transition.run_invariant hstep ⟨IngestSystem.Custody.initial clock, ?_⟩ hrun
  refine ⟨fun n a ha => ?_, fun c hc => ?_⟩
  · cases ha
  · cases hc

/-- Every committed transaction is about an accepted event. -/
theorem accepted_of_commit (hrun : (Platform.initial clock).run settings ls = some s)
    {c : IngestCommit} (hc : c ∈ s.ingest.attempts.shared.history) : s.Accepted c.input :=
  (run_accounted hrun).subperm.subset ((run_ingesting hrun).fed.committed c hc)

/-! ## What becomes of an accepted event -/

/-- No accepted event is lost before the stream, and the workers give up no copy on which an
event depends. -/
def Careful (settings : Settings) (s : Platform) : PlatformLabel → Prop
  | .ingest l => IngestSystem.Careful settings s.ingest l
  | l => ¬ Loses l

theorem Careful.not_loses (hl : Careful settings s l) : ¬ Loses l := by
  cases l with
  | ingest l => exact id
  | serve | api | publishFails | restart | erp => exact hl

theorem covered_publish {s : IngestSystem} (hs : IngestSystem.Covered s) (events : List Payload) :
    IngestSystem.Covered (publish events s) := by
  induction events generalizing s with
  | nil => exact hs
  | cons event events ih =>
    have hcareful : IngestSystem.Careful {} s (.publish event) := fun m hm => by cases hm
    exact ih (hs.step hcareful rfl)

theorem covered_step (hs : IngestSystem.Covered s.ingest) (hl : Careful settings s l)
    (hst : s.step settings l = some t) : IngestSystem.Covered t.ingest := by
  cases l with
  | serve =>
    cases hst
    exact hs
  | api k l =>
    obtain ⟨a, _, hst⟩ := Option.bind_eq_some_iff.mp hst
    obtain ⟨b, _, rfl⟩ := Option.map_eq_some_iff.mp hst
    exact covered_publish hs _
  | publishFails k mask => exact absurd trivial hl
  | restart k => exact absurd trivial hl
  | ingest l =>
    simp only [Platform.step] at hst
    split at hst
    · cases hst
    · obtain ⟨ingest, hingest, rfl⟩ := Option.map_eq_some_iff.mp hst
      exact hs.step hl hingest
  | erp l =>
    simp only [Platform.step] at hst
    split at hst
    · cases hst
    · obtain ⟨erp, _, rfl⟩ := Option.map_eq_some_iff.mp hst
      exact hs

/-- The event waits in a process, is a dead letter, is in the ledger or barred, has an entry
that can still be processed, or is in the hands of a worker. Entries and dead letters that
have been trimmed do not count. -/
def Known (s : Platform) (trimming : s.ingest.streams.Trimming settings) (e : EventEnvelope) :
    Prop :=
  some e ∈ s.apis.flatMap WebProcess.waiting ∨
    (∃ letter ∈ s.ingest.streams.deadLetters.drop trimming.deadLetters,
      s.streamed[letter.1.messageId]? = some (some e)) ∨
    Decided s.ingest.attempts e.eventId.val ∨
    (∃ id, trimming.entries ≤ id ∧ s.ingest.eventAt id = some e.eventId.val ∧
      ¬ s.ingest.Closed id) ∨
    ∃ x ∈ s.ingest.workers, ∃ m,
      Carrying s.ingest.attempts x.phase m ∧ eventOf m.payload = some e.eventId.val

section Untrimmed
variable {trimming : s.ingest.streams.Trimming settings}
  (hentries : s.streamed.length ≤ settings.streamMaxlen)
include hentries

theorem known_of_kept {e : EventEnvelope} (hkept : s.ingest.Kept e.eventId.val) :
    s.Known trimming e := by
  rcases hkept with hdecided | ⟨id, hevent, hopen⟩ | hcarried
  · exact .inr (.inr (.inl hdecided))
  · have hzero := trimming.entries_eq_zero hentries
    exact .inr (.inr (.inr (.inl ⟨id, hzero ▸ Nat.zero_le id, hevent, hopen⟩)))
  · exact .inr (.inr (.inr (.inr hcarried)))

theorem known_of_streamed (hs : IngestSystem.Covered s.ingest)
    (hletters : s.ingest.streams.deadLetters.length ≤ deadLetterMaxlen) {e : EventEnvelope}
    (he : some e ∈ s.streamed) : s.Known trimming e := by
  obtain ⟨id, hid⟩ := List.mem_iff_getElem?.mp he
  have hevent : s.ingest.eventAt id = some e.eventId.val := by
    unfold streamed at hid
    simp only [IngestSystem.eventAt, hid, Option.bind_some]
    rfl
  by_cases hclosed : s.ingest.Closed id
  · rcases hs.closed id hclosed with ⟨letter, hletter, rfl⟩ | ⟨e', he', hkept⟩
    · refine .inr (.inl ⟨letter, ?_, hid⟩)
      rwa [trimming.deadLetters_eq_zero hletters, List.drop_zero]
    · obtain rfl := Option.some.inj (hevent.symm.trans he')
      exact known_of_kept hentries hkept
  · exact known_of_kept hentries (.inr (.inl ⟨id, hevent, hclosed⟩))

end Untrimmed

/-- Every event that partners were told to be accepted is known to the platform, while the
streams are within their limits. -/
theorem accepted_known
    (hcareful : Transition.Along (Platform.step settings) (Careful settings)
      (Platform.initial clock) ls)
    (hrun : (Platform.initial clock).run settings ls = some s)
    (hentries : s.streamed.length ≤ settings.streamMaxlen)
    (hletters : s.ingest.streams.deadLetters.length ≤ deadLetterMaxlen)
    (trimming : s.ingest.streams.Trimming settings) {e : EventEnvelope} (he : s.Accepted e) :
    s.Known trimming e := by
  have hstep : ∀ s l t, IngestSystem.Covered s.ingest → Careful settings s l →
      Platform.step settings s l = some t → IngestSystem.Covered t.ingest :=
    fun _ _ _ hs hl hst => covered_step hs hl hst
  have hcovered : IngestSystem.Covered s.ingest :=
    Transition.run_invariant_along hstep (IngestSystem.Covered.initial clock) hcareful hrun
  have hconserves := run_conserves hrun (hcareful.mono fun _ _ hl => hl.not_loses)
  have hperm := hconserves.perm (run_accounted hrun)
  rcases List.mem_append.mp (hperm.subset he) with hwaiting | hstreamed
  · exact .inl hwaiting
  · exact known_of_streamed hentries hcovered hletters hstreamed

end Platform

/-! ## Where the orders of the ERP come from -/

section Approvals
open Transaction
variable {i : EventEnvelope} {h : History} {ws : List Change}

/-- A message is written for the event that reports the approved payment. -/
theorem CompleteEffect.notified (hc : CompleteEffect others i h ws) {m : OutboxMessage} {id : Nat}
    (hm : .inserted (.outbox m) id ∈ ws) :
    ∃ data, i.eventType = .paymentUpdated ∧ i.data.paymentUpdated = .ok data ∧
      data.status = .approved ∧ m.aggregateId = data.orderUid := by
  have htype := hc.type_of_message hm
  obtain ⟨h₀, _, hruns⟩ := hc
  rw [htype] at hruns
  obtain ⟨data, o, h₁, h₂, record, approval, hdata, _, _, _, ho, hrecorded, happroval, rfl⟩ :=
    paymentHandler_runs hruns
  have huid : o.orderUid = data.orderUid := by simpa using List.find?_some ho
  refine ⟨data, htype, hdata, ?_⟩
  rcases List.mem_append.mp hm with hm | hm
  · rcases List.mem_append.mp hm with hm | hm
    · cases List.mem_singleton.mp hm
    · exact absurd hm (hrecorded.no_message m id)
  · cases happroval with
    | none => cases hm
    | now approves pending update later notifies =>
      simp only [List.mem_cons, List.not_mem_nil, or_false, reduceCtorEq, false_or] at hm
      cases hm
      exact ⟨approves, notifies.aggregate.trans huid⟩

end Approvals

namespace Platform
variable {settings : Settings} {clock : Time} {s : Platform} {ls : List PlatformLabel}

/-- A partner has sent the address with this city. -/
def CitySent (s : Platform) (addressUid city : String) : Prop :=
  ∃ e data, s.Accepted e ∧ e.eventType = .clientUpserted ∧ e.data.clientUpserted = .ok data ∧
    data.address.addressUid.val = addressUid ∧ data.address.city.val = city

/-- A partner has sent the order of the record, to an address with the city of the record. -/
def OrderRequested (s : Platform) (record : ErpMock.ErpRecord) : Prop :=
  ∃ e data, s.Accepted e ∧ e.eventType = .orderCreated ∧ e.data.orderCreated = .ok data ∧
    data.orderUid.val = record.orderUid ∧ data.totalAmount = record.totalAmount ∧
    data.items.length = record.items ∧ s.CitySent data.shippingAddressUid record.city

/-- A partner has reported an approved payment of the order. -/
def ApprovalReported (s : Platform) (orderUid : String) : Prop :=
  ∃ e data, s.Accepted e ∧ e.eventType = .paymentUpdated ∧ e.data.paymentUpdated = .ok data ∧
    data.status = .approved ∧ data.orderUid.val = orderUid

/-- A version that an order event has found was sent with the fields that it has. -/
theorem city_sent (hrun : (Platform.initial clock).run settings ls = some s)
    (hh : Consistent s.ingest.attempts.shared.history) {h₀ : History}
    (hle : h₀ <+: s.ingest.attempts.shared.history) {uid : String} {shipping a : Address}
    (hcurrent : ∃ h₁, h₁ <+: h₀ ∧ currentVersion (engine.state h₁) uid = some shipping)
    (ha : addressById (committed s.ingest.attempts) shipping.addressId = some a) :
    s.CitySent uid a.fields.city := by
  obtain ⟨b, hb, hfixed, hrow⟩ := version_stays hh hle hcurrent
  obtain rfl : a = b := Option.some.inj (ha.symm.trans hrow)
  obtain ⟨h₂, k, data, hpre, hopens, _⟩ := version_origin hh hb
  obtain ⟨h₁, _, hfound⟩ := hcurrent
  obtain ⟨_, huid, _⟩ := currentVersion_spec hfound
  refine ⟨k.input, data, accepted_of_commit hrun (hpre.subset (by simp)), hopens.type,
    hopens.event, ?_, ?_⟩
  · rw [← hopens.uid, (Address.columns_of_fixed hfixed).2.1, huid]
  · rw [hopens.fields]
    rfl

theorem order_requested (hrun : (Platform.initial clock).run settings ls = some s)
    (hh : Consistent s.ingest.attempts.shared.history) {record : ErpMock.ErpRecord} {o : Order}
    (ho : o ∈ (committed s.ingest.attempts).orders)
    (hrecord : Backend.RecordsOrder (committed s.ingest.attempts) record o) :
    s.OrderRequested record := by
  obtain ⟨h₀, k, data, client, shipping, billing, hpre, hplaced, hfixed⟩ := order_origin hh ho
  have hitems := (itemsOf_placed hh hpre hplaced).length_eq
  have huid : o.orderUid = data.orderUid.val := Order.uid_of_fixed hfixed
  obtain ⟨_, hshipping, _, _, htotal, _⟩ := Order.columns_of_fixed hfixed
  obtain ⟨a, ha, hcity⟩ := hrecord.city
  rw [hshipping] at ha
  refine ⟨k.input, data, accepted_of_commit hrun (hpre.subset (by simp)), hplaced.type,
    hplaced.event, ?_, ?_, hitems.trans hrecord.items.symm, ?_⟩
  · rw [hrecord.orderUid, huid]
  · exact htotal.symm.trans hrecord.totalAmount.symm
  · rw [hcity]
    exact city_sent hrun hh ((List.prefix_append _ _).trans hpre) hplaced.shipping_current ha

theorem approval_reported (hrun : (Platform.initial clock).run settings ls = some s)
    (hh : Consistent s.ingest.attempts.shared.history) {m : OutboxMessage}
    (hm : m ∈ (committed s.ingest.attempts).outbox) : s.ApprovalReported m.aggregateId := by
  obtain ⟨h₀, k, hpre, hnew⟩ := commit_of_outbox hm
  obtain ⟨m₀, id, hinserted, rfl⟩ := mem_newMessages hnew
  obtain ⟨data, htype, hdata, happroved, haggregate⟩ :=
    (hh.of_prefix hpre).effect.notified hinserted
  exact ⟨k.input, data, accepted_of_commit hrun (hpre.subset (by simp)), htype, hdata, happroved,
    haggregate.symm⟩

/-- What the ERP has acknowledged is an order that some partner has sent, with that total, that
number of items and that city, and whose payment some partner has reported as approved. -/
theorem acknowledged_requested (hrun : (Platform.initial clock).run settings ls = some s)
    {key : String} {record : ErpMock.ErpRecord}
    (hkey : s.erp.server.acknowledgedByKey key = some record) :
    s.OrderRequested record ∧ s.ApprovalReported record.orderUid := by
  obtain ⟨ls', hbackend⟩ := run_backend hrun
  obtain ⟨ks, hs, _⟩ := Backend.composed_run hbackend
  have hh : Consistent s.ingest.attempts.shared.history := (reachable_of_run hs.ingest).consistent
  obtain ⟨x, hx, _, hrecord⟩ := (ErpSystem.sound_run hs.erp).filed.records key record hkey
  rw [hs.letters] at hx
  obtain ⟨m, hm, rfl⟩ := List.mem_map.mp hx
  obtain ⟨o, ho, _, haggregate, hdescribes⟩ := message_describes hh hm
  have hrecords := Backend.Describes.recordsOrder hdescribes hrecord
  refine ⟨order_requested hrun hh ho hrecords, ?_⟩
  rw [hrecords.orderUid, ← haggregate]
  exact approval_reported hrun hh hm

/-! ## An order from the partners to the ERP -/

namespace Sample

open EcommerceIntegration.Sample

/-- Two processes accept the events of an order, one of them has published. -/
def requested : List PlatformLabel :=
  [.serve, .serve, .api 0 (.wait 500000), .api 1 (.wait 500000),
    .api 0 (.request [some clientEvent, some order1]), .api 1 (.request [some approval1]),
    .api 1 (.lagAnswered 0 none), .api 0 (.lagAnswered 0 (some 0)),
    .api 0 .flush, .api 0 .publishReturns]

/-- One worker reads its messages, the calls of `process` take so many steps. -/
def cycle (w : Nat) (calls : List Nat) : List PlatformLabel :=
  ([WorkerAct.read] ++ calls.flatMap called ++ [WorkerAct.ack]).map fun act => .ingest (.act w act)

/-- The client and the order are stored while the approval waits. -/
def stored : List PlatformLabel := requested ++ [.ingest .start] ++ cycle 0 [10, 9]

/-- The approval is written though its publication fails, and a process dies. -/
def delivered : List PlatformLabel :=
  stored ++
    [.api 1 .flush, .publishFails 1 [true], .restart 0, .ingest .start] ++ cycle 1 [15] ++
    [.erp (.worker (.start "a")), .erp (.worker (.poll 0)), .erp (.worker (.claim 0 [1])),
      .erp (.worker (.post 0)), .erp (.receive 0), .erp (.wake 0 (.works "ERP-1" 7)),
      .erp (.deliver 0), .erp (.worker (.mark 0 0 0))]

def requestedEnd : Platform := ((initial 0).run {} requested).get (by decide +kernel)

def storedEnd : Platform := ((initial 0).run {} stored).get (by decide +kernel)

def deliveredEnd : Platform := ((initial 0).run {} delivered).get (by decide +kernel)

end Sample

theorem stream_accounted_requested :
    Sample.requestedEnd.streamed.length = 2 ∧
      ∀ trimming : Sample.requestedEnd.ingest.streams.Trimming {},
        Sample.requestedEnd.accepted.Perm (Sample.requestedEnd.apis.flatMap WebProcess.waiting ++
          Sample.requestedEnd.streamed.drop trimming.entries) := by
  have hrun : (initial 0).run {} Sample.requested = some Sample.requestedEnd :=
    (Option.some_get _).symm
  have hlength : Sample.requestedEnd.streamed.length = 2 := by decide +kernel
  refine ⟨hlength, fun trimming => ?_⟩
  obtain ⟨_, hperm⟩ := stream_accounted hrun trimming
  exact hperm (by simp [Sample.requested, Loses]) (by simp [hlength])

/-- Nothing is lost, and no worker gives up a copy. -/
def givesNothingUp (settings : Settings) (s : Platform) : PlatformLabel → Bool
  | .ingest l => (IngestSystem.givesUp settings s.ingest l).isEmpty
  | .publishFails _ _ | .restart _ => false
  | _ => true

theorem careful_of_nothing {settings : Settings} {s : Platform} {l : PlatformLabel}
    (h : givesNothingUp settings s l = true) : Careful settings s l := by
  cases l with
  | ingest l =>
    intro m hm
    rw [List.isEmpty_iff.mp h] at hm
    cases hm
  | publishFails | restart => cases h
  | serve | api | erp => exact id

theorem accepted_known_stored :
    Sample.storedEnd.accepted.length = 3 ∧
      ∀ (trimming : Sample.storedEnd.ingest.streams.Trimming {}) e,
        Sample.storedEnd.Accepted e → Sample.storedEnd.Known trimming e := by
  have hrun : (initial 0).run {} Sample.stored = some Sample.storedEnd := (Option.some_get _).symm
  have hnothing : Transition.Along (Platform.step {})
      (fun s l => givesNothingUp {} s l = true) (initial 0) Sample.stored := by decide +kernel
  have hlength : Sample.storedEnd.streamed.length = 2 := by decide +kernel
  have hletters : Sample.storedEnd.ingest.streams.deadLetters.length = 0 := by decide +kernel
  refine ⟨by decide +kernel, fun trimming e he => ?_⟩
  exact accepted_known (hnothing.mono fun _ _ => careful_of_nothing) hrun (by simp [hlength])
    (by simp [hletters]) trimming he

theorem acknowledged_requested_delivered :
    ∃ record, Sample.deliveredEnd.erp.server.acknowledgedByKey "outbox-1" = some record ∧
      Sample.deliveredEnd.OrderRequested record ∧
      Sample.deliveredEnd.ApprovalReported record.orderUid := by
  have hrun : (initial 0).run {} Sample.delivered = some Sample.deliveredEnd :=
    (Option.some_get _).symm
  have hkey : (Sample.deliveredEnd.erp.server.acknowledgedByKey "outbox-1").isSome = true := by
    decide +kernel
  obtain ⟨record, hrecord⟩ := Option.isSome_iff_exists.mp hkey
  exact ⟨record, hrecord, acknowledged_requested hrun hrecord⟩

end Platform

end EcommerceIntegration
