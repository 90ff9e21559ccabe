import EcommerceIntegration.Config
import EcommerceIntegration.Library.Transition
import Mathlib.Data.List.Perm.Basic

/-!
# The ingestion buffer

`submit` puts an event into the queue and the event is answered as accepted. A flush
takes a batch out of the queue and then waits for its publication. When that raises,
nothing holds the batch any more.
-/

namespace EcommerceIntegration

set_option autoImplicit false

variable {α : Type}

/-- What a flush publishes: it calls the publisher only with a batch that is not empty. -/
abbrev Batch (α : Type) := {batch : List α // batch ≠ []}

namespace EventBuffer

/-- `publishing` has the batch of each flush that waits for the publisher. -/
structure State (α : Type) where
  queue : List α := []
  publishing : List (Batch α) := []
  published : Nat := 0

def depth (s : State α) : Nat := s.queue.length

/-- `asyncio.Queue.full`: without a positive size there is no bound. -/
def full (settings : Settings) (s : State α) : Bool :=
  decide (0 < settings.bufferQueueSize) && decide (settings.bufferQueueSize ≤ depth s)

inductive Error
  | bufferFull (message : String)

def submit (settings : Settings) (event : α) (s : State α) : Except Error (State α) :=
  if full settings s then .error (.bufferFull "buffer de ingestao cheio")
  else .ok { s with queue := s.queue ++ [event] }

/-- The batch and what stays in the queue. -/
def takeBatch : (maxBatch : Nat) → List α → List α × List α
  | 0, queue => ([], queue)
  | _ + 1, [] => ([], [])
  | n + 1, event :: queue =>
    let taken := takeBatch n queue
    (event :: taken.1, taken.2)

theorem takeBatch_append (n : Nat) (queue : List α) :
    (takeBatch n queue).1 ++ (takeBatch n queue).2 = queue := by
  induction n generalizing queue with
  | zero => rfl
  | succ n ih =>
    cases queue with
    | nil => rfl
    | cons event queue => simp only [takeBatch, List.cons_append, ih]

/-- `_flush` up to the call of the publisher. -/
def flush (settings : Settings) (s : State α) : State α :=
  let taken := takeBatch settings.bufferMaxBatch s.queue
  if h : taken.1 ≠ [] then
    { s with queue := taken.2, publishing := s.publishing ++ [⟨taken.1, h⟩] }
  else s

end EventBuffer

/-! ## The buffer and the stream -/

/-- `accepted` has the events for which `submit` has returned. -/
structure IngestionState (α : Type) where
  buffer : EventBuffer.State α := {}
  stream : List α := []
  accepted : List α := []

inductive IngestionLabel (α : Type)
  | submit (event : α)
  | flush
  /-- the publication that waits at this place writes the batch and returns -/
  | publishReturns (k : Nat)
  /-- it raises having written nothing; the periodic loop goes on -/
  | publishRaises (k : Nat)

open scoped List

namespace Ingestion

def step (settings : Settings) (s : IngestionState α) :
    IngestionLabel α → Option (IngestionState α)
  | .submit event =>
    match EventBuffer.submit settings event s.buffer with
    | .ok buffer => some { s with buffer, accepted := s.accepted ++ [event] }
    | .error _ => some s
  | .flush => some { s with buffer := EventBuffer.flush settings s.buffer }
  | .publishReturns k =>
    s.buffer.publishing[k]?.map fun batch =>
      { s with
        buffer := { s.buffer with
          publishing := s.buffer.publishing.eraseIdx k
          published := s.buffer.published + batch.1.length }
        stream := s.stream ++ batch.1 }
  | .publishRaises k =>
    s.buffer.publishing[k]?.map fun _ =>
      { s with buffer := { s.buffer with publishing := s.buffer.publishing.eraseIdx k } }

def run (settings : Settings) (ls : List (IngestionLabel α)) : Option (IngestionState α) :=
  Transition.run (step settings) {} ls

/-- The three places where an event can be. -/
def places (s : IngestionState α) : List α :=
  s.buffer.queue ++ s.buffer.publishing.flatMap Subtype.val ++ s.stream

/-- Every accepted event is in one place and only there. -/
def Conserved (s : IngestionState α) : Prop := s.accepted.Perm (places s)

def Raises : IngestionLabel α → Prop
  | .publishRaises _ => True
  | _ => False

theorem flatMap_eraseIdx {batches : List (Batch α)} {k : Nat} {batch : Batch α}
    (h : batches[k]? = some batch) :
    (batches.flatMap Subtype.val).Perm
      (batch.1 ++ (batches.eraseIdx k).flatMap Subtype.val) := by
  obtain ⟨hk, rfl⟩ := List.getElem?_eq_some_iff.mp h
  have hperm := (List.getElem_cons_eraseIdx_perm hk).symm.flatMap_right Subtype.val
  simpa using hperm

/-- A flush only moves events. -/
theorem places_flush (settings : Settings) (s : IngestionState α) :
    (places { s with buffer := EventBuffer.flush settings s.buffer }).Perm (places s) := by
  have htaken := EventBuffer.takeBatch_append settings.bufferMaxBatch s.buffer.queue
  unfold EventBuffer.flush
  dsimp only
  split
  · unfold places
    refine List.Perm.append_right _ ?_
    rw [List.flatMap_append, List.flatMap_singleton]
    conv => rhs; rw [← htaken]
    refine List.perm_append_comm.trans ?_
    rw [List.append_assoc, List.append_assoc]
    exact (List.perm_append_comm_assoc _ _ _).trans
      (List.Perm.append_left _ List.perm_append_comm)
  · exact List.Perm.refl _

section Step
variable {settings : Settings} {s t : IngestionState α} {l : IngestionLabel α}

/-- A step that does not raise keeps what is there and adds what it accepts; a
publication that raises loses its batch. -/
theorem step_places (hst : step settings s l = some t) :
    (¬ Raises l ∧ ∃ new, t.accepted = s.accepted ++ new ∧ (places t).Perm (places s ++ new)) ∨
      (Raises l ∧ t.accepted = s.accepted ∧ (places t).length < (places s).length) := by
  cases l with
  | submit event =>
    refine .inl ⟨not_false, ?_⟩
    simp only [step, EventBuffer.submit] at hst
    split at hst
    · rename_i buffer hsubmit
      split at hsubmit
      · cases hsubmit
      · cases hsubmit
        cases hst
        refine ⟨[event], rfl, ?_⟩
        simp only [places, List.append_assoc]
        refine List.Perm.append_left _ ?_
        exact List.perm_append_comm.trans (by simp)
    · cases hst
      exact ⟨[], by simp, by simp⟩
  | flush =>
    cases hst
    exact .inl ⟨not_false, [], by simp, by simpa using places_flush settings s⟩
  | publishReturns k =>
    obtain ⟨batch, hbatch, rfl⟩ := Option.map_eq_some_iff.mp hst
    refine .inl ⟨not_false, [], by simp, ?_⟩
    have hperm := flatMap_eraseIdx hbatch
    simp only [places, List.append_nil, List.append_assoc]
    refine List.Perm.append_left _ ?_
    calc
      (s.buffer.publishing.eraseIdx k).flatMap Subtype.val ++ (s.stream ++ batch.1)
      _ ~ s.stream ++ batch.1 ++ (s.buffer.publishing.eraseIdx k).flatMap Subtype.val :=
        List.perm_append_comm
      _ = s.stream ++ (batch.1 ++ (s.buffer.publishing.eraseIdx k).flatMap Subtype.val) :=
        List.append_assoc ..
      _ ~ s.stream ++ s.buffer.publishing.flatMap Subtype.val :=
        List.Perm.append_left _ hperm.symm
      _ ~ s.buffer.publishing.flatMap Subtype.val ++ s.stream := List.perm_append_comm
  | publishRaises k =>
    obtain ⟨batch, hbatch, rfl⟩ := Option.map_eq_some_iff.mp hst
    refine .inr ⟨trivial, rfl, ?_⟩
    have hlength := (flatMap_eraseIdx hbatch).length_eq
    have hpos := List.length_pos_iff.mpr batch.2
    simp only [places, List.length_append] at hlength ⊢
    omega

/-- Nothing more is in the three places than has been accepted. -/
def Bounded (s : IngestionState α) : Prop := (places s).length ≤ s.accepted.length

def Short (s : IngestionState α) : Prop := (places s).length < s.accepted.length

theorem Bounded.step (hs : Bounded s) (hst : Ingestion.step settings s l = some t) :
    Bounded t := by
  unfold Bounded at hs ⊢
  rcases step_places hst with ⟨_, new, haccepted, hperm⟩ | ⟨_, haccepted, hlt⟩
  · have hlength := hperm.length_eq
    simp only [haccepted, List.length_append] at hlength ⊢
    omega
  · rw [haccepted]
    omega

/-- What is lost stays lost. -/
theorem Short.step (hs : Short s) (hst : Ingestion.step settings s l = some t) : Short t := by
  unfold Short at hs ⊢
  rcases step_places hst with ⟨_, new, haccepted, hperm⟩ | ⟨_, haccepted, hlt⟩
  · have hlength := hperm.length_eq
    simp only [haccepted, List.length_append] at hlength ⊢
    omega
  · rw [haccepted]
    omega

theorem Short.of_raises (hs : Bounded s) (hl : Raises l)
    (hst : Ingestion.step settings s l = some t) : Short t := by
  unfold Bounded at hs
  unfold Short
  rcases step_places hst with ⟨hnot, _⟩ | ⟨_, haccepted, hlt⟩
  · exact absurd hl hnot
  · rw [haccepted]
    omega

theorem Conserved.step (hs : Conserved s) (hl : ¬ Raises l)
    (hst : Ingestion.step settings s l = some t) : Conserved t := by
  unfold Conserved at hs ⊢
  rcases step_places hst with ⟨_, new, haccepted, hperm⟩ | ⟨hraises, _⟩
  · rw [haccepted]
    exact (hs.append_right new).trans hperm.symm
  · exact absurd hraises hl

end Step

/-- Accepted events are conserved exactly by the runs in which no publication raises. -/
theorem accepted_conserved_iff {settings : Settings} {ls : List (IngestionLabel α)}
    {s : IngestionState α} (hrun : run settings ls = some s) :
    Conserved s ↔ ∀ l ∈ ls, ¬ Raises l := by
  constructor
  · intro hs l hl hraises
    obtain ⟨us, vs, rfl⟩ := List.append_of_mem hl
    obtain ⟨s₁, hbefore, hrest⟩ := Transition.run_append_eq_some.mp hrun
    obtain ⟨s₂, hst, hafter⟩ := Transition.run_cons_eq_some.mp hrest
    have hbounded : Bounded s₁ :=
      Transition.run_invariant (fun _ _ _ hb hst => Bounded.step hb hst) (Nat.le_refl _) hbefore
    have hshort : Short s := Transition.run_invariant (fun _ _ _ hb hst => Short.step hb hst)
      (Short.of_raises hbounded hraises hst) hafter
    have hlength := hs.length_eq
    unfold Short at hshort
    omega
  · intro hnone
    have hguard : Transition.Along (step settings) (fun _ l => ¬ Raises l) {} ls := by
      refine Transition.along_iff.mpr fun ks l ms t heq _ => hnone l ?_
      simp [heq]
    have hstart : Conserved ({} : IngestionState α) := List.Perm.refl _
    exact Transition.run_invariant_along (fun _ _ _ hs hl hst => Conserved.step hs hl hst)
      hstart hguard hrun

/-! ## One event whose publication fails -/

def lostBatch : List (IngestionLabel String) := [.submit "evt-00000001", .flush, .publishRaises 0]

def keptBatch : List (IngestionLabel String) := [.submit "evt-00000001", .flush, .publishReturns 0]

theorem accepted_conserved_kept : Conserved ((run {} keptBatch).get (by decide)) :=
  (accepted_conserved_iff (Option.some_get _).symm).mpr (by simp [keptBatch, Raises])

theorem accepted_lost : ¬ ∀ (settings : Settings) (ls : List (IngestionLabel String)) s,
    run settings ls = some s → Conserved s := by
  intro hall
  have hperm := hall {} lostBatch _ (Option.some_get (by decide)).symm
  have hlength := hperm.length_eq
  revert hlength
  decide

end Ingestion

end EcommerceIntegration
