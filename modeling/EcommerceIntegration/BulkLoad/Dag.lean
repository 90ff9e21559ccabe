import EcommerceIntegration.BulkLoad.Generator
import EcommerceIntegration.Library.Workflow

/-!
# The load of the order history

The tasks of the DAG, the tables of the load and the CSV files. A try of a task takes its
steps one by one, in between other tasks take theirs, and it may fail at any point.
Connections commit every statement, and a load commits every batch.
-/

namespace EcommerceIntegration.BulkLoad

set_option autoImplicit false

open Workflow

inductive LoadStrategy
  | bulkInsert
  | fastExecutemany
  deriving DecidableEq

def executemanyBatchSize : Nat := 50000
def bulkInsertBatchSize : Nat := 100000
def maxParallelLoads : Nat := 4

def LoadStrategy.batchSize : LoadStrategy → Nat
  | .bulkInsert => bulkInsertBatchSize
  | .fastExecutemany => executemanyBatchSize

theorem LoadStrategy.batchSize_pos (strategy : LoadStrategy) : 0 < strategy.batchSize := by
  cases strategy <;> decide

/-- The parameters of a run of the DAG, with its plan. -/
structure LoadParams where
  rowCount : Nat
  chunkSize : Nat
  strategy : LoadStrategy
  chunks : List Chunk
  rowCount_ge : 1000 ≤ rowCount
  chunkSize_ge : 1000 ≤ chunkSize
  planned : planChunks rowCount chunkSize = .ok chunks

/-- `generateAndLoad` is mapped over the chunks. -/
inductive Task
  | prepareStaging
  | plan
  | generateAndLoad (chunkIndex : Nat)
  | loadFact
  | validateLoad
  | cleanup
  deriving DecidableEq

/-- A row of the history, by its place in the plan. -/
structure StagedRow where
  chunkIndex : Nat
  offset : Nat
  deriving DecidableEq

/-- Where a try is. -/
inductive Position
  | begun
  /-- the file is open -/
  | writing
  | loading (batches : Nat)
  | truncated
  | copied
  /-- the names that `listdir` has found, by their chunks -/
  | deleting (names : List Nat)
  | done

/-- `files` has the chunks whose CSV file exists, `factRows` what `load_fact` returns. -/
structure DagRun where
  schedule : Schedule Task := {}
  position : Task → Position := fun _ => .begun
  files : List Nat := []
  staging : List StagedRow := []
  fact : List StagedRow := []
  factRows : Nat := 0

namespace LoadParams
variable (p : LoadParams)

def loads : List Task := (List.range p.chunks.length).map .generateAndLoad

def dag : Dag Task where
  upstream
    | .prepareStaging => []
    | .plan => [.prepareStaging]
    | .generateAndLoad _ => [.plan]
    | .loadFact => p.loads
    | .validateLoad => [.loadFact]
    | .cleanup => [.validateLoad]
  rule
    | .cleanup => .allDone
    | _ => .allSuccess
  retries := 2

/-- The rows that the batch takes from the file of the chunk. -/
def batchRows (chunk : Chunk) (batch : Nat) : List StagedRow :=
  (List.range' (batch * p.strategy.batchSize)
    (min p.strategy.batchSize (chunk.rowCount - batch * p.strategy.batchSize))).map
      fun offset => ⟨chunk.chunkIndex, offset⟩

def plannedRows : List StagedRow :=
  p.chunks.flatMap fun chunk => (List.range chunk.rowCount).map fun offset =>
    ⟨chunk.chunkIndex, offset⟩

/-- The next step of a try; none where it raises. -/
def body (s : DagRun) : Task → Position → Option (DagRun × Position)
  | .prepareStaging, .begun => some ({ s with staging := [] }, .done)
  | .plan, .begun => some (s, .done)
  | .generateAndLoad k, .begun =>
    some ({ s with files := k :: s.files.filter (· ≠ k) }, .writing)
  | .generateAndLoad _, .writing => some (s, .loading 0)
  | .generateAndLoad k, .loading batches =>
    match p.chunks[k]? with
    | none => none
    | some chunk =>
      if batches * p.strategy.batchSize < chunk.rowCount then
        -- the file is opened before the first batch
        if batches = 0 ∧ k ∉ s.files then none
        else some ({ s with staging := s.staging ++ p.batchRows chunk batches },
          .loading (batches + 1))
      else if k ∈ s.files then some ({ s with files := s.files.filter (· ≠ k) }, .done)
      else none
  | .loadFact, .begun => some ({ s with fact := [] }, .truncated)
  | .loadFact, .truncated => some ({ s with fact := s.fact ++ s.staging }, .copied)
  | .loadFact, .copied => some ({ s with factRows := s.fact.length }, .done)
  | .validateLoad, .begun => if s.factRows = p.rowCount then some (s, .done) else none
  | .cleanup, .begun => some (s, .deleting s.files)
  | .cleanup, .deleting (k :: names) =>
    if k ∈ s.files then some ({ s with files := s.files.filter (· ≠ k) }, .deleting names)
    else none
  | .cleanup, .deleting [] => some (s, .done)
  | _, _ => none

end LoadParams

inductive DagLabel
  | start (t : Task)
  | act (t : Task)
  | succeed (t : Task)
  | fail (t : Task)
  /-- Before the plan is there, all loads are one task. -/
  | giveUpLoads
  | giveUp (t : Task)

namespace DagRun

def running (p : LoadParams) (s : DagRun) : Nat :=
  p.loads.countP fun t => decide (s.schedule.status t = .running)

/-- An instance of a mapped task is there for a chunk, and may have to wait. -/
def admitted (p : LoadParams) (s : DagRun) : Task → Bool
  | .generateAndLoad k => decide (k < p.chunks.length ∧ s.running p < maxParallelLoads)
  | _ => true

def mapped : Task → Bool
  | .generateAndLoad _ => true
  | _ => false

def step (p : LoadParams) (s : DagRun) : DagLabel → Option DagRun
  | .start t =>
    if s.admitted p t then
      (p.dag.step s.schedule (.start t)).map fun schedule =>
        { s with schedule, position := Function.update s.position t .begun }
    else none
  | .act t =>
    if s.schedule.status t = .running then
      (p.body s t (s.position t)).map fun (s', position) =>
        { s' with position := Function.update s.position t position }
    else none
  | .succeed t =>
    match s.position t with
    | .done => (p.dag.step s.schedule (.succeed t)).map fun schedule => { s with schedule }
    | _ => none
  | .fail t => (p.dag.step s.schedule (.fail t)).map fun schedule => { s with schedule }
  | .giveUpLoads =>
    (p.dag.step s.schedule (.giveUp p.loads)).map fun schedule => { s with schedule }
  | .giveUp t =>
    if mapped t then none
    else (p.dag.step s.schedule (.giveUp [t])).map fun schedule => { s with schedule }

/-- The tables and the files are as the last run has left them. -/
def initial (files : List Nat) (staging fact : List StagedRow) : DagRun :=
  { files, staging, fact }

def run (p : LoadParams) (s : DagRun) (ls : List DagLabel) : Option DagRun :=
  Transition.run (step p) s ls

/-! ## What a step can do -/

/-- The steps of the bodies, one by one. -/
inductive Did (p : LoadParams) (s : DagRun) : Task → Position → DagRun → Position → Prop
  | prepare : Did p s .prepareStaging .begun { s with staging := [] } .done
  | plan : Did p s .plan .begun s .done
  | create {k : Nat} : Did p s (.generateAndLoad k) .begun
      { s with files := k :: s.files.filter (· ≠ k) } .writing
  | written {k : Nat} : Did p s (.generateAndLoad k) .writing s (.loading 0)
  | batch {k batches : Nat} {chunk : Chunk} (chunk_eq : p.chunks[k]? = some chunk)
      (more : batches * p.strategy.batchSize < chunk.rowCount) :
      Did p s (.generateAndLoad k) (.loading batches)
        { s with staging := s.staging ++ p.batchRows chunk batches } (.loading (batches + 1))
  | remove {k batches : Nat} {chunk : Chunk} (chunk_eq : p.chunks[k]? = some chunk)
      (all : chunk.rowCount ≤ batches * p.strategy.batchSize) :
      Did p s (.generateAndLoad k) (.loading batches)
        { s with files := s.files.filter (· ≠ k) } .done
  | truncate : Did p s .loadFact .begun { s with fact := [] } .truncated
  | copy : Did p s .loadFact .truncated { s with fact := s.fact ++ s.staging } .copied
  | count : Did p s .loadFact .copied { s with factRows := s.fact.length } .done
  | validate (expected : s.factRows = p.rowCount) : Did p s .validateLoad .begun s .done
  | list : Did p s .cleanup .begun s (.deleting s.files)
  | delete {k : Nat} {names : List Nat} (found : k ∈ s.files) :
      Did p s .cleanup (.deleting (k :: names)) { s with files := s.files.filter (· ≠ k) }
        (.deleting names)
  | cleaned : Did p s .cleanup (.deleting []) s .done

theorem body_did {p : LoadParams} {s s' : DagRun} {t : Task} {position position' : Position}
    (h : p.body s t position = some (s', position')) : Did p s t position s' position' := by
  unfold LoadParams.body at h
  split at h
  · cases h
    exact .prepare
  · cases h
    exact .plan
  · cases h
    exact .create
  · cases h
    exact .written
  · split at h
    · cases h
    · rename_i chunk hchunk
      split at h
      · rename_i hmore
        split at h
        · cases h
        · cases h
          exact .batch hchunk hmore
      · rename_i hall
        split at h
        · cases h
          exact .remove hchunk (Nat.le_of_not_lt hall)
        · cases h
  · cases h
    exact .truncate
  · cases h
    exact .copy
  · cases h
    exact .count
  · split at h
    · rename_i hexpected
      cases h
      exact .validate hexpected
    · cases h
  · cases h
    exact .list
  · split at h
    · rename_i hfound
      cases h
      exact .delete hfound
    · cases h
  · cases h
    exact .cleaned
  · cases h

/-- A body leaves the schedule and the positions alone. -/
theorem Did.frame {p : LoadParams} {s s' : DagRun} {t : Task} {position position' : Position}
    (h : Did p s t position s' position') :
    s'.schedule = s.schedule ∧ s'.position = s.position := by
  cases h <;> exact ⟨rfl, rfl⟩

/-- The event that the label is for the schedule. -/
def event (p : LoadParams) : DagLabel → Option (Event Task)
  | .start t => some (.start t)
  | .act _ => none
  | .succeed t => some (.succeed t)
  | .fail t => some (.fail t)
  | .giveUpLoads => some (.giveUp p.loads)
  | .giveUp t => some (.giveUp [t])

theorem event_start {p : LoadParams} {l : DagLabel} {t : Task}
    (h : event p l = some (.start t)) : l = .start t := by
  cases l <;> simp_all [event]

theorem event_succeed {p : LoadParams} {l : DagLabel} {t : Task}
    (h : event p l = some (.succeed t)) : l = .succeed t := by
  cases l <;> simp_all [event]

theorem event_fail {p : LoadParams} {l : DagLabel} {t : Task}
    (h : event p l = some (.fail t)) : l = .fail t := by
  cases l <;> simp_all [event]

inductive Stepped (p : LoadParams) (s : DagRun) : DagLabel → DagRun → Prop
  | act {t : Task} {s' : DagRun} {position : Position} (running : s.schedule.status t = .running)
      (did : Did p s t (s.position t) s' position) :
      Stepped p s (.act t) { s' with position := Function.update s.position t position }
  | start {t : Task} {schedule : Schedule Task}
      (scheduled : p.dag.step s.schedule (.start t) = some schedule)
      (admitted : s.admitted p t = true) :
      Stepped p s (.start t)
        { s with schedule, position := Function.update s.position t .begun }
  | scheduled {l : DagLabel} {e : Event Task} {schedule : Schedule Task} (isEvent : event p l = some e)
      (scheduled : p.dag.step s.schedule e = some schedule)
      (notStart : ∀ t, l ≠ .start t) (done : ∀ t, l = .succeed t → s.position t = .done)
      (alone : ∀ t, l = .giveUp t → mapped t = false) :
      Stepped p s l { s with schedule }

theorem step_stepped {p : LoadParams} {s s' : DagRun} {l : DagLabel}
    (h : step p s l = some s') : Stepped p s l s' := by
  cases l with
  | start t =>
    simp only [step] at h
    split at h
    · rename_i hadmitted
      obtain ⟨schedule, hst, rfl⟩ := Option.map_eq_some_iff.mp h
      exact .start hst hadmitted
    · cases h
  | act t =>
    simp only [step] at h
    split at h
    · rename_i hrunning
      obtain ⟨⟨s', position⟩, hbody, rfl⟩ := Option.map_eq_some_iff.mp h
      exact .act hrunning (body_did hbody)
    · cases h
  | succeed t =>
    simp only [step] at h
    split at h
    · rename_i hdone
      obtain ⟨schedule, hst, rfl⟩ := Option.map_eq_some_iff.mp h
      refine .scheduled rfl hst (fun _ heq => by cases heq) (fun u heq => ?_)
        (fun _ heq => by cases heq)
      cases heq
      exact hdone
    · cases h
  | fail t | giveUpLoads =>
    obtain ⟨schedule, hst, rfl⟩ := Option.map_eq_some_iff.mp h
    exact .scheduled rfl hst (fun _ heq => by cases heq) (fun _ heq => by cases heq)
      (fun _ heq => by cases heq)
  | giveUp t =>
    simp only [step] at h
    split at h
    · cases h
    · rename_i hmapped
      obtain ⟨schedule, hst, rfl⟩ := Option.map_eq_some_iff.mp h
      refine .scheduled rfl hst (fun _ heq => by cases heq) (fun _ heq => by cases heq)
        (fun u heq => ?_)
      cases heq
      simpa using hmapped

theorem step_schedule {p : LoadParams} {s s' : DagRun} {l : DagLabel} (h : step p s l = some s') :
    s'.schedule = s.schedule ∨ ∃ e, event p l = some e ∧
      p.dag.step s.schedule e = some s'.schedule := by
  cases step_stepped h with
  | act _ hdid => exact .inl hdid.frame.1
  | start hst _ => exact .inr ⟨_, rfl, hst⟩
  | scheduled hevent hst => exact .inr ⟨_, hevent, hst⟩

theorem consistent_step {p : LoadParams} {s s' : DagRun} {l : DagLabel}
    (hs : Workflow.Consistent p.dag s.schedule) (h : step p s l = some s') :
    Workflow.Consistent p.dag s'.schedule := by
  rcases step_schedule h with heq | ⟨e, _, hst⟩
  · exact heq ▸ hs
  · exact hs.step hst

theorem final_step {p : LoadParams} {s s' : DagRun} {l : DagLabel} {t : Task}
    (h : step p s l = some s') (ht : (s.schedule.status t).final = true) :
    s'.schedule.status t = s.schedule.status t := by
  rcases step_schedule h with heq | ⟨e, _, hst⟩
  · rw [heq]
  · exact step_final hst ht

end DagRun

end EcommerceIntegration.BulkLoad
