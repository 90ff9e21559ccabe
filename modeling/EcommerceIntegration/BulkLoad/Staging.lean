import EcommerceIntegration.BulkLoad.Dag

/-!
# The staging table after retries

The staging table is emptied once, before the first load. What a try has committed stays
when the try fails, and the next try of the chunk starts from its first row again.
-/

namespace EcommerceIntegration.BulkLoad

set_option autoImplicit false

open Workflow

namespace LoadParams
variable {p : LoadParams}

theorem chunk_at {k : Nat} {chunk : Chunk} (h : p.chunks[k]? = some chunk) :
    chunk.chunkIndex = k ∧ 0 < chunk.rowCount := by
  have hr := p.rowCount_ge
  have hc := p.chunkSize_ge
  have hplanned := p.planned
  rw [planChunks_eq (by omega) (by omega)] at hplanned
  rw [← Except.ok.inj hplanned, List.getElem?_map] at h
  obtain ⟨n, hn, rfl⟩ := Option.map_eq_some_iff.mp h
  obtain ⟨hlt, hget⟩ := List.getElem?_eq_some_iff.mp hn
  rw [List.getElem_range] at hget
  subst hget
  rw [List.length_range, chunkCount] at hlt
  have hmul : k * p.chunkSize < p.rowCount := by
    have hle := (Nat.le_div_iff_mul_le (by omega)).mp (Nat.succ_le_of_lt hlt)
    rw [Nat.succ_mul] at hle
    omega
  exact ⟨rfl, by simp only; omega⟩

theorem mem_plannedRows {r : StagedRow} :
    r ∈ p.plannedRows ↔ ∃ chunk, p.chunks[r.chunkIndex]? = some chunk ∧ r.offset < chunk.rowCount := by
  unfold plannedRows
  rw [List.mem_flatMap]
  constructor
  · rintro ⟨chunk, hchunk, hr⟩
    obtain ⟨offset, hoffset, rfl⟩ := List.mem_map.mp hr
    obtain ⟨k, hk⟩ := List.getElem?_of_mem hchunk
    obtain ⟨hindex, _⟩ := chunk_at hk
    refine ⟨chunk, ?_, List.mem_range.mp hoffset⟩
    rw [hindex]
    exact hk
  · rintro ⟨chunk, hk, hlt⟩
    obtain ⟨hindex, _⟩ := chunk_at hk
    refine ⟨chunk, List.mem_of_getElem? hk, List.mem_map.mpr ⟨r.offset, List.mem_range.mpr hlt, ?_⟩⟩
    rw [hindex]

end LoadParams

namespace DagRun
variable {p : LoadParams} {s t : DagRun} {l : DagLabel}

/-- The rows that a try has committed. -/
def committedRows (p : LoadParams) (chunk : Chunk) : Position → Nat
  | .loading batches => min (batches * p.strategy.batchSize) chunk.rowCount
  | .done => chunk.rowCount
  | _ => 0

/-- The rows that the try under way, or the one that has succeeded, has committed. -/
def loaded (p : LoadParams) (s : DagRun) (k : Nat) : Nat :=
  match p.chunks[k]?, s.schedule.status (.generateAndLoad k) with
  | some chunk, .running => committedRows p chunk (s.position (.generateAndLoad k))
  | some chunk, .success => chunk.rowCount
  | _, _ => 0

/-- If the step is the failure of a try of a chunk, no batch of the try was committed. -/
def CleanFailure (p : LoadParams) (s : DagRun) : DagLabel → Prop
  | .fail (.generateAndLoad k) => s.loaded p k = 0
  | _ => True

instance (p : LoadParams) (s : DagRun) (l : DagLabel) : Decidable (CleanFailure p s l) := by
  unfold CleanFailure
  split <;> infer_instance

def LoadedOnce (p : LoadParams) (s : DagRun) : Prop :=
  ∀ r ∈ p.plannedRows, s.staging.count r = 1

def AllLoaded (p : LoadParams) (s : DagRun) : Prop :=
  ∀ k < p.chunks.length, s.schedule.status (.generateAndLoad k) = .success

/-- The staging table has been emptied. -/
def Prepared (s : DagRun) : Prop :=
  s.schedule.status .prepareStaging = .success ∨
    (s.schedule.status .prepareStaging = .running ∧ s.position .prepareStaging = .done)

/-- How often the row belongs to the first `n` rows of its chunk. -/
def among (n : Nat) (r : StagedRow) : Nat := if r.offset < n then 1 else 0

/-! ## One step -/

theorem count_batchRows {k batches : Nat} {chunk : Chunk} (hchunk : p.chunks[k]? = some chunk)
    (hmore : batches * p.strategy.batchSize < chunk.rowCount) (r : StagedRow) :
    (p.batchRows chunk batches).count r +
        (if r.chunkIndex = k then among (committedRows p chunk (.loading batches)) r else 0) =
      if r.chunkIndex = k then among (committedRows p chunk (.loading (batches + 1))) r else 0 := by
  obtain ⟨hindex, _⟩ := LoadParams.chunk_at hchunk
  obtain ⟨c, offset⟩ := r
  have hnodup : (p.batchRows chunk batches).Nodup := by
    refine List.Nodup.map (fun a b h => ?_) List.nodup_range'
    exact congrArg StagedRow.offset h
  have hmem : (⟨c, offset⟩ : StagedRow) ∈ p.batchRows chunk batches ↔
      c = k ∧ batches * p.strategy.batchSize ≤ offset ∧
        offset < (batches + 1) * p.strategy.batchSize ∧ offset < chunk.rowCount := by
    simp only [LoadParams.batchRows, List.mem_map, List.mem_range'_1, StagedRow.mk.injEq,
      Nat.add_one_mul]
    constructor
    · rintro ⟨n, ⟨hle, hlt⟩, rfl, rfl⟩
      exact ⟨hindex, hle, by omega, by omega⟩
    · rintro ⟨rfl, hle, hlt, hrow⟩
      exact ⟨offset, ⟨hle, by omega⟩, hindex, rfl⟩
  rw [hnodup.count]
  simp only [hmem, among, committedRows, lt_min_iff, Nat.add_one_mul]
  generalize batches * p.strategy.batchSize = first at hmore ⊢
  by_cases hck : c = k
  · simp only [hck, true_and, if_true]
    split_ifs <;> omega
  · simp [hck]

/-- What a step does to the rows of a chunk, apart from emptying the table and from a
failure of the chunk. -/
def Appends (p : LoadParams) (s t : DagRun) : Prop :=
  ∀ r : StagedRow, t.staging.count r + among (s.loaded p r.chunkIndex) r =
    s.staging.count r + among (t.loaded p r.chunkIndex) r

theorem loaded_of_same {k : Nat}
    (hstatus : t.schedule.status (.generateAndLoad k) = s.schedule.status (.generateAndLoad k))
    (hposition : t.position (.generateAndLoad k) = s.position (.generateAndLoad k)) :
    t.loaded p k = s.loaded p k := by
  unfold loaded
  rw [hstatus, hposition]

theorem loaded_of_running {k : Nat} {chunk : Chunk} (hchunk : p.chunks[k]? = some chunk)
    (hrunning : s.schedule.status (.generateAndLoad k) = .running) :
    s.loaded p k = committedRows p chunk (s.position (.generateAndLoad k)) := by
  unfold loaded
  rw [hchunk, hrunning]

/-- A load is started after the staging table was prepared. -/
theorem prepare_success (hs : Workflow.Consistent p.dag s.schedule) {k : Nat}
    (hk : (s.schedule.status (.generateAndLoad k)).started = true) :
    s.schedule.status .prepareStaging = .success := by
  have hplan : s.schedule.status .plan = .success :=
    hs.upstream_success hk rfl (List.mem_singleton.mpr rfl)
  exact hs.upstream_success (by rw [hplan]; rfl) rfl (List.mem_singleton.mpr rfl)

theorem loaded_eq_zero {k : Nat} (hrunning : s.schedule.status (.generateAndLoad k) ≠ .running)
    (hsuccess : s.schedule.status (.generateAndLoad k) ≠ .success) : s.loaded p k = 0 := by
  unfold loaded
  split <;> simp_all

theorem appends_of_same (hstaging : t.staging = s.staging)
    (hloaded : ∀ k, t.loaded p k = s.loaded p k) : Appends p s t := by
  intro r
  rw [hstaging, hloaded]

/-- The body of a load. -/
theorem Did.appends {s' : DagRun} {τ : Task} {position : Position}
    (hrunning : s.schedule.status τ = .running) (hdid : Did p s τ (s.position τ) s' position)
    (hprepare : τ ≠ .prepareStaging) :
    Appends p s { s' with position := Function.update s.position τ position } := by
  obtain ⟨hschedule, _⟩ := hdid.frame
  have hother : ∀ j, τ ≠ .generateAndLoad j →
      loaded p { s' with position := Function.update s.position τ position } j = s.loaded p j := by
    intro j hj
    refine loaded_of_same (by rw [hschedule]) ?_
    exact Function.update_of_ne hj.symm _ _
  have hown : ∀ k chunk, τ = .generateAndLoad k → p.chunks[k]? = some chunk →
      loaded p { s' with position := Function.update s.position τ position } k =
        committedRows p chunk position := by
    rintro k chunk rfl hchunk
    rw [loaded_of_running hchunk (by rw [hschedule, hrunning])]
    simp
  -- rows are written by the batches, and the rows of the other chunks stay
  generalize hat : s.position τ = old at hdid
  cases hdid with
  | prepare => exact absurd rfl hprepare
  | plan | truncate | copy | count | validate | list | delete | cleaned =>
    exact appends_of_same rfl fun j => hother j (by simp)
  | @create k | @written k =>
    refine appends_of_same rfl fun j => ?_
    by_cases hjk : j = k
    · subst hjk
      cases hchunk : p.chunks[j]? with
      | none => simp [loaded, hchunk]
      | some chunk =>
        rw [hown j chunk rfl hchunk, loaded_of_running hchunk hrunning, hat]
        simp [committedRows]
    · exact hother j fun heq => hjk (Task.generateAndLoad.inj heq).symm
  | @remove k batches chunk hchunk hall =>
    refine appends_of_same rfl fun j => ?_
    by_cases hjk : j = k
    · subst hjk
      rw [hown j chunk rfl hchunk, loaded_of_running hchunk hrunning, hat]
      exact (Nat.min_eq_right hall).symm
    · exact hother j fun heq => hjk (Task.generateAndLoad.inj heq).symm
  | @batch k batches chunk hchunk hmore =>
    intro r
    have hcount := count_batchRows hchunk hmore r
    by_cases hk : r.chunkIndex = k
    · rw [if_pos hk, if_pos hk] at hcount
      rw [hk, hown k chunk rfl hchunk, loaded_of_running hchunk hrunning, hat]
      simp only [List.count_append]
      omega
    · rw [if_neg hk, if_neg hk] at hcount
      rw [hother _ fun heq => hk (Task.generateAndLoad.inj heq).symm]
      simp only [List.count_append]
      omega

/-- A step adds to the staging table what it adds to the loads, empties it, or is the
failure of a load, after which the next try begins anew. -/
theorem step_staging (hs : Workflow.Consistent p.dag s.schedule) (h : step p s l = some t) :
    (l ≠ .act .prepareStaging ∧ (∀ k, l ≠ .fail (.generateAndLoad k)) ∧ Appends p s t) ∨
      (∃ k, l = .fail (.generateAndLoad k) ∧ t.staging = s.staging ∧ t.loaded p k = 0 ∧
        ∀ j ≠ k, t.loaded p j = s.loaded p j) ∨
      (l = .act .prepareStaging ∧ t.staging = [] ∧ ∀ k, t.loaded p k = 0) := by
  cases step_stepped h with
  | @act τ s' position hrunning hdid =>
    by_cases hprepare : τ = .prepareStaging
    · subst hprepare
      refine .inr (.inr ⟨rfl, ?_⟩)
      obtain ⟨hschedule, _⟩ := hdid.frame
      have hzero : ∀ k, loaded p { s' with
          position := Function.update s.position .prepareStaging position } k = 0 := by
        intro k
        refine loaded_eq_zero ?_ ?_ <;>
        · intro hstatus
          rw [hschedule] at hstatus
          have hsuccess := prepare_success hs (k := k) (by rw [hstatus]; rfl)
          rw [hrunning] at hsuccess
          cases hsuccess
      generalize s.position .prepareStaging = old at hdid
      cases hdid with
      | prepare => exact ⟨rfl, hzero⟩
    · refine .inl ⟨fun heq => hprepare (DagLabel.act.inj heq), fun k heq => (by cases heq), ?_⟩
      exact hdid.appends hrunning hprepare
  | @start τ schedule hst hadmitted =>
    refine .inl ⟨fun heq => (by cases heq), fun k heq => (by cases heq),
      appends_of_same rfl fun k => ?_⟩
    by_cases hk : τ = .generateAndLoad k
    · subst hk
      obtain ⟨hwaiting, hrunning⟩ := step_start hst
      have hzero : s.loaded p k = 0 := by
        refine loaded_eq_zero ?_ ?_ <;> rcases hwaiting with heq | heq <;> simp [heq]
      rw [hzero]
      cases hchunk : p.chunks[k]? with
      | none => simp [loaded, hchunk]
      | some chunk =>
        rw [loaded_of_running hchunk hrunning]
        simp [committedRows]
    · have hother : Task.generateAndLoad k ∉ (Event.start τ).tasks :=
        fun hmem => hk (List.mem_singleton.mp hmem).symm
      exact loaded_of_same (step_other hst hother) (Function.update_of_ne (Ne.symm hk) _ _)
  | @scheduled l e schedule hevent hst hnot hdone _ =>
    by_cases hfail : ∃ k, l = .fail (.generateAndLoad k)
    · obtain ⟨k, rfl⟩ := hfail
      cases hevent
      refine .inr (.inl ⟨k, rfl, rfl, ?_, fun j hj => loaded_of_same (step_other hst ?_) rfl⟩)
      · obtain ⟨_, hstatus⟩ := step_fail hst
        refine loaded_eq_zero ?_ ?_ <;>
        · simp only [hstatus]
          split <;> simp
      · simpa [Event.tasks] using hj
    · refine .inl ⟨?_, fun k heq => hfail ⟨k, heq⟩, appends_of_same rfl fun k => ?_⟩
      · rintro rfl
        cases hevent
      have hmoved := step_moved hst (.generateAndLoad k)
      generalize hnew : schedule.status (.generateAndLoad k) = x at hmoved
      cases hmoved with
      | stay _ => exact loaded_of_same hnew rfl
      | start => exact absurd (event_start hevent) (hnot _)
      | retry | fail => exact absurd ⟨k, event_fail hevent⟩ hfail
      | succeed hrunning =>
        have hposition := hdone _ (event_succeed hevent)
        cases hchunk : p.chunks[k]? with
        | none => simp [loaded, hchunk]
        | some chunk =>
          rw [loaded_of_running hchunk hrunning, hposition]
          simp [loaded, hchunk, hnew, committedRows]
      | giveUp hwaiting _ _ =>
        rw [loaded_eq_zero (by simp [hnew]) (by simp [hnew]),
          loaded_eq_zero (by simp [hwaiting]) (by simp [hwaiting])]

/-! ## Runs -/

theorem prepared_back (h : step p s l = some t) (ht : t.Prepared) :
    s.Prepared ∨ l = .act .prepareStaging := by
  cases step_stepped h with
  | @act τ s' position hrunning hdid =>
    by_cases hτ : τ = .prepareStaging
    · exact .inr (hτ ▸ rfl)
    · obtain ⟨hschedule, _⟩ := hdid.frame
      unfold Prepared at ht ⊢
      simp only [Function.update_of_ne (Ne.symm hτ), hschedule] at ht
      exact .inl ht
  | @start τ schedule hst _ =>
    left
    by_cases hτ : τ = .prepareStaging
    · subst hτ
      obtain ⟨_, hrunning⟩ := step_start hst
      unfold Prepared at ht
      simp [hrunning] at ht
    · have hother : Task.prepareStaging ∉ (Event.start τ).tasks :=
        fun hmem => hτ (List.mem_singleton.mp hmem).symm
      unfold Prepared at ht ⊢
      simp only [Function.update_of_ne (Ne.symm hτ), step_other hst hother] at ht
      exact ht
  | @scheduled l e schedule hevent hst hnot hdone _ =>
    left
    unfold Prepared at ht ⊢
    have hmoved := step_moved hst .prepareStaging
    generalize schedule.status .prepareStaging = x at hmoved ht
    cases hmoved with
    | stay _ => exact ht
    | succeed hrunning => exact .inr ⟨hrunning, hdone _ (event_succeed hevent)⟩
    | start => exact absurd (event_start hevent) (hnot _)
    | retry | fail | giveUp => simp at ht

theorem started_step (h : step p s l = some t) {τ : Task}
    (hτ : (s.schedule.status τ).started = true) : (t.schedule.status τ).started = true := by
  rcases step_schedule h with heq | ⟨e, _, hst⟩
  · rw [heq]
    exact hτ
  · have hmoved := step_moved hst τ
    generalize t.schedule.status τ = x at hmoved
    cases hmoved with
    | stay _ => exact hτ
    | start | succeed | retry | fail => rfl
    | giveUp hwaiting _ _ => simp [hwaiting, Status.started] at hτ

/-- Whatever has failed, the rows that a load has committed are there. -/
structure AtLeast (p : LoadParams) (s : DagRun) : Prop where
  consistent : Workflow.Consistent p.dag s.schedule
  rows : s.Prepared → ∀ r : StagedRow, among (s.loaded p r.chunkIndex) r ≤ s.staging.count r

theorem AtLeast.initial (files : List Nat) (staging fact : List StagedRow) :
    AtLeast p (initial files staging fact) where
  consistent := Workflow.Consistent.initial
  rows := by
    rintro (h | ⟨h, _⟩) <;> cases h

theorem among_zero (r : StagedRow) : among 0 r = 0 := rfl

theorem AtLeast.step (hs : AtLeast p s) (h : step p s l = some t) : AtLeast p t := by
  refine ⟨consistent_step hs.consistent h, fun ht r => ?_⟩
  rcases step_staging hs.consistent h with ⟨hact, _, happends⟩ | ⟨k, rfl, hstaging, hzero, hsame⟩ |
    ⟨_, _, hzero⟩
  · have hprepared := (prepared_back h ht).resolve_right hact
    have hle := hs.rows hprepared r
    have hstep := happends r
    omega
  · have hprepared := (prepared_back h ht).resolve_right fun heq => by cases heq
    have hle := hs.rows hprepared r
    by_cases hk : r.chunkIndex = k
    · rw [hk, hzero]
      exact Nat.zero_le _
    · rw [hsame _ hk, hstaging]
      exact hle
  · rw [hzero]
    exact Nat.zero_le _

/-- When no load has failed with a batch committed, there is nothing else. -/
structure AtMost (p : LoadParams) (s : DagRun) : Prop where
  consistent : Workflow.Consistent p.dag s.schedule
  rows : s.Prepared → ∀ r : StagedRow, s.staging.count r ≤ among (s.loaded p r.chunkIndex) r

theorem AtMost.initial (files : List Nat) (staging fact : List StagedRow) :
    AtMost p (initial files staging fact) where
  consistent := Workflow.Consistent.initial
  rows := by
    rintro (h | ⟨h, _⟩) <;> cases h

theorem AtMost.step (hs : AtMost p s) (hl : CleanFailure p s l) (h : step p s l = some t) :
    AtMost p t := by
  refine ⟨consistent_step hs.consistent h, fun ht r => ?_⟩
  rcases step_staging hs.consistent h with ⟨hact, _, happends⟩ | ⟨k, rfl, hstaging, hzero, hsame⟩ |
    ⟨_, hstaging, _⟩
  · have hprepared := (prepared_back h ht).resolve_right hact
    have hle := hs.rows hprepared r
    have hstep := happends r
    omega
  · have hprepared := (prepared_back h ht).resolve_right fun heq => by cases heq
    have hle := hs.rows hprepared r
    by_cases hk : r.chunkIndex = k
    · have hclean : s.loaded p k = 0 := hl
      rw [hk, hclean] at hle
      rw [hk, hzero, hstaging]
      exact hle
    · rw [hsame _ hk, hstaging]
      exact hle
  · rw [hstaging]
    exact Nat.zero_le _

/-- A failed try of the chunk has left its first row, and no later step takes it away. -/
structure Repeated (p : LoadParams) (k : Nat) (s : DagRun) : Prop where
  consistent : Workflow.Consistent p.dag s.schedule
  started : (s.schedule.status (.generateAndLoad k)).started = true
  rows : 1 + among (s.loaded p k) ⟨k, 0⟩ ≤ s.staging.count ⟨k, 0⟩

theorem Repeated.step {k : Nat} (hs : Repeated p k s) (h : step p s l = some t) :
    Repeated p k t := by
  refine ⟨consistent_step hs.consistent h, started_step h hs.started, ?_⟩
  have hle := hs.rows
  rcases step_staging hs.consistent h with ⟨_, _, happends⟩ | ⟨j, rfl, hstaging, hzero, hsame⟩ |
    ⟨rfl, _, _⟩
  · have hstep := happends ⟨k, 0⟩
    dsimp only at hstep
    omega
  · by_cases hk : k = j
    · rw [hk, hzero, hstaging, among_zero, ← hk]
      omega
    · rw [hsame _ hk, hstaging]
      exact hle
  · have hsuccess := prepare_success hs.consistent hs.started
    cases step_stepped h with
    | act hrunning =>
      rw [hsuccess] at hrunning
      cases hrunning
    | scheduled hevent => cases hevent

theorem repeated_of_failure (hs : AtLeast p s) {k : Nat}
    (hdirty : ¬ CleanFailure p s (.fail (.generateAndLoad k)))
    (h : step p s (.fail (.generateAndLoad k)) = some t) : Repeated p k t := by
  rcases step_staging hs.consistent h with ⟨_, hnot, _⟩ | ⟨j, heq, hstaging, hzero, _⟩ | ⟨heq, _, _⟩
  · exact absurd rfl (hnot k)
  · cases heq
    have hrunning : s.schedule.status (.generateAndLoad k) = .running := by
      cases step_stepped h with
      | scheduled hevent hst =>
        cases hevent
        exact (step_fail hst).1
    have hstarted : (s.schedule.status (.generateAndLoad k)).started = true := by
      rw [hrunning]
      rfl
    refine ⟨consistent_step hs.consistent h, started_step h hstarted, ?_⟩
    have hle := hs.rows (.inl (prepare_success hs.consistent hstarted)) ⟨k, 0⟩
    have hpos : 0 < s.loaded p k := Nat.pos_of_ne_zero hdirty
    rw [hzero, hstaging, among_zero]
    simpa [among, hpos] using hle
  · cases heq

theorem loaded_of_success {k : Nat} {chunk : Chunk} (hchunk : p.chunks[k]? = some chunk)
    (hsuccess : s.schedule.status (.generateAndLoad k) = .success) :
    s.loaded p k = chunk.rowCount := by
  unfold loaded
  rw [hchunk, hsuccess]

/-- When all loads have succeeded, each planned row is in the staging table once exactly
if no try had committed a batch when it failed. -/
theorem loadedOnce_iff {files : List Nat} {staging fact : List StagedRow} {ls : List DagLabel}
    (hrun : run p (initial files staging fact) ls = some s) (hall : AllLoaded p s) :
    LoadedOnce p s ↔
      Transition.Along (step p) (CleanFailure p) (initial files staging fact) ls := by
  have hloaded : ∀ {k chunk}, p.chunks[k]? = some chunk →
      s.schedule.status (.generateAndLoad k) = .success ∧ s.loaded p k = chunk.rowCount := by
    intro k chunk hchunk
    obtain ⟨hlt, _⟩ := List.getElem?_eq_some_iff.mp hchunk
    exact ⟨hall k hlt, loaded_of_success hchunk (hall k hlt)⟩
  constructor
  · intro honce
    rw [Transition.along_iff]
    rintro ks l ms u rfl hbefore
    by_contra hdirty
    obtain ⟨k, rfl⟩ : ∃ k, l = .fail (.generateAndLoad k) := by
      unfold CleanFailure at hdirty
      split at hdirty
      · exact ⟨_, rfl⟩
      · exact absurd trivial hdirty
    obtain ⟨u', hu', hrest⟩ := Transition.run_append_eq_some.mp hrun
    obtain rfl := Option.some.inj (hbefore.symm.trans hu')
    obtain ⟨v, hst, hafter⟩ := Transition.run_cons_eq_some.mp hrest
    have hu : AtLeast p u := Transition.run_invariant (fun _ _ _ hs hst => hs.step hst)
      (AtLeast.initial files staging fact) hbefore
    have hs : Repeated p k s := Transition.run_invariant (fun _ _ _ hs hst => hs.step hst)
      (repeated_of_failure hu hdirty hst) hafter
    have hpos : 0 < u.loaded p k := Nat.pos_of_ne_zero hdirty
    obtain ⟨chunk, hchunk⟩ : ∃ chunk, p.chunks[k]? = some chunk := by
      cases hchunk : p.chunks[k]? with
      | none => simp [loaded, hchunk] at hpos
      | some chunk => exact ⟨chunk, rfl⟩
    obtain ⟨_, hrows⟩ := LoadParams.chunk_at hchunk
    have hone := honce ⟨k, 0⟩ (LoadParams.mem_plannedRows.mpr ⟨chunk, hchunk, hrows⟩)
    have htwo := hs.rows
    rw [(hloaded hchunk).2, among, if_pos hrows] at htwo
    omega
  · intro hclean r hr
    obtain ⟨chunk, hchunk, hlt⟩ := LoadParams.mem_plannedRows.mp hr
    obtain ⟨hsuccess, hrows⟩ := hloaded hchunk
    have hleast : AtLeast p s := Transition.run_invariant (fun _ _ _ hs hst => hs.step hst)
      (AtLeast.initial files staging fact) hrun
    have hmost : AtMost p s := Transition.run_invariant_along
      (fun _ _ _ hs hl hst => hs.step hl hst) (AtMost.initial files staging fact) hclean hrun
    have hprepared : s.Prepared :=
      .inl (prepare_success hleast.consistent (k := r.chunkIndex) (by rw [hsuccess]; rfl))
    have hge := hleast.rows hprepared r
    have hle := hmost.rows hprepared r
    rw [hrows, among, if_pos hlt] at hge hle
    omega

end DagRun

/-! ## Two chunks -/

namespace Sample

def params : LoadParams where
  rowCount := 2000
  chunkSize := 1000
  strategy := .bulkInsert
  chunks := [⟨0, 1000⟩, ⟨1, 1000⟩]
  rowCount_ge := by decide
  chunkSize_ge := by decide
  planned := (planChunks_eq (by decide) (by decide)).trans rfl

/-- A try of the task with `k` steps. -/
def acts (t : Task) (k : Nat) : List DagLabel := .start t :: List.replicate k (.act t)

def whole (t : Task) (k : Nat) : List DagLabel := acts t k ++ [.succeed t]

def prepared : List DagLabel := whole .prepareStaging 1 ++ whole .plan 1

/-- The first try of the first chunk fails with its file written. -/
def retriedEarly : List DagLabel :=
  prepared ++ acts (.generateAndLoad 0) 2 ++ [.fail (.generateAndLoad 0)] ++
    whole (.generateAndLoad 1) 4 ++ whole (.generateAndLoad 0) 4

/-- It fails after the load, before the file is removed. -/
def retriedLate : List DagLabel :=
  prepared ++ acts (.generateAndLoad 0) 3 ++ [.fail (.generateAndLoad 0)] ++
    whole (.generateAndLoad 1) 4 ++ whole (.generateAndLoad 0) 4

def retriedEarlyEnd : DagRun :=
  (DagRun.run params (DagRun.initial [] [] []) retriedEarly).get (by decide +kernel)

def retriedLateEnd : DagRun :=
  (DagRun.run params (DagRun.initial [] [] []) retriedLate).get (by decide +kernel)

end Sample

namespace DagRun

theorem loadedOnce_iff_retriedEarly : LoadedOnce Sample.params Sample.retriedEarlyEnd ↔
    Transition.Along (step Sample.params) (CleanFailure Sample.params) (initial [] [] [])
      Sample.retriedEarly :=
  loadedOnce_iff (Option.some_get _).symm (by unfold AllLoaded; decide +kernel)

/-- The retry loads the chunk for a second time. -/
theorem retry_duplicates :
    ¬ ∀ (p : LoadParams) (files : List Nat) (staging fact : List StagedRow) (ls : List DagLabel)
      (s : DagRun), run p (initial files staging fact) ls = some s → AllLoaded p s →
      LoadedOnce p s := by
  intro hall
  have honce := hall Sample.params [] [] [] Sample.retriedLate Sample.retriedLateEnd
    (Option.some_get _).symm (by unfold AllLoaded; decide +kernel) ⟨0, 0⟩
    (LoadParams.mem_plannedRows.mpr ⟨_, rfl, by decide⟩)
  have htwo : Sample.retriedLateEnd.staging.count ⟨0, 0⟩ = 2 := by decide +kernel
  rw [htwo] at honce
  cases honce

end DagRun

end EcommerceIntegration.BulkLoad
