import EcommerceIntegration.BulkLoad.Plan
import EcommerceIntegration.BulkLoad.Staging

/-!
# What the validation proves

The validation compares two numbers. A load that has succeeded leaves all its rows in the
staging table, so too few rows are impossible and the right number of them means that
each planned row is there once: the duplicates of a retry always show.
-/

namespace EcommerceIntegration.BulkLoad

set_option autoImplicit false

open Workflow

namespace LoadParams
variable {p : LoadParams}

theorem plannedRows_nodup : p.plannedRows.Nodup := by
  refine List.nodup_flatMap.mpr ⟨fun chunk _ => ?_, ?_⟩
  · refine List.Nodup.map (fun a b h => ?_) List.nodup_range
    exact congrArg StagedRow.offset h
  · rw [List.pairwise_iff_getElem]
    intro i j hi hj hij r hr hr'
    obtain ⟨_, _, rfl⟩ := List.mem_map.mp hr
    obtain ⟨_, _, heq⟩ := List.mem_map.mp hr'
    have hindex := congrArg StagedRow.chunkIndex heq
    obtain ⟨hleft, _⟩ := chunk_at (List.getElem?_eq_getElem hi)
    obtain ⟨hright, _⟩ := chunk_at (List.getElem?_eq_getElem hj)
    dsimp only at hindex
    omega

theorem length_plannedRows : p.plannedRows.length = p.rowCount := by
  have hr : 0 < p.rowCount := by have := p.rowCount_ge; omega
  have hc : 0 < p.chunkSize := by have := p.chunkSize_ge; omega
  have hplanned := p.planned
  rw [planChunks_eq hr hc] at hplanned
  have hvolume := (planned_partitions hr hc).volume
  rw [Except.ok.inj hplanned] at hvolume
  have hlength : p.plannedRows.length = (p.chunks.map Chunk.rowCount).sum := by
    simp [plannedRows, List.length_flatMap]
  rw [hlength]
  exact_mod_cast hvolume

end LoadParams

namespace DagRun
variable {p : LoadParams} {s t : DagRun} {l : DagLabel}

/-- The task has succeeded, or its try is at one of the positions. -/
def At (s : DagRun) (τ : Task) (positions : Position → Prop) : Prop :=
  s.schedule.status τ = .success ∨
    (s.schedule.status τ = .running ∧ positions (s.position τ))

/-- The fact table has been filled by the last try of `load_fact`. -/
def Filled (s : DagRun) : Prop := s.At .loadFact fun x => x = .copied ∨ x = .done

/-- The rows of the fact table have been counted. -/
def Counted (s : DagRun) : Prop := s.At .loadFact fun x => x = .done

/-- The check of the validation has been passed. -/
def Checked (s : DagRun) : Prop := s.At .validateLoad fun x => x = .done

theorem At.started {τ : Task} {positions : Position → Prop} (h : s.At τ positions) :
    (s.schedule.status τ).started = true := by
  rcases h with h | ⟨h, _⟩ <;> rw [h] <;> rfl

/-- A try gets on by its own steps. -/
theorem running_back {τ : Task} (h : step p s l = some t)
    (hrunning : t.schedule.status τ = .running) (hposition : t.position τ ≠ .begun) :
    (s.schedule.status τ = .running ∧ s.position τ = t.position τ) ∨ l = .act τ := by
  cases step_stepped h with
  | @act υ s' position _ hdid =>
    by_cases hυ : υ = τ
    · exact .inr (hυ ▸ rfl)
    · left
      dsimp only at hrunning ⊢
      rw [hdid.frame.1] at hrunning
      rw [Function.update_of_ne (Ne.symm hυ)]
      exact ⟨hrunning, rfl⟩
  | @start υ schedule hst _ =>
    left
    dsimp only at hrunning hposition ⊢
    by_cases hυ : υ = τ
    · subst hυ
      simp at hposition
    · have hother : τ ∉ (Event.start υ).tasks :=
        fun hmem => hυ (List.mem_singleton.mp hmem).symm
      rw [step_other hst hother] at hrunning
      rw [Function.update_of_ne (Ne.symm hυ)]
      exact ⟨hrunning, rfl⟩
  | @scheduled l e schedule hevent hst hnot _ _ =>
    left
    dsimp only at hrunning ⊢
    have hmoved := step_moved hst τ
    generalize schedule.status τ = x at hmoved hrunning
    cases hmoved with
    | stay _ => exact ⟨hrunning, rfl⟩
    | start => exact absurd (event_start hevent) (hnot _)
    | succeed | retry | fail | giveUp => cases hrunning

/-- A task succeeds with its try done. -/
theorem success_back {τ : Task} (h : step p s l = some t)
    (hsuccess : t.schedule.status τ = .success) :
    s.schedule.status τ = .success ∨
      (s.schedule.status τ = .running ∧ s.position τ = .done ∧ l ≠ .act τ) := by
  rcases step_schedule h with heq | ⟨e, hevent, hst⟩
  · exact .inl (heq ▸ hsuccess)
  · have hmoved := step_moved hst τ
    generalize t.schedule.status τ = x at hmoved hsuccess
    cases hmoved with
    | stay _ => exact .inl hsuccess
    | succeed hrunning =>
      obtain rfl := event_succeed hevent
      cases step_stepped h with
      | scheduled _ _ _ hdone => exact .inr ⟨hrunning, hdone _ rfl, fun heq => by cases heq⟩
    | start | retry | fail | giveUp => cases hsuccess

/-- A task gets to a position by its own steps. -/
theorem at_back {τ : Task} (positions : Position → Prop) (hdone : positions .done)
    (hbegun : ¬ positions .begun) (h : step p s l = some t) (ht : t.At τ positions) :
    s.At τ positions ∨ l = .act τ := by
  rcases ht with hsuccess | ⟨hrunning, hposition⟩
  · rcases success_back h hsuccess with hold | ⟨hrunning, hold, _⟩
    · exact .inl (.inl hold)
    · exact .inl (.inr ⟨hrunning, hold ▸ hdone⟩)
  · have hne : t.position τ ≠ .begun := fun heq => hbegun (heq ▸ hposition)
    rcases running_back h hrunning hne with ⟨hold, heq⟩ | hact
    · exact .inl (.inr ⟨hold, heq ▸ hposition⟩)
    · exact .inr hact

/-! ## The fact table -/

/-- Nothing is loaded any more when the fact table is filled. -/
theorem staging_kept (hs : Workflow.Consistent p.dag s.schedule)
    (hfact : (s.schedule.status .loadFact).started = true) (h : step p s l = some t) :
    t.staging = s.staging := by
  have hloads : AllLoaded p s := fun k hk =>
    hs.upstream_success hfact rfl (List.mem_map.mpr ⟨k, List.mem_range.mpr hk, rfl⟩)
  cases step_stepped h with
  | start | scheduled => rfl
  | @act τ s' position hrunning hdid =>
    generalize s.position τ = old at hdid
    cases hdid with
    | prepare =>
      -- the first chunk was loaded after the table was prepared
      have hk : 0 < p.chunks.length := by
        have hr := p.rowCount_ge
        have hlength := LoadParams.length_plannedRows (p := p)
        refine List.length_pos_of_ne_nil fun hnil => ?_
        simp only [LoadParams.plannedRows, hnil, List.flatMap_nil, List.length_nil] at hlength
        omega
      have hsuccess := prepare_success hs (k := 0) (by rw [hloads 0 hk]; rfl)
      rw [hrunning] at hsuccess
      cases hsuccess
    | batch hchunk =>
      rw [hloads _ (List.getElem?_eq_some_iff.mp hchunk).1] at hrunning
      cases hrunning
    | plan | create | written | remove | truncate | copy | count | validate | list | delete
    | cleaned => rfl

/-- Only `load_fact` writes the fact table and its count. -/
theorem fact_kept (hl : l ≠ .act .loadFact) (h : step p s l = some t) :
    t.fact = s.fact ∧ t.factRows = s.factRows := by
  cases step_stepped h with
  | start | scheduled => exact ⟨rfl, rfl⟩
  | @act τ s' position hrunning hdid =>
    generalize s.position τ = old at hdid
    cases hdid with
    | truncate | copy | count => exact absurd rfl hl
    | prepare | plan | create | written | batch | remove | validate | list | delete | cleaned =>
      exact ⟨rfl, rfl⟩

/-- The steps of `load_fact`. -/
inductive FactStep (s t : DagRun) : Prop
  | truncated (position : t.position .loadFact = .truncated) (fact : t.fact = [])
  | copied (old : s.position .loadFact = .truncated) (position : t.position .loadFact = .copied)
      (fact : t.fact = s.fact ++ s.staging)
  | counted (old : s.position .loadFact = .copied) (position : t.position .loadFact = .done)
      (fact : t.fact = s.fact) (rows : t.factRows = s.fact.length)

theorem factStep_of_act (h : step p s (.act .loadFact) = some t) :
    s.schedule.status .loadFact = .running ∧ t.schedule.status .loadFact = .running ∧
      FactStep s t := by
  cases step_stepped h with
  | @act _ s' position hrunning hdid =>
    refine ⟨hrunning, by rw [hdid.frame.1]; exact hrunning, ?_⟩
    generalize hold : s.position .loadFact = old at hdid
    cases hdid with
    | truncate => exact .truncated (by simp) rfl
    | copy => exact .copied hold (by simp) rfl
    | count => exact .counted hold (by simp) rfl rfl
  | scheduled hevent => cases hevent

structure Accounted (p : LoadParams) (s : DagRun) : Prop where
  consistent : Workflow.Consistent p.dag s.schedule
  emptied : s.schedule.status .loadFact = .running → s.position .loadFact = .truncated → s.fact = []
  filled : s.Filled → s.fact = s.staging
  counted : s.Counted → s.factRows = s.fact.length
  checked : s.Checked → s.factRows = p.rowCount

theorem Accounted.initial (files : List Nat) (staging fact : List StagedRow) :
    Accounted p (initial files staging fact) where
  consistent := Workflow.Consistent.initial
  emptied := by
    intro h
    cases h
  filled := by
    rintro (h | ⟨h, _⟩) <;> cases h
  counted := by
    rintro (h | ⟨h, _⟩) <;> cases h
  checked := by
    rintro (h | ⟨h, _⟩) <;> cases h

/-- A step that is not one of `load_fact`. -/
theorem Accounted.other (hs : Accounted p s) (hl : l ≠ .act .loadFact)
    (h : step p s l = some t) :
    (t.schedule.status .loadFact = .running → t.position .loadFact = .truncated → t.fact = []) ∧
      (t.Filled → t.fact = t.staging) ∧ (t.Counted → t.factRows = t.fact.length) := by
  obtain ⟨hfact, hrows⟩ := fact_kept hl h
  refine ⟨fun hrunning hposition => ?_, fun hfilled => ?_, fun hcounted => ?_⟩
  · rcases running_back h hrunning (by simp [hposition]) with ⟨hold, heq⟩ | hact
    · rw [hfact]
      exact hs.emptied hold (heq.trans hposition)
    · exact absurd hact hl
  · rcases at_back (fun x => x = .copied ∨ x = .done) (.inr rfl) (by simp) h hfilled with hold | hact
    · rw [hfact, staging_kept hs.consistent hold.started h]
      exact hs.filled hold
    · exact absurd hact hl
  · rcases at_back (fun x => x = .done) rfl (by simp) h hcounted with hold | hact
    · rw [hfact, hrows]
      exact hs.counted hold
    · exact absurd hact hl

theorem Accounted.fact (hs : Accounted p s) (h : step p s (.act .loadFact) = some t) :
    (t.schedule.status .loadFact = .running → t.position .loadFact = .truncated → t.fact = []) ∧
      (t.Filled → t.fact = t.staging) ∧ (t.Counted → t.factRows = t.fact.length) := by
  obtain ⟨hrunning, hstatus, hstep⟩ := factStep_of_act h
  have hstaging := staging_kept hs.consistent (by rw [hrunning]; rfl) h
  cases hstep with
  | truncated hposition hfact =>
    simp [hfact, Filled, Counted, At, hstatus, hposition]
  | copied hold hposition hfact =>
    simp [hfact, hs.emptied hrunning hold, hstaging, Counted, At, hstatus, hposition]
  | counted hold hposition hfact hrows =>
    have hfilled : s.fact = s.staging := hs.filled (.inr ⟨hrunning, .inl hold⟩)
    simp [hfact, hrows, hstaging, hfilled, hposition]

theorem Accounted.step (hs : Accounted p s) (h : step p s l = some t) : Accounted p t := by
  have hrows : (t.schedule.status .loadFact = .running → t.position .loadFact = .truncated →
      t.fact = []) ∧ (t.Filled → t.fact = t.staging) ∧ (t.Counted → t.factRows = t.fact.length) := by
    by_cases hl : l = .act .loadFact
    · subst hl
      exact hs.fact h
    · exact hs.other hl h
  refine ⟨consistent_step hs.consistent h, hrows.1, hrows.2.1, hrows.2.2, fun hchecked => ?_⟩
  rcases at_back (fun x => x = .done) rfl (by simp) h hchecked with hold | rfl
  · -- the validation starts when the fact table is there
    have hsuccess : s.schedule.status .loadFact = .success :=
      hs.consistent.upstream_success hold.started rfl (List.mem_singleton.mpr rfl)
    have hl : l ≠ .act .loadFact := by
      rintro rfl
      have hrunning := (factStep_of_act h).1
      rw [hsuccess] at hrunning
      cases hrunning
    rw [(fact_kept hl h).2]
    exact hs.checked hold
  · cases step_stepped h with
    | @act _ s' position hrunning hdid =>
      generalize s.position .validateLoad = old at hdid
      cases hdid with
      | validate hexpected => exact hexpected
    | scheduled hevent => cases hevent

/-! ## Runs -/

/-- Too few rows are impossible, so the right number of them is the right rows. -/
theorem staging_perm (hs : AtLeast p s) (hall : AllLoaded p s)
    (hlength : s.staging.length = p.rowCount) : s.staging.Perm p.plannedRows := by
  have hsubset : p.plannedRows ⊆ s.staging := by
    intro r hr
    obtain ⟨chunk, hchunk, hlt⟩ := LoadParams.mem_plannedRows.mp hr
    have hsuccess := hall r.chunkIndex (List.getElem?_eq_some_iff.mp hchunk).1
    have hprepared : s.Prepared :=
      .inl (prepare_success hs.consistent (k := r.chunkIndex) (by rw [hsuccess]; rfl))
    have hle := hs.rows hprepared r
    rw [loaded_of_success hchunk hsuccess, among, if_pos hlt] at hle
    exact List.count_pos_iff.mp hle
  have hsubperm : p.plannedRows.Subperm s.staging :=
    List.subperm_of_subset LoadParams.plannedRows_nodup hsubset
  refine (hsubperm.perm_of_length_le ?_).symm
  rw [hlength, LoadParams.length_plannedRows]

/-- Once the fact table is filled, the validation accepts it exactly when it has each
planned row once and nothing else, whatever failed and was tried again before. -/
theorem validation_iff {files : List Nat} {staging fact : List StagedRow} {ls : List DagLabel}
    (hrun : run p (initial files staging fact) ls = some s)
    (hfact : s.schedule.status .loadFact = .success) :
    (s.factRows = p.rowCount ↔ s.fact.Perm p.plannedRows) ∧
      (s.schedule.status .validateLoad = .success → s.fact.Perm p.plannedRows) := by
  have hs : Accounted p s := Transition.run_invariant (fun _ _ _ hs hst => hs.step hst)
    (Accounted.initial files staging fact) hrun
  have hleast : AtLeast p s := Transition.run_invariant (fun _ _ _ hs hst => hs.step hst)
    (AtLeast.initial files staging fact) hrun
  have hall : AllLoaded p s := fun k hk =>
    hs.consistent.upstream_success (by rw [hfact]; rfl) rfl
      (List.mem_map.mpr ⟨k, List.mem_range.mpr hk, rfl⟩)
  have hrows := hs.counted (.inl hfact)
  have hstaging := hs.filled (.inl hfact)
  have haccepts : s.factRows = p.rowCount → s.fact.Perm p.plannedRows := by
    intro hcount
    rw [hstaging]
    exact staging_perm hleast hall (by rw [← hstaging, ← hrows, hcount])
  refine ⟨⟨haccepts, fun hperm => ?_⟩, fun hsuccess => haccepts (hs.checked (.inl hsuccess))⟩
  rw [hrows, hperm.length_eq, LoadParams.length_plannedRows]

end DagRun

namespace Sample

/-- The load that was tried again is validated. -/
def validated : List DagLabel := retriedEarly ++ whole .loadFact 3 ++ whole .validateLoad 1

def validatedEnd : DagRun :=
  (DagRun.run params (DagRun.initial [] [] []) validated).get (by decide +kernel)

end Sample

namespace DagRun

theorem validation_iff_validated :
    Sample.validatedEnd.schedule.status .validateLoad = .success ∧
    (Sample.validatedEnd.factRows = Sample.params.rowCount ↔
      Sample.validatedEnd.fact.Perm Sample.params.plannedRows) ∧
    (Sample.validatedEnd.schedule.status .validateLoad = .success →
      Sample.validatedEnd.fact.Perm Sample.params.plannedRows) :=
  ⟨by decide +kernel, validation_iff (Option.some_get _).symm (by decide +kernel)⟩

end DagRun

end EcommerceIntegration.BulkLoad
