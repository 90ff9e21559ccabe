import EcommerceIntegration.Ingest.System

/-!
# Executions of the repositories, read backwards

What an execution that begins with a call of a repository says about the states it
saw and about the writes it made.
-/

namespace EcommerceIntegration

set_option autoImplicit false

open Transaction

section Queries
variable {R : Rely store EventEnvelope} {h h' : History} {ws ws' : List Change} {α β : Type}
  {e : Ending store β}

theorem runs_select {query : Database → α} {f : α → Session β}
    (hr : Runs keyLaws R ((select query).andThen f) h ws h' ws' e) :
    ∃ h₁, R.allows h h₁ ∧ Known keyLaws h₁ ws ∧
      Runs keyLaws R (f (query (engine.view h₁ ws))) h₁ ws h' ws' e := by
  rcases hr with ⟨h₁, ws₁, d, ha, hr⟩ | ⟨c, k, _, ha⟩
  · cases ha with
    | select later known => exact ⟨h₁, later, known, hr⟩
  · cases ha

theorem runs_clock {f : Time → Session β}
    (hr : Runs keyLaws R (utcnow.andThen f) h ws h' ws' e) :
    ∃ h₁ t, R.allows h h₁ ∧ Later h₁ t ∧ Runs keyLaws R (f t) h₁ ws h' ws' e := by
  rcases hr with ⟨h₁, ws₁, t, ha, hr⟩ | ⟨c, k, _, ha⟩
  · cases ha with
    | now later clock => exact ⟨h₁, t, later, clock, hr⟩
  · cases ha

theorem runs_utcnow {f : Time → Session β}
    (hr : Runs keyLaws R (utcnow.andThen f) h ws h' ws' e) :
    ∃ t, Runs keyLaws R (f t) h ws h' ws' e := by
  obtain ⟨h₁, t, later, _, hr⟩ := runs_clock hr
  exact ⟨t, hr.earlier later⟩

theorem runs_insert {row : NewRow} {f : Nat → Session β}
    (hr : Runs keyLaws R ((insert row).andThen f) h ws h' ws' e) :
    ∃ h₁ id, R.allows h h₁ ∧ NewId keyLaws h₁ ws row id ∧
      (((engine.view h₁ ws).violated (.inserted row id) = none ∧
          Runs keyLaws R (f id) h₁ (ws ++ [.inserted row id]) h' ws' e) ∨
        ∃ k, (engine.view h₁ ws).violated (.inserted row id) = some k ∧
          e = .refused (.inserted row id) k ∧ h' = h₁ ∧ ws' = ws) := by
  rcases hr with ⟨h₁, ws₁, id, ha, hr⟩ | ⟨c, k, rfl, ha⟩
  · cases ha with
    | inserted later known new allowed => exact ⟨h₁, id, later, new, .inl ⟨allowed, hr⟩⟩
  · cases ha with
    | notInserted later known new violated =>
      exact ⟨h', _, later, new, .inr ⟨k, violated, rfl, rfl, rfl⟩⟩

theorem runs_execute {stmt : Stmt} {f : Unit → Session β}
    (hfree : ∀ d : Database, d.violated (.executed stmt) = none)
    (hr : Runs keyLaws R ((execute stmt).andThen f) h ws h' ws' e) :
    ∃ h₁, R.allows h h₁ ∧ Runs keyLaws R (f ()) h₁ (ws ++ [.executed stmt]) h' ws' e := by
  rcases hr with ⟨h₁, ws₁, a, ha, hr⟩ | ⟨c, k, rfl, ha⟩
  · cases ha with
    | executed later known allowed => exact ⟨h₁, later, hr⟩
  · cases ha with
    | notExecuted later known violated => cases (hfree _).symm.trans violated

theorem runs_flush {dirty : Bool} {stmt : Stmt} {f : Unit → Session β}
    (hfree : ∀ d : Database, d.violated (.executed stmt) = none)
    (hr : Runs keyLaws R ((flush dirty stmt).andThen f) h ws h' ws' e) :
    ∃ h₁, R.allows h h₁ ∧
      Runs keyLaws R (f ()) h₁ (ws ++ if dirty then [.executed stmt] else []) h' ws' e := by
  unfold flush at hr
  split at hr
  · rename_i hdirty
    simpa [hdirty] using runs_execute hfree hr
  · rename_i hclean
    exact ⟨h, R.refl h, by simpa [hclean] using hr⟩

theorem runs_validate {data : Except String α} {f : α → Session β}
    (hr : Runs keyLaws R ((validate data).andThen f) h ws h' ws' e) :
    ∃ a, data = .ok a ∧ Runs keyLaws R (f a) h ws h' ws' e := by
  cases data with
  | ok a => exact ⟨a, rfl, hr⟩
  | error report => exact hr.elim

theorem runs_requireDependency {message : String} {o : Option α} {f : α → Session β}
    (hr : Runs keyLaws R ((requireDependency message o).andThen f) h ws h' ws' e) :
    ∃ a, o = some a ∧ Runs keyLaws R (f a) h ws h' ws' e := by
  cases o with
  | none => exact hr.elim
  | some a => exact ⟨a, rfl, hr⟩

theorem runs_requireFits {fits : Bool} {f : Unit → Session β}
    (hr : Runs keyLaws R ((requireFits fits).andThen f) h ws h' ws' e) :
    fits = true ∧ Runs keyLaws R (f ()) h ws h' ws' e := by
  unfold requireFits at hr
  split at hr
  · rename_i hfits
    exact ⟨hfits, hr⟩
  · exact hr.elim

theorem runs_requireOrder {uid : String} {f : Order → Session β}
    (hr : Runs keyLaws R ((requireOrder uid).andThen f) h ws h' ws' e) :
    ∃ h₁ o, R.allows h h₁ ∧ Known keyLaws h₁ ws ∧
      (engine.view h₁ ws).orders.find? (·.orderUid == uid) = some o ∧
      Runs keyLaws R (f o) h₁ ws h' ws' e := by
  simp only [requireOrder, OrderRepository.getByUid, Program.bind_eq, Program.andThen_assoc] at hr
  obtain ⟨h₁, hle, hknown, hr⟩ := runs_select hr
  obtain ⟨o, ho, hr⟩ := runs_requireDependency hr
  exact ⟨h₁, o, hle, hknown, ho, hr⟩

theorem runs_related {query : Database → Option α} {f : α → Session β}
    (hr : Runs keyLaws R ((PaymentUpdatedHandler.related query).andThen f) h ws h' ws' e) :
    ∃ h₁ a, R.allows h h₁ ∧ query (engine.view h₁ ws) = some a ∧
      Runs keyLaws R (f a) h₁ ws h' ws' e := by
  simp only [PaymentUpdatedHandler.related, Program.bind_eq, Program.andThen_assoc] at hr
  obtain ⟨h₁, hle, _, hr⟩ := runs_select hr
  split at hr
  · rename_i a ha
    exact ⟨h₁, a, hle, ha, hr⟩
  · exact hr.elim

end Queries

/-! ## What stays in view -/

theorem mem_keys_view {h h' : History} {ws ws' : List Change} {k : Lock} (hle : h <+: h')
    (hws : ws <+: ws') (hk : k ∈ (engine.view h ws).keys) : k ∈ (engine.view h' ws').keys := by
  obtain ⟨new, rfl⟩ := hws
  rcases List.mem_append.mp ((keyLaws.keys_replay _ _).mem_iff.mp hk) with hold | hpending
  · exact (keyLaws.keys_replay _ _).mem_iff.mpr
      (List.mem_append_left _ (keyLaws.mem_keys_state hle hold))
  · refine (keyLaws.keys_replay _ _).mem_iff.mpr (List.mem_append_right _ ?_)
    simp only [KeyLaws.pendingKeys, List.flatMap_append, List.mem_append] at hpending ⊢
    exact .inl hpending

theorem mem_ids_view {h h' : History} {ws ws' : List Change} {t : TableName} {id : Nat}
    (hle : h <+: h') (hws : ws <+: ws') (hid : id ∈ (engine.view h ws).ids t) :
    id ∈ (engine.view h' ws').ids t :=
  mem_keys_row.mp (mem_keys_view hle hws (mem_keys_row.mpr hid))

/-- A row never gets the identity value of another. -/
theorem newId_not_mem {h : History} {ws : List Change} {row : NewRow} {id : Nat}
    (hnew : NewId keyLaws h ws row id) : id ∉ (engine.view h ws).ids row.table := by
  intro hmem
  have := hnew id hmem
  omega

end EcommerceIntegration
