import EcommerceIntegration.Ingest.System

/-!
# Exactly one effect per event

The ledger row of an event is in the transaction of its effect, and its primary key
lets one such transaction through. Every other attempt ends with nothing committed.
-/

namespace EcommerceIntegration

set_option autoImplicit false

open Transaction

/-- No handler writes to the ledger. -/
theorem event_not_mem_newKeys {t : EventType} {c : Change} (hc : HandlerWrite t c) (id : String) :
    .event id ∉ newKeys c := by
  cases c with
  | inserted row k => cases row <;> simp [newKeys, NewRow.keys]
  | executed s =>
    cases s with
    | registerEvent r => cases t <;> exact hc.elim
    | updateClient | closeAddress | updateOrder | updatePayment => simp [newKeys]

/-- The ledger row comes first, what follows are writes of the handler. -/
theorem CompleteEffect.writes {R : Rely store EventEnvelope} {i : EventEnvelope} {h : History}
    {ws : List Change} (hc : CompleteEffect R i h ws) :
    ∃ new, ws = ledgerRow i :: new ∧ ∀ c ∈ new, HandlerWrite i.eventType c := by
  obtain ⟨h₀, _, hr⟩ := hc
  exact hr.writes (handler_straight i.eventType i)

theorem CompleteEffect.handlerWrite {R : Rely store EventEnvelope} {i : EventEnvelope}
    {h : History} {ws : List Change} (hc : CompleteEffect R i h ws) {c : Change} (hmem : c ∈ ws)
    (hne : c ≠ ledgerRow i) : HandlerWrite i.eventType c := by
  obtain ⟨new, rfl, hnew⟩ := hc.writes
  rcases List.mem_cons.mp hmem with rfl | hmem
  · exact absurd rfl hne
  · exact hnew c hmem

/-- A write of a handler tells the type of the event. -/
theorem CompleteEffect.type_of_write {R : Rely store EventEnvelope} {i : EventEnvelope}
    {h : History} {ws : List Change} (hc : CompleteEffect R i h ws) {c : Change} (hmem : c ∈ ws)
    {t : EventType} (hwrite : HandlerWrite t c) : i.eventType = t := by
  have hne : c ≠ ledgerRow i := by
    rintro rfl
    cases t <;> exact hwrite.elim
  exact (hc.handlerWrite hmem hne).type_unique hwrite

/-- What neither the ledger row nor a write of the handler touches stays as it is. -/
theorem CompleteEffect.spares {R : Rely store EventEnvelope} {i : EventEnvelope} {h : History}
    {ws : List Change} (hc : CompleteEffect R i h ws) {β : Type} {column : Database → β}
    (hledger : engine.Spares column (ledgerRow i))
    (hwrite : ∀ c, HandlerWrite i.eventType c → engine.Spares column c) :
    ∀ c ∈ ws, engine.Spares column c := by
  obtain ⟨new, rfl, hnew⟩ := hc.writes
  intro c hmem
  rcases List.mem_cons.mp hmem with rfl | hmem
  · exact hledger
  · exact hwrite c (hnew c hmem)

theorem CompleteEffect.count_event {R : Rely store EventEnvelope} {i : EventEnvelope}
    {h : History} {ws : List Change} (hc : CompleteEffect R i h ws) (id : String) :
    (keyLaws.pendingKeys ws).count (.event id) = if i.eventId = id then 1 else 0 := by
  obtain ⟨new, rfl, hnew⟩ := hc.writes
  have hzero : (keyLaws.pendingKeys new).count (.event id) = 0 := by
    rw [List.count_eq_zero]
    intro hmem
    obtain ⟨c, hc, hk⟩ := List.mem_flatMap.mp hmem
    exact event_not_mem_newKeys (hnew c hc) id hk
  simp only [KeyLaws.pendingKeys, List.flatMap_cons, List.count_append] at hzero ⊢
  rw [hzero]
  by_cases hid : i.eventId = id <;> simp [keyLaws, newKeys, ledgerRow, hid]

/-- The ledger counts the commits of each event. -/
theorem count_event_keys {R : Rely store EventEnvelope} {h : History}
    (hk : (effectContract R).Kept h) (id : String) :
    (engine.state h).keys.count (.event id) = h.countP fun c => c.input.eventId == id := by
  induction h using List.reverseRecOn with
  | nil => rfl
  | append_singleton h c ih =>
    have hc : CompleteEffect R c.input h c.writes := hk h c (List.prefix_refl _)
    have hperm := (keyLaws.keys_replay (engine.state h) c.writes).count_eq (.event id)
    rw [Engine.state_concat]
    refine hperm.trans ?_
    rw [List.count_append, hc.count_event id, List.countP_append]
    rw [show (keyLaws.keys (engine.state h)).count (.event id) = _ from
      ih (hk.of_prefix (List.prefix_append _ _))]
    simp

theorem inLedger_iff_commit {R : Rely store EventEnvelope} {h : History}
    (hk : (effectContract R).Kept h) (id : String) :
    InLedger (engine.state h) id ↔ ∃ c ∈ h, c.input.eventId = id := by
  rw [inLedger_iff, ← List.count_pos_iff, count_event_keys hk, List.countP_pos_iff]
  simp

/-- The transaction `c`, committed after the history `h₀`, is the whole effect of the
event. -/
structure EffectAt (s : IngestState) (eventId : String) (h₀ : History) (c : IngestCommit) :
    Prop where
  position : h₀ ++ [c] <+: s.shared.history
  event : c.input.eventId = eventId
  complete : CompleteEffect others c.input h₀ c.writes

theorem EffectAt.mem {s : IngestState} {eventId : String} {h₀ : History} {c : IngestCommit}
    (h : EffectAt s eventId h₀ c) : c ∈ s.shared.history :=
  h.position.subset (by simp)

theorem effectAt_of_mem {s : IngestState} (hs : IngestReachable s) {c : IngestCommit}
    (hc : c ∈ s.shared.history) : ∃ h₀, EffectAt s c.input.eventId h₀ c := by
  obtain ⟨h₀, later, heq⟩ := List.append_of_mem hc
  have hpos : h₀ ++ [c] <+: s.shared.history := ⟨later, by simp [heq]⟩
  exact ⟨h₀, hpos, rfl, hs.sound.kept h₀ c hpos⟩

/-- Two prefixes that end with an element satisfying `P`, of a list with at most one
such element, are the same. -/
theorem prefix_unique {α : Type} {P : α → Bool} {l h₁ h₂ : List α} {a b : α}
    (hcount : l.countP P ≤ 1) (h₁l : h₁ ++ [a] <+: l) (h₂l : h₂ ++ [b] <+: l) (ha : P a = true)
    (hb : P b = true) : h₁ = h₂ ∧ a = b := by
  have key : ∀ {h h' : List α} {a b : α}, h ++ [a] <+: l → h' ++ [b] <+: l → P a = true →
      P b = true → h.length ≤ h'.length → h = h' ∧ a = b := by
    intro h h' a b hl hl' ha hb hlen
    rcases Nat.lt_or_eq_of_le hlen with hlt | heq
    · have hpre : h ++ [a] <+: h' :=
        List.prefix_of_prefix_length_le hl ((List.prefix_append h' [b]).trans hl') (by simp; omega)
      have h2 : 2 ≤ l.countP P := by
        calc 2 ≤ (h ++ [a]).countP P + [b].countP P := by
              simp only [List.countP_append, List.countP_cons, List.countP_nil, ha, hb, if_true]
              omega
          _ ≤ h'.countP P + [b].countP P :=
              Nat.add_le_add_right (hpre.sublist.countP_le) _
          _ = (h' ++ [b]).countP P := (List.countP_append).symm
          _ ≤ l.countP P := hl'.sublist.countP_le
      omega
    · have hboth : h ++ [a] = h' ++ [b] :=
        (List.prefix_of_prefix_length_le hl hl' (by simp [heq])).eq_of_length (by simp [heq])
      obtain ⟨rfl, hab⟩ := List.append_inj hboth heq
      exact ⟨rfl, List.singleton_inj.mp hab⟩
  rcases Nat.le_total h₁.length h₂.length with hle | hle
  · exact key h₁l h₂l ha hb hle
  · obtain ⟨rfl, rfl⟩ := key h₂l h₁l hb ha hle
    exact ⟨rfl, rfl⟩

/-- An event is committed once. -/
theorem commit_once {R : Rely store EventEnvelope} {h : History} (hk : (effectContract R).Kept h)
    (hkeys : (engine.state h).keys.Nodup) {h₁ h₂ : History} {k₁ k₂ : IngestCommit}
    (hpre₁ : h₁ ++ [k₁] <+: h) (hpre₂ : h₂ ++ [k₂] <+: h)
    (hid : k₁.input.eventId = k₂.input.eventId) : h₁ = h₂ ∧ k₁ = k₂ := by
  have hcount : h.countP (fun c => c.input.eventId.val == k₂.input.eventId.val) ≤ 1 := by
    rw [← count_event_keys hk]
    exact List.nodup_iff_count_le_one.mp hkeys _
  exact prefix_unique hcount hpre₁ hpre₂ (by simp [hid]) (by simp)

/-- No attempt that ended as RETRY or DUPLICATE has committed anything. -/
theorem no_commit_of_outcome {s : IngestState} (hs : IngestReachable s)
    {r : Returned store EventEnvelope Result} (hr : r ∈ s.returned) {ρ : Result}
    (hρ : r.result = .ok ρ) (hout : ρ.outcome = .retry ∨ ρ.outcome = .duplicate) :
    ∀ c ∈ s.shared.history, c.attempt ≠ r.attempt := by
  have hsound := hs.sound
  obtain ⟨h, _, hpost⟩ := hsound.returned r hr
  have hnone : r.progress.committed = [] := by
    rw [hρ] at hpost
    generalize r.progress = p at hpost
    cases hpost with
    | processed => simp at hout
    | discarded | registered | barred | retried => rfl
  intro c hc heq
  have hcommits := (hsound.wellFormed.returned r hr).2.2
  rw [hnone, commitsOf, eq_comm, List.map_eq_nil_iff, List.filter_eq_nil_iff] at hcommits
  exact hcommits c hc (by simpa using heq)

/-- In every reachable state an event is in the ledger exactly when its whole effect is
committed; it is committed once; every committed transaction is the whole effect of
its event; and RETRY and DUPLICATE leave nothing behind. -/
theorem effect_exactlyOnce {s : IngestState} (hs : IngestReachable s) (eventId : String) :
    (InLedger (committed s) eventId ↔ ∃ h₀ c, EffectAt s eventId h₀ c) ∧
    (∀ h₁ h₂ c₁ c₂, EffectAt s eventId h₁ c₁ → EffectAt s eventId h₂ c₂ → h₁ = h₂ ∧ c₁ = c₂) ∧
    (∀ c ∈ s.shared.history, ∃ h₀, EffectAt s c.input.eventId h₀ c) ∧
    (∀ r ∈ s.returned, ∀ ρ, r.result = .ok ρ → ρ.outcome = .retry ∨ ρ.outcome = .duplicate →
      ∀ c ∈ s.shared.history, c.attempt ≠ r.attempt) := by
  have hkept := hs.sound.kept
  refine ⟨⟨fun hin => ?_, ?_⟩, ?_, fun c hc => effectAt_of_mem hs hc,
    fun r hr ρ hρ hout => no_commit_of_outcome hs hr hρ hout⟩
  · obtain ⟨c, hc, rfl⟩ := (inLedger_iff_commit hkept eventId).mp hin
    obtain ⟨h₀, heffect⟩ := effectAt_of_mem hs hc
    exact ⟨h₀, c, heffect⟩
  · rintro ⟨h₀, c, heffect⟩
    exact (inLedger_iff_commit hkept eventId).mpr ⟨c, heffect.mem, heffect.event⟩
  · intro h₁ h₂ c₁ c₂ he₁ he₂
    exact commit_once hkept hs.sound.wellFormed.keys he₁.position he₂.position
      (Subtype.ext (he₁.event.trans he₂.event.symm))

theorem effect_exactlyOnce_catalog :
    ∃ h₀ c, EffectAt ((Sample.after Sample.catalog).get (by decide)) "evt-order-2" h₀ c :=
  (effect_exactlyOnce (Sample.after_reachable (by decide)) "evt-order-2").1.mp
    ⟨⟨"evt-order-2", .orderCreated⟩, by decide, rfl⟩

end EcommerceIntegration
