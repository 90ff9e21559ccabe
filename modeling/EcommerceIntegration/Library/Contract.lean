import EcommerceIntegration.Library.Locking

/-!
# A program logic for interleaved transactions

`Safe q h p Q` says of a program `q`, started when the history is `h` and with the
progress `p`: whatever other attempts commit between its operations, as far as the
contract relies on less, and however the environment answers, every commit and every
refused write is as the contract says, and `Q` holds at its end. It is computed from
the program tree, so it is proved by walking through the program. What holds of all
programs of a system in this sense holds in all its reachable states.
-/

namespace Transaction

set_option autoImplicit false

variable {σ : Signature} {I α β : Type}

/-- How the history may change between two operations of an attempt. -/
structure Rely (σ : Signature) (I : Type) where
  allows : List (Commit σ I) → List (Commit σ I) → Prop
  refl : ∀ h, allows h h
  trans : ∀ {h h' h''}, allows h h' → allows h' h'' → allows h h''
  prefix_of : ∀ {h h'}, allows h h' → h <+: h'

/-- Other attempts commit whatever they like. -/
def Rely.others (σ : Signature) (I : Type) : Rely σ I where
  allows h h' := h <+: h'
  refl := List.prefix_refl
  trans := List.IsPrefix.trans
  prefix_of h := h

/-- No other attempt commits. -/
def Rely.alone (σ : Signature) (I : Type) : Rely σ I where
  allows h h' := h = h'
  refl _ := rfl
  trans := Eq.trans
  prefix_of h := h ▸ List.prefix_refl _

/-- What is relied on, and what is asserted of every commit and of every write that a
constraint refuses. -/
structure Contract (σ : Signature) (I : Type) where
  rely : Rely σ I
  commits : I → List (Commit σ I) → List (Change σ) → Prop
  refuses : I → List (Commit σ I) → Progress σ → Change σ → σ.Constraint → Prop

/-- Every commit of the history met the contract when it was made. -/
def Contract.Kept (C : Contract σ I) (h : List (Commit σ I)) : Prop :=
  ∀ h₀ c, h₀ ++ [c] <+: h → C.commits c.input h₀ c.writes

theorem Contract.Kept.nil (C : Contract σ I) : C.Kept [] := by
  intro h₀ c hpre
  simp at hpre

theorem Contract.Kept.concat {C : Contract σ I} {h : List (Commit σ I)} {c : Commit σ I}
    (hk : C.Kept h) (hc : C.commits c.input h c.writes) : C.Kept (h ++ [c]) := by
  intro h₀ c₀ hpre
  rcases List.prefix_concat_iff.mp hpre with heq | hold
  · obtain ⟨rfl, hlast⟩ := List.append_inj' heq rfl
    cases hlast
    exact hc
  · exact hk h₀ c₀ hold

theorem Contract.Kept.of_prefix {C : Contract σ I} {h h' : List (Commit σ I)}
    (hk : C.Kept h') (hle : h <+: h') : C.Kept h :=
  fun h₀ c hpre => hk h₀ c (hpre.trans hle)

abbrev Post (σ : Signature) (I α : Type) :=
  List (Commit σ I) → Progress σ → Except (Exn σ) α → Prop

section Logic
variable {E : Engine σ} (K : KeyLaws E) (C : Contract σ I) (n : Nat) (i : I)

/-- What an attempt may assume of the history and of its own pending writes. -/
def Known (h : List (Commit σ I)) (ws : List (Change σ)) : Prop :=
  (K.keys (E.view h ws)).Nodup

/-- An identity value handed out now is above all that the attempt can see. -/
def NewId (h : List (Commit σ I)) (ws : List (Change σ)) (row : σ.Row) (id : Nat) : Prop :=
  ∀ j ∈ K.ids (E.view h ws) (E.table row), j < id

def Later (h : List (Commit σ I)) (t : Int) : Prop := ∀ c ∈ h, c.time ≤ t

/-- A write is refused by a constraint or pending. -/
def WpPut (h : List (Commit σ I)) (p : Progress σ) (c : Change σ) (Q : Post σ I Unit) : Prop :=
  match E.violated (E.view h p.writes) c with
  | some k => C.refuses i h p c k ∧ Q h (p.refuse c k) (.error (.integrity k))
  | none => Q h (p.write c) (.ok ())

/-- Whatever the answer to the operation is, `Q` holds after it. -/
def Wp (h : List (Commit σ I)) (p : Progress σ) : (o : Op σ) → Post σ I o.Res → Prop
  | .select, Q => Q h p (.ok (E.view h p.writes)) ∧ ∀ m, Q h p (.error (.fault m))
  | .insert row, Q =>
    (∀ id, NewId K h p.writes row id →
      WpPut (E := E) C i h p (.inserted row id) fun h' p' r => Q h' p' (r.map fun _ => id)) ∧
    ∀ m, Q h p (.error (.fault m))
  | .execute stmt, Q =>
    WpPut (E := E) C i h p (.executed stmt) Q ∧ ∀ m, Q h p (.error (.fault m))
  | .now, Q => ∀ t, Later h t → Q h p (.ok t)
  | .commit, Q =>
    C.commits i h p.writes ∧
    (∀ t, Later h t → Q (h ++ [⟨n, i, t, p.writes⟩]) p.commit (.ok ())) ∧
    ∀ m, Q h p.rollback (.error (.fault m))
  | .rollback, Q => Q h p.rollback (.ok ())
  | .request x, Q =>
    (∀ b, Q h (p.request x (some b)) (.ok b)) ∧ ∀ m, Q h (p.request x none) (.error (.fault m))

def Safe : Session σ α → List (Commit σ I) → Progress σ → Post σ I α → Prop
  | .done a, h, p, Q => ∀ h', C.rely.allows h h' → Q h' p (.ok a)
  | .raise e, h, p, Q => ∀ h', C.rely.allows h h' → Q h' p (.error e)
  | .call o k, h, p, Q => ∀ h', C.rely.allows h h' → C.Kept h' → Known K h' p.writes →
    Wp K C n i h' p o fun h'' p' r => Safe (k r) h'' p' Q

variable {K C n i}

theorem wpPut_mono {h : List (Commit σ I)} {p : Progress σ} {c : Change σ} {Q Q' : Post σ I Unit}
    (hQ : ∀ h' p' r, Q h' p' r → Q' h' p' r) (hw : WpPut (E := E) C i h p c Q) :
    WpPut (E := E) C i h p c Q' := by
  unfold WpPut at hw ⊢
  split at hw
  · exact ⟨hw.1, hQ _ _ _ hw.2⟩
  · exact hQ _ _ _ hw

theorem wp_mono {h : List (Commit σ I)} {p : Progress σ} {o : Op σ} {Q Q' : Post σ I o.Res}
    (hQ : ∀ h' p' r, Q h' p' r → Q' h' p' r) (hw : Wp K C n i h p o Q) : Wp K C n i h p o Q' := by
  cases o with
  | select => exact ⟨hQ _ _ _ hw.1, fun m => hQ _ _ _ (hw.2 m)⟩
  | insert row =>
    exact ⟨fun id hid => wpPut_mono (fun _ _ _ => hQ _ _ _) (hw.1 id hid),
      fun m => hQ _ _ _ (hw.2 m)⟩
  | execute stmt => exact ⟨wpPut_mono hQ hw.1, fun m => hQ _ _ _ (hw.2 m)⟩
  | now => exact fun t ht => hQ _ _ _ (hw t ht)
  | commit =>
    exact ⟨hw.1, fun t ht => hQ _ _ _ (hw.2.1 t ht), fun m => hQ _ _ _ (hw.2.2 m)⟩
  | rollback => exact hQ _ _ _ hw
  | request x => exact ⟨fun b => hQ _ _ _ (hw.1 b), fun m => hQ _ _ _ (hw.2 m)⟩

/-- What is safe now stays safe while other attempts commit. -/
theorem Safe.extend {q : Session σ α} {h h' : List (Commit σ I)} {p : Progress σ} {Q : Post σ I α}
    (hs : Safe K C n i q h p Q) (hle : C.rely.allows h h') : Safe K C n i q h' p Q := by
  cases q with
  | done a => exact fun h'' hle' => hs h'' (C.rely.trans hle hle')
  | raise e => exact fun h'' hle' => hs h'' (C.rely.trans hle hle')
  | call o k => exact fun h'' hle' => hs h'' (C.rely.trans hle hle')

theorem Safe.mono {q : Session σ α} {h : List (Commit σ I)} {p : Progress σ} {Q Q' : Post σ I α}
    (hQ : ∀ h' p' r, Q h' p' r → Q' h' p' r) (hs : Safe K C n i q h p Q) :
    Safe K C n i q h p Q' := by
  induction q generalizing h p with
  | done a => exact fun h' hle => hQ _ _ _ (hs h' hle)
  | raise e => exact fun h' hle => hQ _ _ _ (hs h' hle)
  | call o k ih =>
    exact fun h' hle hkept hknown => wp_mono (fun _ _ r => ih r) (hs h' hle hkept hknown)

/-- Sequencing: the rest is safe after the value, an exception is passed on. -/
theorem Safe.andThen {q : Session σ α} {f : α → Session σ β} {h : List (Commit σ I)}
    {p : Progress σ} {Q : Post σ I β}
    (hs : Safe K C n i q h p fun h' p' r =>
      match r with
      | .ok a => Safe K C n i (f a) h' p' Q
      | .error e => Q h' p' (.error e)) :
    Safe K C n i (q.andThen f) h p Q := by
  induction q generalizing h p with
  | done a => exact hs h (C.rely.refl h)
  | raise e => exact hs
  | call o k ih =>
    exact fun h' hle hkept hknown => wp_mono (fun _ _ r => ih r) (hs h' hle hkept hknown)

/-- Handlers of exceptions: the handler is safe after the exception. -/
theorem Safe.handle {q : Session σ α} {g : Exn σ → Session σ α} {h : List (Commit σ I)}
    {p : Progress σ} {Q : Post σ I α}
    (hs : Safe K C n i q h p fun h' p' r =>
      match r with
      | .ok a => Q h' p' (.ok a)
      | .error e => Safe K C n i (g e) h' p' Q) :
    Safe K C n i (q.handle g) h p Q := by
  induction q generalizing h p with
  | done a => exact hs
  | raise e => exact hs h (C.rely.refl h)
  | call o k ih =>
    exact fun h' hle hkept hknown => wp_mono (fun _ _ r => ih r) (hs h' hle hkept hknown)

/-- One operation, and what holds after it whatever others commit next. -/
theorem Safe.perform {o : Op σ} {h : List (Commit σ I)} {p : Progress σ} {Q : Post σ I o.Res}
    (hw : ∀ h', C.rely.allows h h' → C.Kept h' → Known K h' p.writes →
      Wp K C n i h' p o fun h₁ p' r => ∀ h₂, C.rely.allows h₁ h₂ → Q h₂ p' r) :
    Safe K C n i (Program.perform o) h p Q := by
  intro h' hle hkept hknown
  refine wp_mono (fun h₁ p' r hr => ?_) (hw h' hle hkept hknown)
  cases r <;> exact hr

theorem put_wp {n : Nat} {p p' : Progress σ} {sh sh' : Shared σ I} {c : Change σ}
    {r : Except (Exn σ) Unit} {Q : Post σ I Unit}
    (hput : E.put n c p sh = some (r, p', sh')) (hw : WpPut (E := E) C i sh.history p c Q) :
    Q sh'.history p' r := by
  unfold Engine.put at hput
  unfold WpPut at hw
  split at hput
  · split at hput
    · rename_i k hk
      cases hput
      rw [hk] at hw
      exact hw.2
    · rename_i hk
      cases hput
      rw [hk] at hw
      exact hw
  · cases hput

/-- The machine answers within what `Wp` allows for. -/
theorem respond_wp {p p' : Progress σ} {sh sh' : Shared σ I} {o : Op σ} {choice : Choice}
    {r : Except (Exn σ) o.Res} {Q : Post σ I o.Res}
    (hr : E.respond n i p sh o choice = some (r, p', sh'))
    (hid : ∀ row, NewId K sh.history p.writes row (sh.identity (E.table row)))
    (htime : Later sh.history sh.clock)
    (hw : Wp K C n i sh.history p o Q) : Q sh'.history p' r := by
  cases o with
  | select =>
    cases choice <;> cases hr
    · exact hw.1
    · exact hw.2 _
  | insert row =>
    cases choice with
    | ok =>
      obtain ⟨⟨r', p'', sh''⟩, hput, heq⟩ := Option.map_eq_some_iff.mp hr
      cases heq
      exact put_wp (i := i) (C := C) (Q := fun h' p' r => Q h' p' (r.map fun _ => _)) hput
        (hw.1 _ (hid row))
    | fault m applied =>
      cases hr
      exact hw.2 m
  | execute stmt =>
    cases choice with
    | ok => exact put_wp hr hw.1
    | fault m applied =>
      cases hr
      exact hw.2 m
  | now =>
    cases choice <;> cases hr
    exact hw _ htime
  | commit =>
    cases choice <;> cases hr
    · exact hw.2.1 _ htime
    · exact hw.2.2 _
  | rollback =>
    cases choice <;> cases hr
    exact hw
  | request x =>
    cases choice with
    | ok =>
      cases hr
      exact hw.1 _
    | fault m applied =>
      cases hr
      cases applied <;> exact hw.2 m

end Logic

/-! ## Soundness -/

theorem respond_history {E : Engine σ} {n : Nat} {i : I} {p p' : Progress σ}
    {sh sh' : Shared σ I} {o : Op σ} {choice : Choice} {r : Except (Exn σ) o.Res}
    (hr : E.respond n i p sh o choice = some (r, p', sh')) :
    sh'.history = sh.history ∨
      o = .commit ∧ sh'.history = sh.history ++ [⟨n, i, sh.clock, p.writes⟩] := by
  cases o with
  | commit =>
    cases choice <;> cases hr
    · exact .inr ⟨rfl, rfl⟩
    · exact .inl rfl
  | insert row =>
    cases choice with
    | ok =>
      obtain ⟨⟨r', p'', sh''⟩, hput, heq⟩ := Option.map_eq_some_iff.mp hr
      cases heq
      unfold Engine.put at hput
      split at hput
      · split at hput <;> cases hput <;> exact .inl rfl
      · cases hput
    | fault m applied =>
      cases hr
      exact .inl rfl
  | execute stmt =>
    cases choice with
    | ok =>
      simp only [Engine.respond, Engine.put] at hr
      split at hr
      · split at hr <;> cases hr <;> exact .inl rfl
      · cases hr
    | fault m applied =>
      cases hr
      exact .inl rfl
  | select => cases choice <;> cases hr <;> exact .inl rfl
  | now =>
    cases choice <;> cases hr
    exact .inl rfl
  | rollback =>
    cases choice <;> cases hr
    exact .inl rfl
  | request x =>
    cases choice with
    | ok =>
      cases hr
      exact .inl rfl
    | fault m applied =>
      cases hr
      cases applied <;> exact .inl rfl

/-- The contract is kept, every attempt under way is safe, and every attempt that
returned did so in a state that satisfied its postcondition. -/
structure Sound {E : Engine σ} (K : KeyLaws E) (C : Contract σ I) (post : I → Post σ I α)
    (s : State σ I α) : Prop where
  wellFormed : WellFormed K s
  kept : C.Kept s.shared.history
  safe : ∀ n a, s.active n = some a →
    Safe K C n a.input a.program s.shared.history a.progress (post a.input)
  returned : ∀ r ∈ s.returned,
    ∃ h, h <+: s.shared.history ∧ post r.input h r.progress r.result

namespace Sound
variable {E : Engine σ} {K : KeyLaws E} {C : Contract σ I} {post : I → Post σ I α}
  {prog : I → Session σ α} {s t : State σ I α}

/-- What the logic says of the operation an attempt is about to perform. -/
theorem wp (h : Sound K C post s) {n : Nat} {i : I} {o : Op σ}
    {k : Except (Exn σ) o.Res → Session σ α} {p : Progress σ}
    (ha : s.active n = some ⟨i, .call o k, p⟩) :
    Wp K C n i s.shared.history p o fun h' p' r => Safe K C n i (k r) h' p' (post i) :=
  h.safe n _ ha _ (C.rely.refl _) h.kept (h.wellFormed.view_keys ha)

theorem exec (h : Sound K C post s) {n : Nat} {choice : Choice}
    (hst : Transaction.step E prog s (.exec n choice) = some t)
    (hrely : ∀ m a, m ≠ n → s.active m = some a →
      C.rely.allows s.shared.history t.shared.history) : Sound K C post t := by
  have hwf := h.wellFormed.step hst
  obtain ⟨i, o, k, p, r, p', sh, ha, hr, rfl⟩ := step_exec hst
  have hwp := h.wp ha
  have hle : s.shared.history <+: sh.history := by
    rcases respond_history hr with heq | ⟨_, heq⟩
    · rw [heq]
    · rw [heq]
      exact List.prefix_append _ _
  refine ⟨hwf, ?_, ?_, ?_⟩
  · rcases respond_history hr with heq | ⟨rfl, heq⟩
    · exact heq ▸ h.kept
    · exact heq ▸ h.kept.concat hwp.1
  · intro m a hm
    rcases update_eq_some hm with ⟨rfl, hv⟩ | ⟨hne, hm⟩
    · cases hv
      refine respond_wp (Q := fun h' p' r => Safe K C m i (k r) h' p' (post i)) hr ?_ ?_ hwp
      · exact fun row j hj => h.wellFormed.view_ids ha hj
      · exact h.wellFormed.history_time
    · exact (h.safe m a hm).extend (hrely m a hne hm)
  · intro ρ hρ
    obtain ⟨h₀, hpre, hpost⟩ := h.returned ρ hρ
    exact ⟨h₀, hpre.trans hle, hpost⟩

theorem leave (h : Sound K C post s) (n : Nat) : Sound K C post (s.leave n) where
  wellFormed := h.wellFormed.leave n
  kept := h.kept
  safe m a hm := by
    rcases update_eq_some hm with ⟨_, hv⟩ | ⟨_, hm⟩
    · cases hv
    · exact h.safe m a hm
  returned := h.returned

theorem step (hprog : ∀ n i h, Safe K C n i (prog i) h {} (post i)) {l : Label σ I}
    (h : Sound K C post s) (hst : Transaction.step E prog s l = some t)
    (hrely : ∀ n choice, l = .exec n choice → ∀ m a, m ≠ n → s.active m = some a →
      C.rely.allows s.shared.history t.shared.history) : Sound K C post t := by
  have hwf := h.wellFormed.step hst
  cases l with
  | start i =>
    obtain rfl := step_start hst
    refine ⟨hwf, h.kept, fun n a ha => ?_, h.returned⟩
    rcases update_eq_some ha with ⟨rfl, hv⟩ | ⟨_, ha⟩
    · cases hv
      exact hprog _ _ _
    · exact h.safe n a ha
  | exec n choice => exact h.exec hst (hrely n choice rfl)
  | finish n =>
    obtain ⟨i, q, p, r, ha, rfl, rfl⟩ := step_finish hst
    refine { h.leave n with wellFormed := hwf, returned := fun ρ hρ => ?_ }
    rcases List.mem_append.mp hρ with hρ | hρ
    · exact h.returned ρ hρ
    · rw [List.mem_singleton.mp hρ]
      have hsafe := h.safe n _ ha
      refine ⟨s.shared.history, List.prefix_refl _, ?_⟩
      cases r <;> exact hsafe _ (C.rely.refl _)
  | crash n =>
    obtain ⟨_, _, rfl⟩ := step_crash hst
    exact h.leave n
  | tick d =>
    cases hst
    exact { h with wellFormed := hwf }
  | remote r =>
    cases hst
    exact { h with wellFormed := hwf }

theorem initial (clock : Int) (remote : σ.Remote) :
    Sound K C post (Transaction.initial clock remote : State σ I α) := by
  refine ⟨WellFormed.initial clock remote, Contract.Kept.nil C, ?_, ?_⟩
  · simp [Transaction.initial]
  · simp [Transaction.initial]

end Sound

theorem step_history {E : Engine σ} {prog : I → Session σ α} {s t : State σ I α} {l : Label σ I}
    (hst : step E prog s l = some t) : s.shared.history <+: t.shared.history := by
  cases l with
  | start i =>
    obtain rfl := step_start hst
    exact List.prefix_refl _
  | exec n choice =>
    obtain ⟨i, o, k, p, r, p', sh, _, hr, rfl⟩ := step_exec hst
    rcases respond_history hr with heq | ⟨_, heq⟩
    · rw [heq]
    · rw [heq]
      exact List.prefix_append _ _
  | finish n =>
    obtain ⟨i, q, p, r, _, _, rfl⟩ := step_finish hst
    exact List.prefix_refl _
  | crash n =>
    obtain ⟨_, _, rfl⟩ := step_crash hst
    exact List.prefix_refl _
  | tick d =>
    cases hst
    exact List.prefix_refl _
  | remote r =>
    cases hst
    exact List.prefix_refl _

/-! ## Refusals -/

theorem put_refused {E : Engine σ} {C : Contract σ I} {n : Nat} {i : I} {p p' : Progress σ}
    {sh sh' : Shared σ I} {h : List (Commit σ I)} {c c' : Change σ} {k : σ.Constraint}
    {r : Except (Exn σ) Unit} {Q : Post σ I Unit} (hput : E.put n c p sh = some (r, p', sh'))
    (hh : sh.history = h) (hnew : p'.refusals = p.refusals ++ [(c', k)])
    (hw : WpPut (E := E) C i h p c Q) : C.refuses i h p c' k := by
  subst hh
  unfold Engine.put at hput
  unfold WpPut at hw
  split at hput
  · split at hput
    · rename_i k' hk
      cases hput
      rw [hk] at hw
      obtain ⟨rfl, rfl⟩ := Prod.mk.inj (List.singleton_inj.mp (List.append_cancel_left hnew))
      exact hw.1
    · cases hput
      simp [Progress.write] at hnew
  · cases hput

/-- A write that a constraint refuses is as the contract says. -/
theorem respond_refused {E : Engine σ} {K : KeyLaws E} {C : Contract σ I} {n : Nat} {i : I}
    {p p' : Progress σ} {sh sh' : Shared σ I} {o : Op σ} {choice : Choice} {c : Change σ}
    {k : σ.Constraint} {r : Except (Exn σ) o.Res} {Q : Post σ I o.Res}
    (hr : E.respond n i p sh o choice = some (r, p', sh'))
    (hnew : p'.refusals = p.refusals ++ [(c, k)])
    (hid : ∀ row, NewId K sh.history p.writes row (sh.identity (E.table row)))
    (hw : Wp K C n i sh.history p o Q) : C.refuses i sh.history p c k := by
  cases o with
  | insert row =>
    cases choice with
    | ok =>
      obtain ⟨⟨r', p'', sh''⟩, hput, heq⟩ := Option.map_eq_some_iff.mp hr
      cases heq
      exact put_refused hput rfl hnew (hw.1 _ (hid row))
    | fault m applied =>
      cases hr
      simp at hnew
  | execute stmt =>
    cases choice with
    | ok => exact put_refused hr rfl hnew hw.1
    | fault m applied =>
      cases hr
      simp at hnew
  | select | now | commit | rollback =>
    cases choice <;> cases hr <;> simp [Progress.commit, Progress.rollback] at hnew
  | request x => cases choice <;> cases hr <;> simp [Progress.request] at hnew

theorem put_refusals_cases {E : Engine σ} {n : Nat} {p p' : Progress σ} {sh sh' : Shared σ I}
    {c : Change σ} {r : Except (Exn σ) Unit} (h : E.put n c p sh = some (r, p', sh')) :
    p'.refusals = p.refusals ∨ ∃ x, p'.refusals = p.refusals ++ [x] := by
  unfold Engine.put at h
  split at h
  · split at h
    · cases h
      exact .inr ⟨_, rfl⟩
    · cases h
      exact .inl rfl
  · cases h

theorem respond_refusals_cases {E : Engine σ} {n : Nat} {i : I} {p p' : Progress σ}
    {sh sh' : Shared σ I} {o : Op σ} {choice : Choice} {r : Except (Exn σ) o.Res}
    (h : E.respond n i p sh o choice = some (r, p', sh')) :
    p'.refusals = p.refusals ∨ ∃ x, p'.refusals = p.refusals ++ [x] := by
  cases o with
  | insert row =>
    cases choice with
    | ok =>
      obtain ⟨⟨r', p'', sh''⟩, hput, heq⟩ := Option.map_eq_some_iff.mp h
      cases heq
      exact put_refusals_cases hput
    | fault m applied =>
      cases h
      exact .inl rfl
  | execute stmt =>
    cases choice with
    | ok => exact put_refusals_cases h
    | fault m applied =>
      cases h
      exact .inl rfl
  | select | now | commit | rollback | request => cases choice <;> cases h <;> exact .inl rfl

theorem respond_refusals {E : Engine σ} {n : Nat} {i : I} {p p' : Progress σ}
    {sh sh' : Shared σ I} {o : Op σ} {choice : Choice} {r : Except (Exn σ) o.Res}
    (h : E.respond n i p sh o choice = some (r, p', sh')) : p.refusals <+: p'.refusals := by
  rcases respond_refusals_cases h with heq | ⟨x, heq⟩
  · exact ⟨[], by rw [heq, List.append_nil]⟩
  · exact ⟨[x], heq.symm⟩

/-- The attempt `n` at the input `i` has met the refusal `x`. -/
structure Met (n : Nat) (i : I) (x : Change σ × σ.Constraint) (s : State σ I α) : Prop where
  started : n < s.started
  active : ∀ a, s.active n = some a → a.input = i ∧ x ∈ a.progress.refusals
  returned : ∀ r ∈ s.returned, r.attempt = n → r.input = i ∧ x ∈ r.progress.refusals

theorem Met.step {E : Engine σ} {prog : I → Session σ α} {n : Nat} {i : I}
    {x : Change σ × σ.Constraint} {s t : State σ I α} {l : Label σ I} (h : Met n i x s)
    (hst : step E prog s l = some t) : Met n i x t := by
  cases l with
  | start i =>
    obtain rfl := step_start hst
    refine ⟨Nat.lt_succ_of_lt h.started, fun a ha => ?_, h.returned⟩
    rcases update_eq_some ha with ⟨rfl, _⟩ | ⟨_, ha⟩
    · exact absurd h.started (Nat.lt_irrefl _)
    · exact h.active a ha
  | exec m choice =>
    obtain ⟨i, o, k, p, r, p', sh, hm, hr, rfl⟩ := step_exec hst
    refine ⟨h.started, fun a ha => ?_, h.returned⟩
    rcases update_eq_some ha with ⟨rfl, hv⟩ | ⟨_, ha⟩
    · cases hv
      exact ⟨(h.active _ hm).1, (respond_refusals hr).subset (h.active _ hm).2⟩
    · exact h.active a ha
  | finish m =>
    obtain ⟨i, q, p, r, hm, _, rfl⟩ := step_finish hst
    refine ⟨h.started, fun a ha => ?_, fun ρ hρ hn => ?_⟩
    · rcases update_eq_some ha with ⟨_, hv⟩ | ⟨_, ha⟩
      · cases hv
      · exact h.active a ha
    · rcases List.mem_append.mp hρ with hρ | hρ
      · exact h.returned ρ hρ hn
      · rw [List.mem_singleton.mp hρ] at hn ⊢
        subst hn
        exact h.active _ hm
  | crash m =>
    obtain ⟨_, _, rfl⟩ := step_crash hst
    refine ⟨h.started, fun a ha => ?_, h.returned⟩
    rcases update_eq_some ha with ⟨_, hv⟩ | ⟨_, ha⟩
    · cases hv
    · exact h.active a ha
  | tick d =>
    cases hst
    exact ⟨h.started, h.active, h.returned⟩
  | remote r =>
    cases hst
    exact ⟨h.started, h.active, h.returned⟩

/-- A contract that relies on nothing holds in every reachable state. -/
theorem Reachable.sound {E : Engine σ} (K : KeyLaws E) (C : Contract σ I)
    (hothers : ∀ h h', h <+: h' → C.rely.allows h h')
    (post : I → Post σ I α) {prog : I → Session σ α}
    (hprog : ∀ n i h, Safe K C n i (prog i) h {} (post i)) {s : State σ I α}
    (h : Reachable E prog s) : Sound K C post s := by
  obtain ⟨clock, remote, h⟩ := h
  refine h.invariant (Sound.initial clock remote) fun _ _ _ hs hst => ?_
  exact hs.step hprog hst fun _ _ _ _ _ _ _ => hothers _ _ (step_history hst)

/-! ## One attempt at a time -/

/-- An attempt starts when no other is under way. -/
def Serial (s : State σ I α) (l : Label σ I) : Prop :=
  ∀ i, l = .start i → ∀ n, s.active n = none

def State.AtMostOne (s : State σ I α) : Prop :=
  ∀ n m a b, s.active n = some a → s.active m = some b → n = m

/-- An attempt is under way because it was or because it has just started. -/
theorem step_active {E : Engine σ} {prog : I → Session σ α} {s t : State σ I α} {l : Label σ I}
    (hst : step E prog s l = some t) {n : Nat} {a : Attempt σ I α} (ha : t.active n = some a) :
    (∃ b, s.active n = some b ∧ b.input = a.input) ∨ l = .start a.input ∧ n = s.started := by
  cases l with
  | start i =>
    obtain rfl := step_start hst
    rcases update_eq_some ha with ⟨rfl, hv⟩ | ⟨_, ha⟩
    · cases hv
      exact .inr ⟨rfl, rfl⟩
    · exact .inl ⟨a, ha, rfl⟩
  | exec m choice =>
    obtain ⟨i, o, k, p, r, p', sh, hm, _, rfl⟩ := step_exec hst
    rcases update_eq_some ha with ⟨rfl, hv⟩ | ⟨_, ha⟩
    · cases hv
      exact .inl ⟨_, hm, rfl⟩
    · exact .inl ⟨a, ha, rfl⟩
  | finish m =>
    obtain ⟨i, q, p, r, _, _, rfl⟩ := step_finish hst
    rcases update_eq_some ha with ⟨_, hv⟩ | ⟨_, ha⟩
    · cases hv
    · exact .inl ⟨a, ha, rfl⟩
  | crash m =>
    obtain ⟨_, _, rfl⟩ := step_crash hst
    rcases update_eq_some ha with ⟨_, hv⟩ | ⟨_, ha⟩
    · cases hv
    · exact .inl ⟨a, ha, rfl⟩
  | tick d =>
    cases hst
    exact .inl ⟨a, ha, rfl⟩
  | remote r =>
    cases hst
    exact .inl ⟨a, ha, rfl⟩

theorem State.AtMostOne.step {E : Engine σ} {prog : I → Session σ α} {s t : State σ I α}
    {l : Label σ I} (h : s.AtMostOne) (hserial : Serial s l) (hst : step E prog s l = some t) :
    t.AtMostOne := by
  intro n m a b ha hb
  rcases step_active hst ha with ⟨a', ha', _⟩ | ⟨rfl, rfl⟩
  · rcases step_active hst hb with ⟨b', hb', _⟩ | ⟨rfl, rfl⟩
    · exact h n m a' b' ha' hb'
    · simp [hserial _ rfl n] at ha'
  · rcases step_active hst hb with ⟨b', hb', _⟩ | ⟨_, rfl⟩
    · simp [hserial _ rfl m] at hb'
    · rfl

/-- Any contract holds in every serial run. -/
theorem sound_of_serial {E : Engine σ} (K : KeyLaws E) (C : Contract σ I)
    (post : I → Post σ I α) {prog : I → Session σ α}
    (hprog : ∀ n i h, Safe K C n i (prog i) h {} (post i)) {clock : Int} {remote : σ.Remote}
    {ls : List (Label σ I)} {s : State σ I α}
    (hserial : Transition.Along (step E prog) Serial (initial clock remote) ls)
    (hrun : Transition.run (step E prog) (initial clock remote) ls = some s) :
    Sound K C post s := by
  have hboth : Sound K C post s ∧ s.AtMostOne := by
    refine Transition.run_invariant_along
      (fun s l t (hs : Sound K C post s ∧ s.AtMostOne) hl hst => ⟨?_, hs.2.step hl hst⟩)
      ?_ hserial hrun
    · refine hs.1.step hprog hst ?_
      rintro n choice rfl m a hne hm
      obtain ⟨i, o, k, p, r, p', sh, hn, _, _⟩ := step_exec hst
      exact absurd (hs.2 m n a _ hm hn) hne
    · refine ⟨Sound.initial clock remote, fun n m a b ha _ => ?_⟩
      simp [initial] at ha
  exact hboth.1

end Transaction
