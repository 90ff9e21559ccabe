import EcommerceIntegration.Library.Locking
import EcommerceIntegration.Library.Evaluation

/-!
# One attempt, processed alone

From its start to its end the operations of the attempt are answered one after the
other. Time passes meanwhile, and no other attempt takes a step.
-/

namespace Transaction

set_option autoImplicit false

variable {σ : Signature} {I α : Type}

inductive Move
  | answer (choice : Choice)
  | wait (d : Nat)

def Move.label (n : Nat) : Move → Label σ I
  | answer choice => .exec n choice
  | wait d => .tick d

/-- The attempt `n`, whose program is `q`, after the moves. -/
def Engine.follow (E : Engine σ) (n : Nat) (i : I) : List Move → Session σ α → Progress σ →
    Shared σ I → Option (Session σ α × Progress σ × Shared σ I)
  | [], q, p, sh => some (q, p, sh)
  | .wait d :: ms, q, p, sh => E.follow n i ms q p { sh with clock := sh.clock + d }
  | .answer choice :: ms, .call o k, p, sh =>
    (E.respond n i p sh o choice).bind fun (r, p', sh') => E.follow n i ms (k r) p' sh'
  | .answer _ :: _, _, _, _ => none

def soloLabels (n : Nat) (i : I) (ms : List Move) : List (Label σ I) :=
  .start i :: ms.map (Move.label n) ++ [.finish n]

/-- From `s` on, `i` is processed by an attempt of its own, which ends in `t`. -/
def Alone (E : Engine σ) (prog : I → Session σ α) (s : State σ I α) (i : I) (ms : List Move)
    (t : State σ I α) : Prop :=
  Transition.run (step E prog) s (soloLabels s.started i ms) = some t

section Alone
variable {E : Engine σ} {prog : I → Session σ α} {n : Nat} {i : I} {s t : State σ I α}

theorem run_moves (prog : I → Session σ α) (ms : List Move) {q : Session σ α} {p : Progress σ}
    (ha : s.active n = some ⟨i, q, p⟩) :
    Transition.run (step E prog) s (ms.map (Move.label n)) =
      (E.follow n i ms q p s.shared).map fun (q', p', sh') =>
        { s with shared := sh', active := Function.update s.active n (some ⟨i, q', p'⟩) } := by
  induction ms generalizing s q p with
  | nil => simp [Engine.follow, ← ha]
  | cons m ms ih =>
    cases m with
    | wait d =>
      have hnext := ih (s := { s with shared := { s.shared with clock := s.shared.clock + d } }) ha
      exact hnext
    | answer choice =>
      cases q with
      | done a => simp [Transition.run, Move.label, step, ha, Engine.follow]
      | raise e => simp [Transition.run, Move.label, step, ha, Engine.follow]
      | call o k =>
        simp only [List.map_cons, Move.label, Transition.run, step, ha, Engine.follow]
        cases E.respond n i p s.shared o choice with
        | none => rfl
        | some x =>
          obtain ⟨r, p', sh'⟩ := x
          have hnext := ih (q := k r) (p := p')
            (s := { s with
              shared := sh', active := Function.update s.active n (some ⟨i, k r, p'⟩) })
            (Function.update_self ..)
          simp only [Function.update_idem] at hnext
          exact hnext

theorem alone_iff {ms : List Move} :
    Alone E prog s i ms t ↔ ∃ r p sh,
      E.follow s.started i ms (prog i) {} s.shared = some (Program.ofExcept r, p, sh) ∧
      t = { shared := sh.release s.started, active := Function.update s.active s.started none
            returned := s.returned ++ [⟨s.started, i, p, r⟩], started := s.started + 1 } := by
  have hactive : ({ s with
      active := Function.update s.active s.started (some ⟨i, prog i, {}⟩)
      started := s.started + 1 } : State σ I α).active s.started = some ⟨i, prog i, {}⟩ :=
    Function.update_self ..
  have hmoves := run_moves (E := E) prog ms hactive
  have hstart : Transition.run (step E prog) s (soloLabels s.started i ms) =
      Transition.run (step E prog)
        { s with
          active := Function.update s.active s.started (some ⟨i, prog i, {}⟩)
          started := s.started + 1 } (ms.map (Move.label s.started) ++ [.finish s.started]) := rfl
  unfold Alone
  rw [hstart, Transition.run_concat_eq_some, hmoves]
  simp only [Option.map_eq_some_iff, Function.update_idem]
  constructor
  · rintro ⟨_, ⟨⟨q, p, sh⟩, hfollow, rfl⟩, hfinish⟩
    obtain ⟨i', q', p', r, ha, rfl, rfl⟩ := step_finish hfinish
    obtain ⟨rfl, rfl, rfl⟩ : i = i' ∧ q = Program.ofExcept r ∧ p = p' := by simpa using ha
    exact ⟨r, p, sh, hfollow, by simp [State.leave]⟩
  · rintro ⟨r, p, sh, hfollow, rfl⟩
    refine ⟨_, ⟨_, hfollow, rfl⟩, ?_⟩
    cases r <;> simp [step, Program.ofExcept, State.leave]

end Alone

/-! ## What the attempt leaves alone -/

/-- The identity values of the inserted rows were handed out since the counters stood at
`least`. -/
def Handed (E : Engine σ) (least : σ.Table → Nat) (sh : Shared σ I) (ws : List (Change σ)) :
    Prop :=
  ∀ row id, .inserted row id ∈ ws →
    least (E.table row) ≤ id ∧ id < sh.identity (E.table row)

structure Frame (E : Engine σ) (n : Nat) (i : I) (least : σ.Table → Nat) (p : Progress σ)
    (sh : Shared σ I) (p' : Progress σ) (sh' : Shared σ I) : Prop where
  identity : ∀ t, sh.identity t ≤ sh'.identity t
  owner : ∀ l m, m ≠ n → (sh'.owner l = some m ↔ sh.owner l = some m)
  commits : ∃ ks, sh'.history = sh.history ++ ks ∧
    p'.committed = p.committed ++ ks.map Commit.writes ∧
    ∀ k ∈ ks, k.input = i ∧ Handed E least sh' k.writes
  pending : Handed E least sh' p'.writes

section Frame
variable {E : Engine σ} {n : Nat} {i : I} {least : σ.Table → Nat} {p p' p'' : Progress σ}
  {sh sh' sh'' : Shared σ I} {ws : List (Change σ)}

theorem Handed.later (h : Handed E least sh ws) (hle : ∀ t, sh.identity t ≤ sh'.identity t) :
    Handed E least sh' ws :=
  fun row id hmem => ⟨(h row id hmem).1, Nat.lt_of_lt_of_le (h row id hmem).2 (hle _)⟩

theorem Frame.trans (h : Frame E n i least p sh p' sh') (k : Frame E n i least p' sh' p'' sh'') :
    Frame E n i least p sh p'' sh'' where
  identity t := Nat.le_trans (h.identity t) (k.identity t)
  owner l m hm := (k.owner l m hm).trans (h.owner l m hm)
  commits := by
    obtain ⟨ks, hhistory, hcommitted, hks⟩ := h.commits
    obtain ⟨ks', hhistory', hcommitted', hks'⟩ := k.commits
    refine ⟨ks ++ ks', ?_, ?_, fun c hc => ?_⟩
    · rw [hhistory', hhistory, List.append_assoc]
    · rw [hcommitted', hcommitted, List.append_assoc, List.map_append]
    · rcases List.mem_append.mp hc with hc | hc
      · exact ⟨(hks c hc).1, (hks c hc).2.later k.identity⟩
      · exact hks' c hc
  pending := k.pending

theorem release_owner_iff {n m : Nat} (hm : m ≠ n) (l : σ.Lock) :
    (sh.release n).owner l = some m ↔ sh.owner l = some m := by
  constructor
  · intro h
    simp only [Shared.release] at h
    split at h
    · cases h
    · exact h
  · exact Shared.release_owner hm

theorem Effect.frame (he : Effect E n i p sh p' sh') (hleast : ∀ t, least t ≤ sh.identity t)
    (hp : Handed E least sh p.writes) : Frame E n i least p sh p' sh' := by
  cases he with
  | quiet hws hc hh ho _ hid =>
    refine ⟨hid, fun l m _ => by rw [ho], ⟨[], by simp [hh], by simp [hc], by simp⟩, ?_⟩
    rw [hws]
    exact hp.later hid
  | wrote c hws hc hfree _ hh ho _ hid hused =>
    refine ⟨hid, fun l m hm => ?_, ⟨[], by simp [hh], by simp [hc], by simp⟩, ?_⟩
    · rw [ho]
      dsimp only
      split
      · rename_i hl
        exact ⟨fun heq => absurd (Option.some.inj heq).symm hm,
          fun heq => absurd (hfree l hl m heq) hm⟩
      · rfl
    · intro row id hmem
      rw [hws] at hmem
      rcases List.mem_append.mp hmem with hmem | hmem
      · exact hp.later hid row id hmem
      · obtain ⟨rfl, hnext⟩ := hused row id (List.mem_singleton.mp hmem).symm
        exact ⟨hleast _, hnext ▸ Nat.lt_succ_self _⟩
  | committed hws hc hh ho _ hid =>
    have hle : ∀ t, sh.identity t ≤ sh'.identity t := fun t => by rw [hid]
    refine ⟨hle, fun l m hm => by rw [ho]; exact release_owner_iff hm l,
      ⟨[⟨n, i, sh.clock, p.writes⟩], hh, hc, ?_⟩, ?_⟩
    · intro k hk
      rw [List.mem_singleton.mp hk]
      exact ⟨rfl, hp.later hle⟩
    · rw [hws]
      intro row id hmem
      cases hmem
  | dropped hws hc hh ho _ hid =>
    refine ⟨fun t => by rw [hid], fun l m hm => by rw [ho]; exact release_owner_iff hm l,
      ⟨[], by simp [hh], by simp [hc], by simp⟩, ?_⟩
    rw [hws]
    intro row id hmem
    cases hmem

/-- An attempt that is alone touches no lock and no commit of another, and its identity
values are new. -/
theorem follow_frame {ms : List Move} {q q' : Session σ α}
    (h : E.follow n i ms q p sh = some (q', p', sh')) (hleast : ∀ t, least t ≤ sh.identity t)
    (hp : Handed E least sh p.writes) : Frame E n i least p sh p' sh' := by
  induction ms generalizing q p sh with
  | nil =>
    cases h
    exact ⟨fun _ => Nat.le_refl _, fun _ _ _ => Iff.rfl, ⟨[], by simp, by simp, by simp⟩, hp⟩
  | cons m ms ih =>
    cases m with
    | wait d =>
      have hrest : E.follow n i ms q p { sh with clock := sh.clock + d } = some (q', p', sh') := h
      obtain ⟨hid, howner, hcommits, hpending⟩ := ih hrest hleast hp
      exact ⟨hid, howner, hcommits, hpending⟩
    | answer choice =>
      cases q with
      | done | raise => cases h
      | call o k =>
        obtain ⟨⟨r, p₁, sh₁⟩, hr, hrest⟩ := Option.bind_eq_some_iff.mp h
        have hfirst := (respond_effect hr).frame hleast hp
        refine hfirst.trans (ih hrest (fun t => ?_) hfirst.pending)
        exact Nat.le_trans (hleast t) (hfirst.identity t)

end Frame

theorem release_owner_of {n m : Nat} {sh : Shared σ I} {l : σ.Lock} :
    (sh.release n).owner l = some m ↔ m ≠ n ∧ sh.owner l = some m := by
  by_cases hm : m = n
  · subst hm
    simp only [Shared.release]
    split <;> simp_all
  · simp [hm, release_owner_iff hm l]

/-- What an attempt that was alone leaves behind. -/
theorem Alone.frame {E : Engine σ} {prog : I → Session σ α} {s t : State σ I α} {i : I}
    {ms : List Move} (h : Alone E prog s i ms t) :
    t.started = s.started + 1 ∧
    (∀ τ, s.shared.identity τ ≤ t.shared.identity τ) ∧
    (∀ l m, t.shared.owner l = some m ↔ m ≠ s.started ∧ s.shared.owner l = some m) ∧
    ∃ r ks, t.returned = s.returned ++ [r] ∧ t.shared.history = s.shared.history ++ ks ∧
      r.progress.committed = ks.map Commit.writes ∧
      ∀ k ∈ ks, k.input = i ∧ Handed E s.shared.identity t.shared k.writes := by
  obtain ⟨r, p, sh, hfollow, rfl⟩ := alone_iff.mp h
  have hnone : Handed E s.shared.identity s.shared ({} : Progress σ).writes := by
    intro row id hmem
    cases hmem
  obtain ⟨hid, howner, ⟨ks, hhistory, hcommitted, hks⟩, _⟩ :=
    follow_frame hfollow (fun _ => Nat.le_refl _) hnone
  refine ⟨rfl, hid, fun l m => ?_, _, ks, rfl, hhistory, hcommitted, hks⟩
  exact release_owner_of.trans (and_congr_right fun hm => howner l m hm)

/-! ## Who holds a lock -/

section Holders
variable {E : Engine σ} {prog : I → Session σ α} {s t : State σ I α}

/-- A lock is held by an attempt that is under way. -/
def Held (s : State σ I α) : Prop := ∀ l m, s.shared.owner l = some m → (s.active m).isSome

theorem Held.leave (h : Held s) (n : Nat) : Held (s.leave n) := by
  intro l m hm
  obtain ⟨hne, hm⟩ := release_owner_of.mp hm
  simpa [State.leave, hne] using h l m hm

theorem Held.step (h : Held s) {l : Label σ I} (hst : step E prog s l = some t) : Held t := by
  cases l with
  | start i =>
    rw [step_start hst]
    intro l m hm
    by_cases hn : m = s.started
    · simp [hn]
    · simpa [hn] using h l m hm
  | exec n choice =>
    obtain ⟨i, o, k, p, r, p', sh, ha, hr, rfl⟩ := step_exec hst
    intro l m hm
    by_cases hn : m = n
    · simp [hn]
    · have hold : s.shared.owner l = some m := by
        cases respond_effect hr with
        | quiet _ _ _ ho => rwa [ho] at hm
        | wrote _ _ _ _ _ _ ho =>
          rw [ho] at hm
          dsimp only at hm
          split at hm
          · exact absurd (Option.some.inj hm).symm hn
          · exact hm
        | committed _ _ _ ho =>
          rw [ho] at hm
          exact (release_owner_of.mp hm).2
        | dropped _ _ _ ho =>
          rw [ho] at hm
          exact (release_owner_of.mp hm).2
      simpa [hn] using h l m hold
  | finish n =>
    obtain ⟨_, _, _, _, _, _, rfl⟩ := step_finish hst
    exact h.leave n
  | crash n =>
    obtain ⟨_, _, rfl⟩ := step_crash hst
    exact h.leave n
  | tick | remote =>
    cases hst
    exact h

theorem Reachable.held (hs : Reachable E prog s) : Held s := by
  obtain ⟨clock, remote, hs⟩ := hs
  refine hs.invariant ?_ fun _ _ _ h hst => h.step hst
  intro l m hm
  cases hm

end Holders

/-! ## The remote store -/

/-- Requests are the only operations that change the remote store. -/
theorem respond_remote {E : Engine σ} {n : Nat} {i : I} {p p' : Progress σ} {sh sh' : Shared σ I}
    {o : Op σ} {choice : Choice} {r : Except (Exn σ) o.Res}
    (h : E.respond n i p sh o choice = some (r, p', sh')) :
    sh'.remote = sh.remote ∨ ∃ x, o = .request x ∧ sh'.remote = (E.perform sh.remote x).1 := by
  cases o with
  | request x =>
    cases choice with
    | ok =>
      cases h
      exact .inr ⟨x, rfl, rfl⟩
    | fault m applied =>
      cases h
      cases applied
      · exact .inl rfl
      · exact .inr ⟨x, rfl, rfl⟩
  | insert row =>
    cases choice with
    | ok =>
      obtain ⟨⟨r', p₁, sh₁⟩, hput, heq⟩ := Option.map_eq_some_iff.mp h
      cases heq
      unfold Engine.put at hput
      split at hput
      · split at hput <;> cases hput <;> exact .inl rfl
      · cases hput
    | fault m applied =>
      cases h
      exact .inl rfl
  | execute stmt =>
    cases choice with
    | ok =>
      simp only [Engine.respond, Engine.put] at h
      split at h
      · split at h <;> cases h <;> exact .inl rfl
      · cases h
    | fault m applied =>
      cases h
      exact .inl rfl
  | select | commit => cases choice <;> cases h <;> exact .inl rfl
  | now | rollback =>
    cases choice <;> cases h
    exact .inl rfl

/-- What every request of the program keeps is kept. -/
theorem follow_remote {E : Engine σ} {n : Nat} {i : I} {K : σ.Remote → Prop} {P : Op σ → Prop}
    (hK : ∀ x r, P (.request x) → K r → K (E.perform r x).1) {ms : List Move} {q q' : Session σ α}
    {p p' : Progress σ} {sh sh' : Shared σ I} (hq : q.Uses P)
    (h : E.follow n i ms q p sh = some (q', p', sh')) (hsh : K sh.remote) : K sh'.remote := by
  induction ms generalizing q p sh with
  | nil =>
    cases h
    exact hsh
  | cons m ms ih =>
    cases m with
    | wait d =>
      have hrest : E.follow n i ms q p { sh with clock := sh.clock + d } = some (q', p', sh') := h
      exact ih hq hrest hsh
    | answer choice =>
      cases q with
      | done | raise => cases h
      | call o k =>
        obtain ⟨⟨r, p₁, sh₁⟩, hr, hrest⟩ := Option.bind_eq_some_iff.mp h
        refine ih (hq.2 r) hrest ?_
        rcases respond_remote hr with heq | ⟨x, rfl, heq⟩
        · exact heq ▸ hsh
        · exact heq ▸ hK x _ hq.1 hsh

end Transaction
