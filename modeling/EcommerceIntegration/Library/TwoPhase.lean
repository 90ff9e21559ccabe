import EcommerceIntegration.Library.Locking

/-!
# Locks are kept to the end

A write is checked once, when it is made. From then to its commit no other attempt
commits a write under one of its locks, so what the check has seen of them still holds
where the transaction is committed.
-/

namespace Transaction

set_option autoImplicit false

variable {σ : Signature} {I α : Type}

/-- Each of the writes `ws` was let through at an earlier history, since when no write
under its locks has been committed. -/
def Unopposed (E : Engine σ) (h : List (Commit σ I)) (ws : List (Change σ)) : Prop :=
  ∀ us c vs, ws = us ++ c :: vs → ∃ h₀ later, h = h₀ ++ later ∧
    E.violated (E.view h₀ us) c = none ∧
    ∀ k ∈ later, ∀ w ∈ k.writes, ∀ l ∈ E.locks c, l ∉ E.locks w

namespace Unopposed
variable {E : Engine σ} {h : List (Commit σ I)} {ws : List (Change σ)}

theorem nil (h : List (Commit σ I)) : Unopposed E h [] := by
  intro us c vs heq
  simp at heq

theorem concat (hu : Unopposed E h ws) {c : Change σ} (hc : E.violated (E.view h ws) c = none) :
    Unopposed E h (ws ++ [c]) := by
  intro us c' vs heq
  rcases List.append_eq_append_iff.mp heq with ⟨rest, rfl, hrest⟩ | ⟨rest, rfl, hrest⟩
  · cases rest with
    | nil =>
      cases hrest
      exact ⟨h, [], (List.append_nil h).symm, by simpa using hc, by simp⟩
    | cons d rest => simp at hrest
  · cases rest with
    | nil =>
      cases hrest
      exact ⟨h, [], (List.append_nil h).symm, by simpa using hc, by simp⟩
    | cons d rest =>
      cases hrest
      exact hu us c' rest rfl

/-- Another attempt commits. -/
theorem commit (hu : Unopposed E h ws) {k : Commit σ I}
    (hdisjoint : ∀ c ∈ ws, ∀ w ∈ k.writes, ∀ l ∈ E.locks c, l ∉ E.locks w) :
    Unopposed E (h ++ [k]) ws := by
  intro us c vs heq
  obtain ⟨h₀, later, rfl, hc, hlater⟩ := hu us c vs heq
  refine ⟨h₀, later ++ [k], List.append_assoc _ _ _, hc, ?_⟩
  intro k' hk'
  rcases List.mem_append.mp hk' with hk' | hk'
  · exact hlater k' hk'
  · obtain rfl := List.mem_singleton.mp hk'
    exact hdisjoint c (by simp [heq])

end Unopposed

/-- No attempt under way has been opposed, and no commit was when it was made. -/
structure Exclusive {E : Engine σ} (K : KeyLaws E) (s : State σ I α) : Prop where
  wellFormed : WellFormed K s
  active : ∀ n a, s.active n = some a → Unopposed E s.shared.history a.progress.writes
  committed : ∀ h k, h ++ [k] <+: s.shared.history → Unopposed E h k.writes

namespace Exclusive
variable {E : Engine σ} {K : KeyLaws E} {prog : I → Session σ α} {s t : State σ I α}

theorem initial (clock : Int) (remote : σ.Remote) :
    Exclusive K (Transaction.initial clock remote : State σ I α) := by
  refine ⟨WellFormed.initial clock remote, ?_, ?_⟩
  · intro n a ha
    cases ha
  · intro h k hpre
    simp [Transaction.initial] at hpre

theorem active_effect (hs : Exclusive K s) {n : Nat} {i : I} {q : Session σ α} {p p' : Progress σ}
    {sh : Shared σ I} (ha : s.active n = some ⟨i, q, p⟩) (he : Effect E n i p s.shared p' sh) :
    Unopposed E sh.history p'.writes := by
  have hown := hs.active n _ ha
  cases he with
  | quiet hws _ hh => exact hh ▸ hws ▸ hown
  | wrote c hws _ _ hok hh => exact hh ▸ hws ▸ hown.concat hok
  | committed hws => exact hws ▸ Unopposed.nil _
  | dropped hws => exact hws ▸ Unopposed.nil _

/-- What another attempt does opposes nothing: the locks of its writes are its own. -/
theorem other_effect (hs : Exclusive K s) {n m : Nat} {i : I} {q : Session σ α}
    {p p' : Progress σ} {sh : Shared σ I} {a : Attempt σ I α} (hne : m ≠ n)
    (hm : s.active m = some a) (ha : s.active n = some ⟨i, q, p⟩)
    (he : Effect E n i p s.shared p' sh) : Unopposed E sh.history a.progress.writes := by
  have hold := hs.active m a hm
  cases he with
  | quiet _ _ hh => exact hh ▸ hold
  | wrote _ _ _ _ _ hh => exact hh ▸ hold
  | dropped _ _ hh => exact hh ▸ hold
  | committed _ _ hh =>
    rw [hh]
    refine hold.commit fun c hc w hw l hlc hlw => hne ?_
    have hm' := hs.wellFormed.owned m a hm c hc l hlc
    have hn' := hs.wellFormed.owned n _ ha w hw l hlw
    exact Option.some.inj (hm'.symm.trans hn')

theorem committed_effect (hs : Exclusive K s) {n : Nat} {i : I} {q : Session σ α}
    {p p' : Progress σ} {sh : Shared σ I} (ha : s.active n = some ⟨i, q, p⟩)
    (he : Effect E n i p s.shared p' sh) :
    ∀ h k, h ++ [k] <+: sh.history → Unopposed E h k.writes := by
  cases he with
  | quiet _ _ hh => exact hh ▸ hs.committed
  | wrote _ _ _ _ _ hh => exact hh ▸ hs.committed
  | dropped _ _ hh => exact hh ▸ hs.committed
  | committed _ _ hh =>
    rw [hh]
    intro h k hpre
    rcases List.prefix_concat_iff.mp hpre with heq | hold
    · obtain ⟨rfl, hlast⟩ := List.append_inj' heq rfl
      cases hlast
      exact hs.active n _ ha
    · exact hs.committed h k hold

theorem leave (hs : Exclusive K s) (n : Nat) : Exclusive K (s.leave n) := by
  refine ⟨hs.wellFormed.leave n, fun m a ha => ?_, hs.committed⟩
  rcases update_eq_some ha with ⟨_, hv⟩ | ⟨_, ha⟩
  · cases hv
  · exact hs.active m a ha

theorem step {l : Label σ I} (hs : Exclusive K s) (hst : step E prog s l = some t) :
    Exclusive K t := by
  have hwf := hs.wellFormed.step hst
  cases l with
  | start i =>
    obtain rfl := step_start hst
    refine ⟨hwf, fun n a ha => ?_, hs.committed⟩
    rcases update_eq_some ha with ⟨rfl, hv⟩ | ⟨_, ha⟩
    · cases hv
      exact Unopposed.nil _
    · exact hs.active n a ha
  | exec n choice =>
    obtain ⟨i, o, k, p, r, p', sh, ha, hr, rfl⟩ := step_exec hst
    have he := respond_effect hr
    refine ⟨hwf, fun m a hm => ?_, hs.committed_effect ha he⟩
    rcases update_eq_some hm with ⟨rfl, hv⟩ | ⟨hne, hm⟩
    · cases hv
      exact hs.active_effect ha he
    · exact hs.other_effect hne hm ha he
  | finish n =>
    obtain ⟨i, q, p, r, _, _, rfl⟩ := step_finish hst
    exact ⟨hwf, (hs.leave n).active, hs.committed⟩
  | crash n =>
    obtain ⟨_, _, rfl⟩ := step_crash hst
    exact hs.leave n
  | tick d =>
    cases hst
    exact ⟨hwf, hs.active, hs.committed⟩
  | remote r =>
    cases hst
    exact ⟨hwf, hs.active, hs.committed⟩

end Exclusive

/-- What a commit writes was let through, and nobody has written under its locks since. -/
theorem Reachable.unopposed {E : Engine σ} (K : KeyLaws E) {prog : I → Session σ α}
    {s : State σ I α} (hs : Reachable E prog s) {h : List (Commit σ I)} {k : Commit σ I}
    (hpre : h ++ [k] <+: s.shared.history) : Unopposed E h k.writes := by
  obtain ⟨clock, remote, hs⟩ := hs
  have hinv : Exclusive K s :=
    hs.invariant (Exclusive.initial clock remote) fun _ _ _ hs hst => hs.step hst
  exact hinv.committed h k hpre

end Transaction
