import EcommerceIntegration.Library.Solo
import Mathlib.Data.List.Forall2

/-!
# Two runs of related programs

A coupling says which databases, changes and identity values of two runs correspond.
Programs are related when they perform corresponding operations as long as they get
corresponding answers. Such programs, answered alike, stay in step; and where everything
corresponds to itself, a program only ever uses what it has been given.
-/

namespace Transaction

set_option autoImplicit false

variable {σ : Signature} {I α β γ δ : Type}

structure Coupling (E : Engine σ) where
  db : σ.Db → σ.Db → Prop
  change : Change σ → Change σ → Prop
  id : σ.Table → Nat → Nat → Prop
  lock : σ.Lock → σ.Lock → Prop
  /-- the requests to the remote store, which both runs make -/
  request : σ.Request → Prop
  remote : σ.Remote → σ.Remote → Prop

namespace Coupling

variable {E : Engine σ} (S : Coupling E)

/-- The operations correspond, and `Q` holds of corresponding answers. -/
def Answers : (o o' : Op σ) → (Except (Exn σ) o.Res → Except (Exn σ) o'.Res → Prop) → Prop
  | .select, .select, Q =>
    (∀ d d', S.db d d' → Q (.ok d) (.ok d')) ∧ ∀ e, Q (.error e) (.error e)
  | .insert row, .insert row', Q =>
    E.table row = E.table row' ∧
    (∀ a b, S.id (E.table row) a b →
      S.change (.inserted row a) (.inserted row' b) ∧ Q (.ok a) (.ok b)) ∧
    ∀ e, Q (.error e) (.error e)
  | .execute stmt, .execute stmt', Q =>
    S.change (.executed stmt) (.executed stmt') ∧ ∀ r, Q r r
  | .now, .now, Q => ∀ r, Q r r
  | .commit, .commit, Q => ∀ r, Q r r
  | .rollback, .rollback, Q => ∀ r, Q r r
  | .request x, .request x', Q => x = x' ∧ S.request x ∧ ∀ r, Q r r
  | _, _, _ => False

/-- `Q` holds of corresponding results; the exceptions are the same. -/
def Related (Q : α → β → Prop) : Session σ α → Session σ β → Prop
  | .done a, .done b => Q a b
  | .raise e, .raise e' => e = e'
  | .call o k, .call o' k' => S.Answers o o' fun r r' => Related Q (k r) (k' r')
  | _, _ => False

variable {S}

theorem Answers.mono {o o' : Op σ}
    {Q Q' : Except (Exn σ) o.Res → Except (Exn σ) o'.Res → Prop} (hQ : ∀ r r', Q r r' → Q' r r')
    (h : S.Answers o o' Q) : S.Answers o o' Q' := by
  cases o <;> cases o' <;> first | exact h.elim | skip
  case select.select => exact ⟨fun d d' hd => hQ _ _ (h.1 d d' hd), fun e => hQ _ _ (h.2 e)⟩
  case insert.insert =>
    exact ⟨h.1, fun a b hab => ⟨(h.2.1 a b hab).1, hQ _ _ (h.2.1 a b hab).2⟩,
      fun e => hQ _ _ (h.2.2 e)⟩
  case execute.execute => exact ⟨h.1, fun r => hQ _ _ (h.2 r)⟩
  case request.request => exact ⟨h.1, h.2.1, fun r => hQ _ _ (h.2.2 r)⟩
  all_goals exact fun r => hQ _ _ (h r)

theorem Related.mono {Q Q' : α → β → Prop} (hQ : ∀ a b, Q a b → Q' a b) {q : Session σ α}
    {q' : Session σ β} (h : S.Related Q q q') : S.Related Q' q q' := by
  induction q generalizing q' with
  | done a =>
    cases q' with
    | done b => exact hQ a b h
    | raise | call => exact h.elim
  | raise e =>
    cases q' with
    | raise e' => exact h
    | done | call => exact h.elim
  | call o k ih =>
    cases q' with
    | call o' k' => exact Answers.mono (fun r r' hr => ih r hr) h
    | done | raise => exact h.elim

theorem Related.andThen {Q : α → β → Prop} {Q' : γ → δ → Prop} {q : Session σ α}
    {q' : Session σ β} {f : α → Session σ γ} {f' : β → Session σ δ} (h : S.Related Q q q')
    (hf : ∀ a b, Q a b → S.Related Q' (f a) (f' b)) :
    S.Related Q' (q.andThen f) (q'.andThen f') := by
  induction q generalizing q' with
  | done a =>
    cases q' with
    | done b => exact hf a b h
    | raise | call => exact h.elim
  | raise e =>
    cases q' with
    | raise e' => exact h
    | done | call => exact h.elim
  | call o k ih =>
    cases q' with
    | call o' k' => exact Answers.mono (fun r r' hr => ih r hr) h
    | done | raise => exact h.elim

theorem Related.handle {Q : α → β → Prop} {q : Session σ α} {q' : Session σ β}
    {g : Exn σ → Session σ α} {g' : Exn σ → Session σ β} (h : S.Related Q q q')
    (hg : ∀ e, S.Related Q (g e) (g' e)) : S.Related Q (q.handle g) (q'.handle g') := by
  induction q generalizing q' with
  | done a =>
    cases q' with
    | done b => exact h
    | raise | call => exact h.elim
  | raise e =>
    cases q' with
    | raise e' =>
      obtain rfl : e = e' := h
      exact hg e
    | done | call => exact h.elim
  | call o k ih =>
    cases q' with
    | call o' k' => exact Answers.mono (fun r r' hr => ih r hr) h
    | done | raise => exact h.elim

theorem Related.perform {o o' : Op σ} {Q : o.Res → o'.Res → Prop}
    (h : S.Answers o o' fun r r' =>
      match r, r' with
      | .ok a, .ok b => Q a b
      | .error e, .error e' => e = e'
      | _, _ => False) :
    S.Related Q (Program.perform o) (Program.perform o') := by
  refine Answers.mono (fun r r' hr => ?_) h
  cases r <;> cases r' <;> exact hr

/-- A program that has ended is related to what has ended alike. -/
theorem Related.ofExcept {r : Except (Exn σ) α} {q : Session σ α}
    (h : S.Related Eq (Program.ofExcept r) q) : q = Program.ofExcept r := by
  cases r with
  | error e =>
    cases q with
    | raise e' => exact congrArg Program.raise h.symm
    | done | call => exact h.elim
  | ok a =>
    cases q with
    | done b => exact congrArg Program.done h.symm
    | raise | call => exact h.elim

theorem Related.ofExcept_right {r : Except (Exn σ) α} {q : Session σ α}
    (h : S.Related Eq q (Program.ofExcept r)) : q = Program.ofExcept r := by
  cases r with
  | error e =>
    cases q with
    | raise e' => exact congrArg Program.raise h
    | done | call => exact h.elim
  | ok a =>
    cases q with
    | done b => exact congrArg Program.done h
    | raise | call => exact h.elim

/-- What the engine does with corresponding changes. -/
structure Laws (S : Coupling E) : Prop where
  apply : ∀ {d d' c c'}, S.db d d' → S.change c c' → S.db (E.apply d c) (E.apply d' c')
  locks : ∀ {c c'}, S.change c c' → List.Forall₂ S.lock (E.locks c) (E.locks c')

theorem Laws.replay (hS : S.Laws) {d d' : σ.Db} {ws ws' : List (Change σ)} (hd : S.db d d')
    (hws : List.Forall₂ S.change ws ws') : S.db (E.replay d ws) (E.replay d' ws') := by
  induction hws generalizing d d' with
  | nil => exact hd
  | cons hc _ ih => exact ih (hS.apply hd hc)

end Coupling

/-! ## Two attempts that are answered alike -/

/-- Nobody but the attempt `n` holds the lock. -/
def Shared.mine (sh : Shared σ I) (n : Nat) (l : σ.Lock) : Prop :=
  ∀ m, sh.owner l = some m → m = n

/-- The attempts `n` and `n'` have done the same so far, in corresponding states. -/
structure Paired {E : Engine σ} (S : Coupling E) (n n' : Nat) (p p' : Progress σ)
    (sh sh' : Shared σ I) : Prop where
  base : S.db (E.state sh.history) (E.state sh'.history)
  writes : List.Forall₂ S.change p.writes p'.writes
  committed : List.Forall₂ (List.Forall₂ S.change) p.committed p'.committed
  requests : p.requests = p'.requests
  identity : ∀ t k, S.id t (sh.identity t + k) (sh'.identity t + k)
  clock : sh.clock = sh'.clock
  free : ∀ l l', S.lock l l' → (sh.mine n l ↔ sh'.mine n' l')
  remote : S.remote sh.remote sh'.remote

structure Coupling.Steps {E : Engine σ} (S : Coupling E) : Prop extends S.Laws where
  violated : ∀ {d d' c c'}, S.db d d' → S.change c c' → E.violated d c = E.violated d' c'
  lock_unique : ∀ {a a' b b'}, S.lock a a' → S.lock b b' → (a = b ↔ a' = b')
  perform : ∀ {r r' x}, S.remote r r' → S.request x →
    (E.perform r x).2 = (E.perform r' x).2 ∧ S.remote (E.perform r x).1 (E.perform r' x).1

section Lockstep
variable {E : Engine σ} {S : Coupling E} {n n' : Nat} {i i' : I} {p p' : Progress σ}
  {sh sh' : Shared σ I}

theorem Paired.view (hS : S.Laws) (h : Paired S n n' p p' sh sh') :
    S.db (E.view sh.history p.writes) (E.view sh'.history p'.writes) :=
  hS.replay h.base h.writes

theorem mine_release {l : σ.Lock} : (sh.release n).mine n l ↔ sh.mine n l := by
  constructor
  · intro h m hm
    by_contra hne
    exact hne (h m (Shared.release_owner hne hm))
  · intro h m hm
    by_contra hne
    exact hne (h m ((release_owner_iff hne l).mp hm))

theorem mine_acquire {ls : List σ.Lock} {l : σ.Lock} :
    (sh.acquire n ls).mine n l ↔ l ∈ ls ∨ sh.mine n l := by
  unfold Shared.mine
  simp only [Shared.acquire]
  by_cases hl : l ∈ ls
  · simp only [hl, if_true, true_or, iff_true]
    exact fun m hm => (Option.some.inj hm).symm
  · simp only [hl, if_false, false_or]

theorem free_iff_mine {ls : List σ.Lock} : sh.free n ls = true ↔ ∀ l ∈ ls, sh.mine n l :=
  Shared.free_iff

theorem forall₂_forall {P P' : σ.Lock → Prop} {R : σ.Lock → σ.Lock → Prop} {ls ls' : List σ.Lock}
    (hls : List.Forall₂ R ls ls') (h : ∀ l l', R l l' → (P l ↔ P' l')) :
    (∀ l ∈ ls, P l) ↔ ∀ l ∈ ls', P' l := by
  induction hls with
  | nil => simp
  | cons hl _ ih => simp [ih, h _ _ hl]

theorem forall₂_mem (hS : S.Steps) {l l' : σ.Lock} {ls ls' : List σ.Lock} (hl : S.lock l l')
    (hls : List.Forall₂ S.lock ls ls') : l ∈ ls ↔ l' ∈ ls' := by
  induction hls with
  | nil => simp
  | cons hfirst _ ih => simp [ih, hS.lock_unique hl hfirst]

theorem forall₂_self {R : σ.Lock → σ.Lock → Prop} {l : σ.Lock} {ls : List σ.Lock}
    (hls : List.Forall₂ R ls ls) (hl : l ∈ ls) : R l l :=
  List.forall₂_same.mp hls l hl

/-- Corresponding answers, and the attempts stay paired. -/
def Pairs (S : Coupling E) (n n' : Nat) {ρ ρ' : Type} (Q : ρ → ρ' → Prop)
    (x : ρ × Progress σ × Shared σ I) (x' : ρ' × Progress σ × Shared σ I) : Prop :=
  Q x.1 x'.1 ∧ Paired S n n' x.2.1 x'.2.1 x.2.2 x'.2.2

theorem Paired.put (hS : S.Steps) (h : Paired S n n' p p' sh sh') {c c' : Change σ}
    (hc : S.change c c') {Q : Except (Exn σ) Unit → Except (Exn σ) Unit → Prop}
    (hQ : ∀ r, Q r r) :
    Option.Rel (Pairs S n n' Q) (E.put n c p sh) (E.put n' c' p' sh') := by
  have hfree : sh.free n (E.locks c) = sh'.free n' (E.locks c') := by
    rw [Bool.eq_iff_iff, free_iff_mine, free_iff_mine]
    exact forall₂_forall (hS.locks hc) h.free
  unfold Engine.put
  rw [← hfree, ← hS.violated (h.view hS.toLaws) hc]
  split
  · cases E.violated (E.view sh.history p.writes) c with
    | some k => exact .some ⟨hQ _, { h with }⟩
    | none =>
      refine .some ⟨hQ _, { h with writes := ?_, free := fun l l' hl => ?_ }⟩
      · exact List.rel_append h.writes (.cons hc .nil)
      · rw [mine_acquire, mine_acquire, forall₂_mem hS hl (hS.locks hc), h.free l l' hl]
  · exact .none

theorem Paired.rollback (h : Paired S n n' p p' sh sh') :
    Paired S n n' p.rollback p'.rollback (sh.release n) (sh'.release n') :=
  { h with
    writes := .nil
    free := fun l l' hl => by rw [mine_release, mine_release, h.free l l' hl] }

theorem Paired.commit (hS : S.Laws) (h : Paired S n n' p p' sh sh') :
    Paired S n n' p.commit p'.commit
      (Shared.release { sh with history := sh.history ++ [⟨n, i, sh.clock, p.writes⟩] } n)
      (Shared.release { sh' with history := sh'.history ++ [⟨n', i', sh'.clock, p'.writes⟩] } n') where
  base := by
    simp only [Shared.release, Engine.state_concat]
    exact h.view hS
  writes := .nil
  committed := List.rel_append h.committed (.cons h.writes .nil)
  requests := h.requests
  identity := h.identity
  clock := h.clock
  free l l' hl := by
    rw [mine_release, mine_release]
    exact h.free l l' hl
  remote := h.remote

variable (i i') in
theorem Paired.respond (hS : S.Steps) (h : Paired S n n' p p' sh sh') {o o' : Op σ}
    {Q : Except (Exn σ) o.Res → Except (Exn σ) o'.Res → Prop} (ho : S.Answers o o' Q)
    (choice : Choice) :
    Option.Rel (Pairs S n n' Q) (E.respond n i p sh o choice)
      (E.respond n' i' p' sh' o' choice) := by
  cases o <;> cases o' <;> first | exact ho.elim | skip
  case select.select =>
    cases choice with
    | ok => exact .some ⟨ho.1 _ _ (h.view hS.toLaws), h⟩
    | fault m applied => exact .some ⟨ho.2 _, h⟩
  case insert.insert row row' =>
    obtain ⟨htable, hids, herr⟩ := ho
    cases choice with
    | ok =>
      have hid : S.id (E.table row) (sh.identity (E.table row)) (sh'.identity (E.table row)) :=
        h.identity (E.table row) 0
      obtain ⟨hchange, hok⟩ := hids _ _ hid
      have hused : Paired S n n' p p'
          { sh with
            identity := Function.update sh.identity (E.table row) (sh.identity (E.table row) + 1) }
          { sh' with
            identity :=
              Function.update sh'.identity (E.table row) (sh'.identity (E.table row) + 1) } := by
        refine { h with identity := fun t k => ?_ }
        by_cases ht : t = E.table row
        · subst ht
          simp only [Function.update_self, Nat.add_assoc]
          exact h.identity _ _
        · simp only [Function.update_of_ne ht]
          exact h.identity t k
      have hput := hused.put hS hchange (Q := fun r r' =>
        Q (r.map fun _ => sh.identity (E.table row)) (r'.map fun _ => sh'.identity (E.table row)))
        fun r => by
          cases r with
          | ok u => exact hok
          | error e => exact herr e
      simp only [Engine.respond, ← htable]
      generalize E.put n (.inserted row (sh.identity (E.table row))) p _ = x at hput
      generalize E.put n' (.inserted row' (sh'.identity (E.table row))) p' _ = x' at hput
      cases hput with
      | none => exact .none
      | some hpair => exact .some ⟨hpair.1, hpair.2⟩
    | fault m applied => exact .some ⟨herr _, h⟩
  case execute.execute stmt stmt' =>
    cases choice with
    | ok => exact h.put hS ho.1 ho.2
    | fault m applied => exact .some ⟨ho.2 _, h⟩
  case now.now =>
    cases choice with
    | ok =>
      refine .some ⟨?_, h⟩
      rw [h.clock]
      exact ho _
    | fault m applied => exact .none
  case commit.commit =>
    cases choice with
    | ok => exact .some ⟨ho _, h.commit hS.toLaws⟩
    | fault m applied => exact .some ⟨ho _, h.rollback⟩
  case rollback.rollback =>
    cases choice with
    | ok => exact .some ⟨ho _, h.rollback⟩
    | fault m applied => exact .none
  case request.request x x' =>
    obtain ⟨rfl, hx, ho⟩ := ho
    obtain ⟨hreply, hremote⟩ := hS.perform h.remote hx
    cases choice with
    | ok =>
      simp only [Engine.respond]
      rw [← hreply]
      exact .some ⟨ho _, { h with requests := by simp [Progress.request, h.requests], remote := hremote }⟩
    | fault m applied =>
      refine .some ⟨ho _, ?_⟩
      cases applied with
      | true =>
        exact { h with requests := by simp [Progress.request, h.requests], remote := hremote }
      | false => exact { h with requests := by simp [Progress.request, h.requests] }

variable (i i') in
/-- Related programs that are answered alike go on together: neither blocks or ends alone. -/
theorem Paired.follow (hS : S.Steps) {Q : α → β → Prop} (ms : List Move) {q : Session σ α}
    {q' : Session σ β} (hq : S.Related Q q q') (h : Paired S n n' p p' sh sh') :
    Option.Rel (Pairs S n n' (S.Related Q)) (E.follow n i ms q p sh)
      (E.follow n' i' ms q' p' sh') := by
  induction ms generalizing q q' p p' sh sh' with
  | nil => exact .some ⟨hq, h⟩
  | cons m ms ih =>
    cases m with
    | wait d => exact ih hq { h with clock := by simp [h.clock] }
    | answer choice =>
      cases q <;> cases q' <;> first | exact hq.elim | skip
      case done.done => exact .none
      case raise.raise => exact .none
      case call.call o k o' k' =>
        have hanswer := h.respond i i' hS hq choice
        simp only [Engine.follow]
        generalize E.respond n i p sh o choice = x at hanswer
        generalize E.respond n' i' p' sh' o' choice = x' at hanswer
        cases hanswer with
        | none => exact .none
        | some hpair => exact ih hpair.1 hpair.2

end Lockstep

/-! ## Where everything corresponds to itself -/

/-- What the attempt sees and what is locked corresponds to itself. -/
structure Grounded {E : Engine σ} (S : Coupling E) (p : Progress σ) (sh : Shared σ I) :
    Prop where
  base : S.db (E.state sh.history) (E.state sh.history)
  writes : List.Forall₂ S.change p.writes p.writes
  locks : ∀ l m, sh.owner l = some m → S.lock l l

structure AllGrounded {E : Engine σ} (S : Coupling E) (s : State σ I α) : Prop where
  base : S.db (E.state s.shared.history) (E.state s.shared.history)
  locks : ∀ l m, s.shared.owner l = some m → S.lock l l
  writes : ∀ n a, s.active n = some a → List.Forall₂ S.change a.progress.writes a.progress.writes
  programs : ∀ n a, s.active n = some a → S.Related (fun _ _ => True) a.program a.program

section Grounded
variable {E : Engine σ} {S : Coupling E} {n : Nat} {i : I} {p p' : Progress σ}
  {sh sh' : Shared σ I}

theorem release_locks (h : ∀ l m, sh.owner l = some m → S.lock l l) :
    ∀ l m, (sh.release n).owner l = some m → S.lock l l := by
  intro l m hm
  simp only [Shared.release] at hm
  split at hm
  · cases hm
  · exact h l m hm

theorem Grounded.rollback (h : Grounded S p sh) : Grounded S p.rollback (sh.release n) :=
  ⟨h.base, .nil, release_locks h.locks⟩

theorem Grounded.put (hS : S.Laws) (h : Grounded S p sh) {c : Change σ} (hc : S.change c c)
    {r : Except (Exn σ) Unit} (hput : E.put n c p sh = some (r, p', sh')) : Grounded S p' sh' := by
  unfold Engine.put at hput
  split at hput
  · split at hput
    · cases hput
      exact { h with }
    · cases hput
      refine ⟨h.base, List.rel_append h.writes (.cons hc .nil), fun l m hm => ?_⟩
      simp only [Shared.acquire] at hm
      split at hm
      · rename_i hl
        exact forall₂_self (hS.locks hc) hl
      · exact h.locks l m hm
  · cases hput

/-- The identity values that have been handed out correspond to themselves. -/
theorem Grounded.respond (hS : S.Laws) (h : Grounded S p sh) {o : Op σ}
    {Q : Except (Exn σ) o.Res → Except (Exn σ) o.Res → Prop} (ho : S.Answers o o Q)
    {choice : Choice} {r : Except (Exn σ) o.Res}
    (hr : E.respond n i p sh o choice = some (r, p', sh'))
    (hid : ∀ t a, a < sh'.identity t → S.id t a a) : Q r r ∧ Grounded S p' sh' := by
  cases o with
  | select =>
    cases choice <;> cases hr
    · exact ⟨ho.1 _ _ (hS.replay h.base h.writes), h⟩
    · exact ⟨ho.2 _, h⟩
  | insert row =>
    obtain ⟨_, hids, herr⟩ := ho
    cases choice with
    | ok =>
      obtain ⟨⟨r', p₁, sh₁⟩, hput, heq⟩ := Option.map_eq_some_iff.mp hr
      cases heq
      have hlt : sh.identity (E.table row) < sh'.identity (E.table row) := by
        unfold Engine.put at hput
        split at hput
        · split at hput <;> cases hput <;> simp [Shared.acquire]
        · cases hput
      obtain ⟨hchange, hok⟩ := hids _ _ (hid _ _ hlt)
      have hused : Grounded S p
          { sh with
            identity :=
              Function.update sh.identity (E.table row) (sh.identity (E.table row) + 1) } :=
        { h with }
      refine ⟨?_, hused.put hS hchange hput⟩
      cases r' with
      | ok u => exact hok
      | error e => exact herr e
    | fault m applied =>
      cases hr
      exact ⟨herr _, h⟩
  | execute stmt =>
    cases choice with
    | ok => exact ⟨ho.2 r, h.put hS ho.1 hr⟩
    | fault m applied =>
      cases hr
      exact ⟨ho.2 _, h⟩
  | now =>
    cases choice <;> cases hr
    exact ⟨ho _, h⟩
  | commit =>
    cases choice <;> cases hr
    · refine ⟨ho _, ?_, .nil, release_locks h.locks⟩
      simp only [Shared.release, Engine.state_concat]
      exact hS.replay h.base h.writes
    · exact ⟨ho _, h.rollback⟩
  | rollback =>
    cases choice <;> cases hr
    exact ⟨ho _, h.rollback⟩
  | request x =>
    cases choice with
    | ok =>
      cases hr
      exact ⟨ho.2.2 _, { h with }⟩
    | fault m applied =>
      cases hr
      refine ⟨ho.2.2 _, ?_⟩
      cases applied <;> exact { h with }

variable {prog : I → Session σ α} {s t : State σ I α} {l : Label σ I}

theorem step_identity (hst : step E prog s l = some t) (τ : σ.Table) :
    s.shared.identity τ ≤ t.shared.identity τ := by
  cases l with
  | exec n choice =>
    obtain ⟨i, o, k, p, r, p', sh, _, hr, rfl⟩ := step_exec hst
    cases respond_effect hr with
    | quiet _ _ _ _ _ hid => exact hid τ
    | wrote _ _ _ _ _ _ _ _ hid => exact hid τ
    | committed _ _ _ _ _ hid => exact Nat.le_of_eq (congrFun hid τ).symm
    | dropped _ _ _ _ _ hid => exact Nat.le_of_eq (congrFun hid τ).symm
  | start i =>
    rw [step_start hst]
  | finish n =>
    obtain ⟨_, _, _, _, _, _, rfl⟩ := step_finish hst
    exact Nat.le_refl _
  | crash n =>
    obtain ⟨_, _, rfl⟩ := step_crash hst
    exact Nat.le_refl _
  | tick | remote =>
    cases hst
    exact Nat.le_refl _

theorem AllGrounded.leave (h : AllGrounded S s) (n : Nat) : AllGrounded S (s.leave n) where
  base := h.base
  locks := release_locks h.locks
  writes m a ha := by
    rcases update_eq_some ha with ⟨_, hv⟩ | ⟨_, ha⟩
    · cases hv
    · exact h.writes m a ha
  programs m a ha := by
    rcases update_eq_some ha with ⟨_, hv⟩ | ⟨_, ha⟩
    · cases hv
    · exact h.programs m a ha

theorem AllGrounded.step (hS : S.Laws)
    (hprog : ∀ i, S.Related (fun _ _ => True) (prog i) (prog i)) (h : AllGrounded S s)
    (hst : step E prog s l = some t) (hid : ∀ τ a, a < t.shared.identity τ → S.id τ a a) :
    AllGrounded S t := by
  cases l with
  | start i =>
    rw [step_start hst]
    refine { h with writes := fun m a ha => ?_, programs := fun m a ha => ?_ }
    · rcases update_eq_some ha with ⟨_, hv⟩ | ⟨_, ha⟩
      · cases hv
        exact .nil
      · exact h.writes m a ha
    · rcases update_eq_some ha with ⟨_, hv⟩ | ⟨_, ha⟩
      · cases hv
        exact hprog i
      · exact h.programs m a ha
  | exec n choice =>
    obtain ⟨i, o, k, p, r, p', sh, ha, hr, rfl⟩ := step_exec hst
    obtain ⟨hq, hbase, hwrites, hlocks⟩ :=
      Grounded.respond hS ⟨h.base, h.writes n _ ha, h.locks⟩ (h.programs n _ ha) hr hid
    refine ⟨hbase, hlocks, fun m a hm => ?_, fun m a hm => ?_⟩
    · rcases update_eq_some hm with ⟨_, hv⟩ | ⟨_, hm⟩
      · cases hv
        exact hwrites
      · exact h.writes m a hm
    · rcases update_eq_some hm with ⟨_, hv⟩ | ⟨_, hm⟩
      · cases hv
        exact hq
      · exact h.programs m a hm
  | finish n =>
    obtain ⟨_, _, _, _, _, _, rfl⟩ := step_finish hst
    exact { h.leave n with }
  | crash n =>
    obtain ⟨_, _, rfl⟩ := step_crash hst
    exact h.leave n
  | tick | remote =>
    cases hst
    exact { h with }

/-- Where all identity values that have been handed out correspond to themselves, so does
all that is stored, pending or locked. -/
theorem Reachable.grounded (hS : S.Laws)
    (hprog : ∀ i, S.Related (fun _ _ => True) (prog i) (prog i)) (hempty : S.db E.empty E.empty)
    (hs : Reachable E prog s) (hid : ∀ τ a, a < s.shared.identity τ → S.id τ a a) :
    AllGrounded S s := by
  obtain ⟨clock, remote, hs⟩ := hs
  refine @Transition.Reachable.invariant _ _ _
    (fun s => (∀ τ a, a < s.shared.identity τ → S.id τ a a) → AllGrounded S s) _ _ hs ?_ ?_ hid
  · intro _
    refine ⟨hempty, ?_, ?_, ?_⟩ <;> simp [initial]
  · intro s l t hinv hst hid
    refine (hinv fun τ a ha => hid τ a ?_).step hS hprog hst hid
    exact Nat.lt_of_lt_of_le ha (step_identity hst τ)

end Grounded

end Transaction
