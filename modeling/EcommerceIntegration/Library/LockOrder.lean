import EcommerceIntegration.Library.Solo
import Mathlib.Algebra.BigOperators.Group.Finset.Basic
import Mathlib.Algebra.Order.Group.Multiset
import Mathlib.Data.Finset.Max
import Mathlib.Logic.Hydra

/-!
# Locks that are taken in one order

Each lock has a rank. A program ascends when every lock it may have to wait for ranks
above all locks it holds then. The lock of a row that is being inserted is no lock to
wait for: its identity value is new, provided that rows are only named by values that
a query has shown. Attempts whose programs ascend do not wait for each other in a
cycle, so one of them can always go on, and as programs are finite all of them end.
-/

namespace Transaction

set_option autoImplicit false

variable {σ : Signature} {I α β : Type}

/-- The lock of a row, and the rank of every lock. -/
structure LockOrder (E : Engine σ) where
  row : σ.Table → Nat → σ.Lock
  rank : σ.Lock → Nat
  row_inserted : ∀ t j r id, row t j ∈ E.locks (.inserted r id) → t = E.table r ∧ j = id

/-- Rows by their identity values. -/
abbrev Rows (σ : Signature) := σ.Table → Nat → Prop

abbrev AscentPost (σ : Signature) (α : Type) := Nat → Rows σ → Except (Exn σ) α → Prop

section Ascent
variable {E : Engine σ} (K : KeyLaws E) (L : LockOrder E)

namespace LockOrder

/-- All locks that the change may have to wait for rank at `height` or above it. -/
def Clears (height : Nat) (c : Change σ) : Prop :=
  ∀ l ∈ E.locks c,
    (∃ r id, c = .inserted r id ∧ l = L.row (E.table r) id) ∨ height ≤ L.rank l

/-- All locks of the change and all below `height` rank below it. -/
def above (height : Nat) (c : Change σ) : Nat :=
  (E.locks c).foldr (fun l top => max (L.rank l + 1) top) height

/-- The rows that a statement names are known. -/
def Names (known : Rows σ) (c : Change σ) : Prop :=
  ∀ t j, L.row t j ∈ E.locks c → known t j

end LockOrder

/-- The rows that are known once the database has been seen. -/
def Rows.seen (known : Rows σ) (d : σ.Db) : Rows σ := fun t j => known t j ∨ j ∈ K.ids d t

/-- The operation may be performed while the locks held rank below `height`, and `Q` holds
after it whatever the answer is. -/
def Ascent (height : Nat) (known : Rows σ) : (o : Op σ) → AscentPost σ o.Res → Prop
  | .select, Q => (∀ d, Q height (known.seen K d) (.ok d)) ∧ ∀ m, Q height known (.error (.fault m))
  | .insert r, Q => ∀ id, L.Clears height (.inserted r id) ∧
    Q (L.above height (.inserted r id)) known (.ok id) ∧ ∀ e, Q height known (.error e)
  | .execute stmt, Q => L.Clears height (.executed stmt) ∧ L.Names known (.executed stmt) ∧
    Q (L.above height (.executed stmt)) known (.ok ()) ∧ ∀ e, Q height known (.error e)
  | .now, Q => ∀ t, Q height known (.ok t)
  | .commit, Q => Q 0 known (.ok ()) ∧ ∀ m, Q 0 known (.error (.fault m))
  | .rollback, Q => Q 0 known (.ok ())
  | .request _, Q => (∀ b, Q height known (.ok b)) ∧ ∀ m, Q height known (.error (.fault m))

/-- Whatever the answers are, the program waits only for locks above those it holds. -/
def Ascends : Session σ α → Nat → Rows σ → AscentPost σ α → Prop
  | .done a, height, known, Q => Q height known (.ok a)
  | .raise e, height, known, Q => Q height known (.error e)
  | .call o k, height, known, Q =>
    Ascent K L height known o fun height' known' r => Ascends (k r) height' known' Q

variable {K L}

theorem ascent_mono {height : Nat} {known : Rows σ} {o : Op σ} {Q Q' : AscentPost σ o.Res}
    (hQ : ∀ h kn r, Q h kn r → Q' h kn r) (ha : Ascent K L height known o Q) :
    Ascent K L height known o Q' := by
  cases o with
  | select => exact ⟨fun d => hQ _ _ _ (ha.1 d), fun m => hQ _ _ _ (ha.2 m)⟩
  | insert r =>
    intro id
    obtain ⟨hclears, hok, herror⟩ := ha id
    exact ⟨hclears, hQ _ _ _ hok, fun e => hQ _ _ _ (herror e)⟩
  | execute stmt =>
    obtain ⟨hclears, hnames, hok, herror⟩ := ha
    exact ⟨hclears, hnames, hQ _ _ _ hok, fun e => hQ _ _ _ (herror e)⟩
  | now => exact fun t => hQ _ _ _ (ha t)
  | commit => exact ⟨hQ _ _ _ ha.1, fun m => hQ _ _ _ (ha.2 m)⟩
  | rollback => exact hQ _ _ _ ha
  | request x => exact ⟨fun b => hQ _ _ _ (ha.1 b), fun m => hQ _ _ _ (ha.2 m)⟩

theorem Ascends.mono {q : Session σ α} {height : Nat} {known : Rows σ} {Q Q' : AscentPost σ α}
    (hQ : ∀ h kn r, Q h kn r → Q' h kn r) (hq : Ascends K L q height known Q) :
    Ascends K L q height known Q' := by
  induction q generalizing height known with
  | done a => exact hQ _ _ _ hq
  | raise e => exact hQ _ _ _ hq
  | call o k ih => exact ascent_mono (fun _ _ r => ih r) hq

theorem Ascends.andThen {q : Session σ α} {f : α → Session σ β} {height : Nat} {known : Rows σ}
    {Q : AscentPost σ β}
    (hq : Ascends K L q height known fun h kn r =>
      match r with
      | .ok a => Ascends K L (f a) h kn Q
      | .error e => Q h kn (.error e)) :
    Ascends K L (q.andThen f) height known Q := by
  induction q generalizing height known with
  | done a => exact hq
  | raise e => exact hq
  | call o k ih => exact ascent_mono (fun _ _ r => ih r) hq

theorem Ascends.handle {q : Session σ α} {g : Exn σ → Session σ α} {height : Nat}
    {known : Rows σ} {Q : AscentPost σ α}
    (hq : Ascends K L q height known fun h kn r =>
      match r with
      | .ok a => Q h kn (.ok a)
      | .error e => Ascends K L (g e) h kn Q) :
    Ascends K L (q.handle g) height known Q := by
  induction q generalizing height known with
  | done a => exact hq
  | raise e => exact hq
  | call o k ih => exact ascent_mono (fun _ _ r => ih r) hq

theorem Ascends.perform {o : Op σ} {height : Nat} {known : Rows σ} {Q : AscentPost σ o.Res}
    (hw : Ascent K L height known o Q) : Ascends K L (Program.perform o) height known Q := by
  refine ascent_mono (fun _ _ r hr => ?_) hw
  cases r <;> exact hr

/-- Operations that need no lock. -/
def Lockless : Op σ → Prop
  | .insert _ => False
  | .execute _ => False
  | _ => True

/-- A program without writes waits for no lock. -/
theorem Ascends.of_lockless {q : Session σ α} (hq : q.Uses Lockless) (height : Nat)
    (known : Rows σ) : Ascends K L q height known fun _ _ _ => True := by
  induction q generalizing height known with
  | done a => trivial
  | raise e => trivial
  | call o k ih =>
    have hnext := fun r => ih r (hq.2 r)
    cases o with
    | insert r => exact hq.1.elim
    | execute stmt => exact hq.1.elim
    | select => exact ⟨fun d => hnext _ _ _, fun m => hnext _ _ _⟩
    | now => exact fun t => hnext _ _ _
    | commit => exact ⟨hnext _ _ _, fun m => hnext _ _ _⟩
    | rollback => exact hnext _ _ _
    | request x => exact ⟨fun b => hnext _ _ _, fun m => hnext _ _ _⟩

theorem Ascends.andThen_lockless {q : Session σ α} {f : α → Session σ β} {height : Nat}
    {known : Rows σ} (hq : Ascends K L q height known fun _ _ _ => True)
    (hf : ∀ a, (f a).Uses Lockless) :
    Ascends K L (q.andThen f) height known fun _ _ _ => True := by
  refine Ascends.andThen (hq.mono fun h kn r _ => ?_)
  cases r with
  | ok a => exact Ascends.of_lockless (hf a) h kn
  | error e => trivial

theorem Ascends.handle_lockless {q : Session σ α} {g : Exn σ → Session σ α} {height : Nat}
    {known : Rows σ} (hq : Ascends K L q height known fun _ _ _ => True)
    (hg : ∀ e, (g e).Uses Lockless) :
    Ascends K L (q.handle g) height known fun _ _ _ => True := by
  refine Ascends.handle (hq.mono fun h kn r _ => ?_)
  cases r with
  | ok a => trivial
  | error e => exact Ascends.of_lockless (hg e) h kn

/-- What holds when a value is returned; nothing is said of exceptions. -/
def Returns (R : Nat → Rows σ → α → Prop) : AscentPost σ α :=
  fun height known r => ∀ a, r = .ok a → R height known a

theorem Ascends.pure {a : α} {height : Nat} {known : Rows σ} {R : Nat → Rows σ → α → Prop}
    (h : R height known a) : Ascends K L (.done a) height known (Returns R) := by
  intro b hb
  cases hb
  exact h

theorem Ascends.raise {e : Exn σ} {height : Nat} {known : Rows σ} {R : Nat → Rows σ → α → Prop} :
    Ascends K L (.raise e : Session σ α) height known (Returns R) := by
  intro b hb
  cases hb

/-- Sequencing, when all exceptions are passed on. -/
theorem Ascends.seq {q : Session σ α} {f : α → Session σ β} {height : Nat} {known : Rows σ}
    {R : Nat → Rows σ → α → Prop} {R' : Nat → Rows σ → β → Prop}
    (hq : Ascends K L q height known (Returns R))
    (hf : ∀ h kn a, R h kn a → Ascends K L (f a) h kn (Returns R')) :
    Ascends K L (q.andThen f) height known (Returns R') := by
  refine Ascends.andThen (hq.mono fun h kn r hr => ?_)
  cases r with
  | ok a => exact hf h kn a (hr a rfl)
  | error e =>
    intro b hb
    cases hb

theorem LockOrder.le_above (height : Nat) (c : Change σ) : height ≤ L.above height c := by
  unfold LockOrder.above
  induction E.locks c with
  | nil => exact Nat.le_refl _
  | cons l ls ih => exact Nat.le_trans ih (Nat.le_max_right _ _)

theorem LockOrder.rank_lt_above {height : Nat} {c : Change σ} {l : σ.Lock} (hl : l ∈ E.locks c) :
    L.rank l < L.above height c := by
  unfold LockOrder.above
  revert hl
  induction E.locks c with
  | nil =>
    intro hl
    cases hl
  | cons x ls ih =>
    intro hl
    rcases List.mem_cons.mp hl with rfl | hl
    · exact Nat.lt_of_lt_of_le (Nat.lt_succ_self _) (Nat.le_max_left _ _)
    · exact Nat.lt_of_lt_of_le (ih hl) (Nat.le_max_right _ _)

/-- The rows that are known or locked have identity values that were handed out, and the
locks of the attempt rank below `height`. -/
structure Bounded (L : LockOrder E) (sh : Shared σ I) (n height : Nat) (known : Rows σ) : Prop where
  known : ∀ t j, known t j → j < sh.identity t
  locked : ∀ t j m, sh.owner (L.row t j) = some m → j < sh.identity t
  held : ∀ l, sh.owner l = some n → L.rank l < height

namespace Bounded
variable {n : Nat} {sh sh' : Shared σ I} {height : Nat} {known : Rows σ}

theorem later (hb : Bounded L sh n height known) (howner : sh'.owner = sh.owner)
    (hid : ∀ t, sh.identity t ≤ sh'.identity t) : Bounded L sh' n height known where
  known t j hj := Nat.lt_of_lt_of_le (hb.known t j hj) (hid t)
  locked t j m hm := Nat.lt_of_lt_of_le (hb.locked t j m (howner ▸ hm)) (hid t)
  held l hl := hb.held l (howner ▸ hl)

/-- An identity value of the table is handed out. -/
theorem counted (hb : Bounded L sh n height known) (t : σ.Table) :
    Bounded L { sh with identity := Function.update sh.identity t (sh.identity t + 1) } n height
      known := by
  refine hb.later rfl fun t' => ?_
  by_cases ht : t' = t
  · simp [ht]
  · simp [ht]

theorem released (hb : Bounded L sh n height known) (howner : sh'.owner = (sh.release n).owner)
    (hid : sh'.identity = sh.identity) : Bounded L sh' n 0 known where
  known t j hj := hid ▸ hb.known t j hj
  locked t j m hm := hid ▸ hb.locked t j m (release_owner_of.mp (howner ▸ hm)).2
  held _ hl := absurd rfl (release_owner_of.mp (howner ▸ hl)).1

/-- The attempt goes up to the locks of the change. -/
theorem acquired (hb : Bounded L sh n height known) {c : Change σ}
    (hrows : ∀ t j, L.row t j ∈ E.locks c → j < sh.identity t) :
    Bounded L (sh.acquire n (E.locks c)) n (L.above height c) known where
  known := hb.known
  locked t j m hm := by
    simp only [Shared.acquire] at hm
    split at hm
    · rename_i hmem
      exact hrows t j hmem
    · exact hb.locked t j m hm
  held l hl := by
    simp only [Shared.acquire] at hl
    split at hl
    · rename_i hmem
      exact LockOrder.rank_lt_above hmem
    · exact Nat.lt_of_lt_of_le (hb.held l hl) (LockOrder.le_above height c)

end Bounded

section Answers
variable {n : Nat} {i : I} {p p' : Progress σ} {sh sh' : Shared σ I} {height : Nat}
  {known : Rows σ}

theorem put_bounded {c : Change σ} {r : Except (Exn σ) Unit} {Q : AscentPost σ Unit}
    (hput : E.put n c p sh = some (r, p', sh')) (hb : Bounded L sh n height known)
    (hrows : ∀ t j, L.row t j ∈ E.locks c → j < sh.identity t)
    (hok : Q (L.above height c) known (.ok ())) (herror : ∀ e, Q height known (.error e)) :
    ∃ height', Bounded L sh' n height' known ∧ Q height' known r := by
  unfold Engine.put at hput
  split at hput
  · split at hput
    · cases hput
      exact ⟨height, hb, herror _⟩
    · cases hput
      exact ⟨L.above height c, hb.acquired hrows, hok⟩
  · cases hput

theorem respond_bounded {o : Op σ} {choice : Choice} {r : Except (Exn σ) o.Res}
    {Q : AscentPost σ o.Res} (hr : E.respond n i p sh o choice = some (r, p', sh'))
    (hview : ∀ t, ∀ j ∈ K.ids (E.view sh.history p.writes) t, j < sh.identity t)
    (hb : Bounded L sh n height known) (ha : Ascent K L height known o Q) :
    ∃ height' known', Bounded L sh' n height' known' ∧ Q height' known' r := by
  cases o with
  | select =>
    cases choice <;> cases hr
    · refine ⟨height, _, { hb with known := fun t j hj => ?_ }, ha.1 _⟩
      exact hj.elim (hb.known t j) (hview t j)
    · exact ⟨height, known, hb, ha.2 _⟩
  | insert row =>
    cases choice with
    | ok =>
      obtain ⟨⟨r', p₁, sh₁⟩, hput, heq⟩ := Option.map_eq_some_iff.mp hr
      cases heq
      obtain ⟨_, hok, herror⟩ := ha (sh.identity (E.table row))
      have hnext := hb.counted (E.table row)
      obtain ⟨height', hb', hq⟩ := put_bounded
        (Q := fun h kn r => Q h kn (r.map fun _ => sh.identity (E.table row))) hput hnext
        (fun t j hmem => by
          obtain ⟨rfl, rfl⟩ := L.row_inserted t j row _ hmem
          simp) hok fun e => herror e
      exact ⟨height', known, hb', hq⟩
    | fault m applied =>
      cases hr
      exact ⟨height, known, hb, (ha 0).2.2 _⟩
  | execute stmt =>
    cases choice with
    | ok =>
      obtain ⟨_, hnames, hok, herror⟩ := ha
      obtain ⟨height', hb', hq⟩ :=
        put_bounded hr hb (fun t j hmem => hb.known t j (hnames t j hmem)) hok herror
      exact ⟨height', known, hb', hq⟩
    | fault m applied =>
      cases hr
      exact ⟨height, known, hb, ha.2.2.2 _⟩
  | now =>
    cases choice <;> cases hr
    exact ⟨height, known, hb, ha _⟩
  | commit =>
    cases choice <;> cases hr
    · exact ⟨0, known, hb.released rfl rfl, ha.1⟩
    · exact ⟨0, known, hb.released rfl rfl, ha.2 _⟩
  | rollback =>
    cases choice <;> cases hr
    exact ⟨0, known, hb.released rfl rfl, ha⟩
  | request x =>
    cases choice with
    | ok =>
      cases hr
      exact ⟨height, known, hb.later rfl fun _ => Nat.le_refl _, ha.1 _⟩
    | fault m applied =>
      cases hr
      cases applied <;> exact ⟨height, known, hb.later rfl fun _ => Nat.le_refl _, ha.2 _⟩

/-- A blocked write waits for a lock that ranks above all locks of its attempt. -/
theorem put_blocked {c : Change σ} (hput : E.put n c p sh = none)
    (hclears : L.Clears height c)
    (hfresh : ∀ r id, c = .inserted r id → ∀ m, sh.owner (L.row (E.table r) id) ≠ some m) :
    ∃ l m, sh.owner l = some m ∧ height ≤ L.rank l := by
  unfold Engine.put at hput
  split at hput
  · split at hput <;> cases hput
  · rename_i hnot
    rw [Shared.free_iff] at hnot
    push Not at hnot
    obtain ⟨l, hl, m, hm, _⟩ := hnot
    rcases hclears l hl with ⟨r, id, hc, rfl⟩ | hrank
    · exact absurd hm (hfresh r id hc m)
    · exact ⟨l, m, hm, hrank⟩

theorem respond_blocked {o : Op σ} {Q : AscentPost σ o.Res}
    (hr : E.respond n i p sh o .ok = none) (hb : Bounded L sh n height known)
    (ha : Ascent K L height known o Q) : ∃ l m, sh.owner l = some m ∧ height ≤ L.rank l := by
  cases o with
  | insert row =>
    have hput := Option.map_eq_none_iff.mp hr
    obtain ⟨l, m, hm, hrank⟩ := put_blocked hput (ha _).1 fun r id hc m hm => by
      cases hc
      exact absurd (hb.locked _ _ m hm) (Nat.lt_irrefl _)
    exact ⟨l, m, hm, hrank⟩
  | execute stmt => exact put_blocked hr ha.1 fun r id hc => by cases hc
  | select | now | commit | rollback | request => cases hr

end Answers

end Ascent

/-! ## No attempt waits forever -/

section Effects
variable {E : Engine σ} {n m : Nat} {i : I} {p p' : Progress σ} {sh sh' : Shared σ I}

theorem Effect.identity_le (he : Effect E n i p sh p' sh') (t : σ.Table) :
    sh.identity t ≤ sh'.identity t := by
  cases he with
  | quiet _ _ _ _ _ hid => exact hid t
  | wrote _ _ _ _ _ _ _ _ hid => exact hid t
  | committed _ _ _ _ _ hid => exact Nat.le_of_eq (congrFun hid t).symm
  | dropped _ _ _ _ _ hid => exact Nat.le_of_eq (congrFun hid t).symm

/-- An operation takes locks for its own attempt only. -/
theorem Effect.owner_of_ne (he : Effect E n i p sh p' sh') (hne : m ≠ n) {l : σ.Lock}
    (hm : sh'.owner l = some m) : sh.owner l = some m := by
  cases he with
  | quiet _ _ _ howner => rwa [howner] at hm
  | wrote _ _ _ _ _ _ howner =>
    rw [howner] at hm
    dsimp only at hm
    split at hm
    · exact absurd (Option.some.inj hm).symm hne
    · exact hm
  | committed _ _ _ howner =>
    rw [howner] at hm
    exact (release_owner_of.mp hm).2
  | dropped _ _ _ howner =>
    rw [howner] at hm
    exact (release_owner_of.mp hm).2

end Effects

/-- Every attempt under way ascends. -/
structure Ordered {E : Engine σ} (K : KeyLaws E) (L : LockOrder E) (s : State σ I α) : Prop where
  wellFormed : WellFormed K s
  holders : Held s
  locked : ∀ t j m, s.shared.owner (L.row t j) = some m → j < s.shared.identity t
  ascends : ∀ n a, s.active n = some a → ∃ height known,
    Bounded L s.shared n height known ∧ Ascends K L a.program height known fun _ _ _ => True

namespace Ordered
variable {E : Engine σ} {K : KeyLaws E} {L : LockOrder E} {prog : I → Session σ α}
  {s t : State σ I α}

theorem leave (hs : Ordered K L s) (n : Nat) : Ordered K L (s.leave n) := by
  have hlocked : ∀ t j m, (s.shared.release n).owner (L.row t j) = some m →
      j < s.shared.identity t :=
    fun t j m hm => hs.locked t j m (release_owner_of.mp hm).2
  refine ⟨hs.wellFormed.leave n, hs.holders.leave n, hlocked, fun m a ha => ?_⟩
  rcases update_eq_some ha with ⟨_, hv⟩ | ⟨_, ha⟩
  · cases hv
  · obtain ⟨height, known, hb, hascends⟩ := hs.ascends m a ha
    refine ⟨height, known, ⟨hb.known, hlocked, fun l hl => ?_⟩, hascends⟩
    exact hb.held l (release_owner_of.mp hl).2

/-- What another attempt does leaves an ascending attempt where it is. -/
theorem other (hs : Ordered K L s) {n m : Nat} {i : I} {p p' : Progress σ} {sh : Shared σ I}
    {a : Attempt σ I α} (hne : m ≠ n) (hm : s.active m = some a)
    (he : Effect E n i p s.shared p' sh)
    (hlocked : ∀ t j k, sh.owner (L.row t j) = some k → j < sh.identity t) :
    ∃ height known, Bounded L sh m height known ∧
      Ascends K L a.program height known fun _ _ _ => True := by
  obtain ⟨height, known, hb, hascends⟩ := hs.ascends m a hm
  refine ⟨height, known, ⟨fun t j hj => ?_, hlocked, fun l hl => ?_⟩, hascends⟩
  · exact Nat.lt_of_lt_of_le (hb.known t j hj) (he.identity_le t)
  · exact hb.held l (he.owner_of_ne hne hl)

theorem step (hprog : ∀ i, Ascends K L (prog i) 0 (fun _ _ => False) fun _ _ _ => True)
    {l : Label σ I} (hs : Ordered K L s) (hst : Transaction.step E prog s l = some t) :
    Ordered K L t := by
  have hwf := hs.wellFormed.step hst
  have hheld := hs.holders.step hst
  cases l with
  | start i =>
    obtain rfl := step_start hst
    refine ⟨hwf, hheld, hs.locked, fun n a ha => ?_⟩
    rcases update_eq_some ha with ⟨rfl, hv⟩ | ⟨_, ha⟩
    · cases hv
      refine ⟨0, fun _ _ => False, ⟨fun _ _ h => h.elim, hs.locked, fun l hl => ?_⟩, hprog i⟩
      obtain ⟨a, ha⟩ := Option.isSome_iff_exists.mp (hs.holders l _ hl)
      exact absurd (hs.wellFormed.active_lt _ a ha) (Nat.lt_irrefl _)
    · exact hs.ascends n a ha
  | exec n choice =>
    obtain ⟨i, o, k, p, r, p', sh, ha, hr, rfl⟩ := step_exec hst
    obtain ⟨height, known, hb, hascends⟩ := hs.ascends n _ ha
    obtain ⟨height', known', hb', hnext⟩ := respond_bounded
      (Q := fun h kn r => Ascends K L (k r) h kn fun _ _ _ => True) hr
      (fun t j hj => hs.wellFormed.view_ids ha hj) hb hascends
    refine ⟨hwf, hheld, hb'.locked, fun m a hm => ?_⟩
    rcases update_eq_some hm with ⟨rfl, hv⟩ | ⟨hne, hm⟩
    · cases hv
      exact ⟨height', known', hb', hnext⟩
    · exact hs.other hne hm (respond_effect hr) hb'.locked
  | finish n =>
    obtain ⟨i, q, p, r, _, _, rfl⟩ := step_finish hst
    exact ⟨hwf, hheld, (hs.leave n).locked, (hs.leave n).ascends⟩
  | crash n =>
    obtain ⟨_, _, rfl⟩ := step_crash hst
    exact hs.leave n
  | tick d =>
    cases hst
    refine ⟨hwf, hheld, hs.locked, fun n a ha => ?_⟩
    obtain ⟨height, known, hb, hascends⟩ := hs.ascends n a ha
    exact ⟨height, known, hb.later rfl fun _ => Nat.le_refl _, hascends⟩
  | remote r =>
    cases hst
    refine ⟨hwf, hheld, hs.locked, fun n a ha => ?_⟩
    obtain ⟨height, known, hb, hascends⟩ := hs.ascends n a ha
    exact ⟨height, known, hb.later rfl fun _ => Nat.le_refl _, hascends⟩

theorem initial (clock : Int) (remote : σ.Remote) :
    Ordered K L (Transaction.initial clock remote : State σ I α) := by
  refine ⟨WellFormed.initial clock remote, ?_, ?_, ?_⟩
  · intro l m hm
    cases hm
  · intro t j m hm
    cases hm
  · intro n a ha
    cases ha

/-- An attempt that can neither end nor have its operation answered waits for another one
that is under way and holds locks above all of its own. -/
theorem waits (hs : Ordered K L s) {n : Nat} (hn : (s.active n).isSome)
    (hexec : Transaction.step E prog s (.exec n .ok) = none)
    (hfinish : Transaction.step E prog s (.finish n) = none) :
    ∃ height, (∀ l, s.shared.owner l = some n → L.rank l < height) ∧
      ∃ l m, s.shared.owner l = some m ∧ (s.active m).isSome ∧ height ≤ L.rank l := by
  obtain ⟨⟨i, q, p⟩, ha⟩ := Option.isSome_iff_exists.mp hn
  obtain ⟨height, known, hb, hascends⟩ := hs.ascends n _ ha
  cases q with
  | done | raise => simp [Transaction.step, ha] at hfinish
  | call o k =>
    have hr : E.respond n i p s.shared o .ok = none := by
      simpa [Transaction.step, ha] using hexec
    obtain ⟨l, m, hm, hrank⟩ := respond_blocked hr hb hascends
    exact ⟨height, hb.held, l, m, hm, hs.holders l m hm, hrank⟩

/-- No deadlock: of the attempts under way one can always go on. -/
theorem advances (hs : Ordered K L s) (hactive : ∃ n, (s.active n).isSome) :
    ∃ n, (Transaction.step E prog s (.exec n .ok)).isSome ∨
      (Transaction.step E prog s (.finish n)).isSome := by
  by_contra hstuck
  push Not at hstuck
  have hwaits : ∀ n, (s.active n).isSome → ∃ height,
      (∀ l, s.shared.owner l = some n → L.rank l < height) ∧
      ∃ l m, s.shared.owner l = some m ∧ (s.active m).isSome ∧ height ≤ L.rank l := by
    intro n hn
    obtain ⟨hexec, hfinish⟩ := hstuck n
    exact hs.waits hn (by simpa using hexec) (by simpa using hfinish)
  choose! height hheld hblocked using hwaits
  -- the attempt that stands highest waits for one that stands higher
  let waiting := (Finset.range s.started).filter fun n => (s.active n).isSome
  have hwaiting : ∀ n, (s.active n).isSome → n ∈ waiting := by
    intro n hn
    obtain ⟨a, ha⟩ := Option.isSome_iff_exists.mp hn
    exact Finset.mem_filter.mpr ⟨Finset.mem_range.mpr (hs.wellFormed.active_lt n a ha), hn⟩
  obtain ⟨n₀, hn₀⟩ := hactive
  obtain ⟨n, hn, hmax⟩ := waiting.exists_max_image height ⟨n₀, hwaiting n₀ hn₀⟩
  obtain ⟨l, m, hm, hactive, hrank⟩ := hblocked n (Finset.mem_filter.mp hn).2
  have hlt := hheld m hactive l hm
  have hle := hmax m (hwaiting m hactive)
  omega

end Ordered

/-! ## Every schedule ends -/

/-- `q'` is what is left of `q` after the answer to its operation. -/
def Next (q' q : Session σ α) : Prop := ∃ o k r, q = .call o k ∧ q' = k r

theorem next_wellFounded : WellFounded (Next : Session σ α → Session σ α → Prop) := by
  refine ⟨fun q => ?_⟩
  induction q with
  | done a => exact ⟨_, fun q' ⟨_, _, _, h, _⟩ => by cases h⟩
  | raise e => exact ⟨_, fun q' ⟨_, _, _, h, _⟩ => by cases h⟩
  | call o k ih =>
    refine ⟨_, fun q' ⟨o', k', r, h, hq⟩ => ?_⟩
    cases h
    exact hq ▸ ih r

instance : Std.Irrefl (Next : Session σ α → Session σ α → Prop) :=
  ⟨fun q => next_wellFounded.irrefl.irrefl q⟩

/-- An attempt of `s` has an operation answered, or it is over. -/
def Advances (E : Engine σ) (prog : I → Session σ α) (t s : State σ I α) : Prop :=
  ∃ n, (∃ choice, step E prog s (.exec n choice) = some t) ∨
    step E prog s (.finish n) = some t ∨ step E prog s (.crash n) = some t

/-- What is left of an attempt. -/
def left : Option (Attempt σ I α) → Multiset (Session σ α)
  | none => 0
  | some a => {a.program}

/-- What is left of all attempts. -/
def State.remaining (s : State σ I α) : Multiset (Session σ α) :=
  ∑ n ∈ Finset.range s.started, left (s.active n)

section Schedules
variable {E : Engine σ} {K : KeyLaws E} {L : LockOrder E} {prog : I → Session σ α}
  {s t : State σ I α}

theorem remaining_eq (s : State σ I α) {n : Nat} (hn : n < s.started) :
    s.remaining = ∑ m ∈ (Finset.range s.started).erase n, left (s.active m) + left (s.active n) := by
  rw [State.remaining, ← Finset.add_sum_erase _ _ (Finset.mem_range.mpr hn), add_comm]

/-- Only the attempt `n` has changed. -/
theorem remaining_update {n : Nat} (hn : n < s.started) {v : Option (Attempt σ I α)}
    (hstarted : t.started = s.started) (hactive : t.active = Function.update s.active n v) :
    t.remaining = ∑ m ∈ (Finset.range s.started).erase n, left (s.active m) + left v := by
  rw [remaining_eq t (hstarted ▸ hn), hstarted, hactive, Function.update_self]
  congr 1
  refine Finset.sum_congr rfl fun m hm => ?_
  rw [Function.update_of_ne (Finset.ne_of_mem_erase hm)]

theorem Advances.wellFormed (hs : WellFormed K s) (h : Advances E prog t s) : WellFormed K t := by
  obtain ⟨n, ⟨choice, hst⟩ | hst | hst⟩ := h
  · exact hs.step hst
  · exact hs.step hst
  · exact hs.step hst

theorem leave_cutExpand (hs : WellFormed K s) {n : Nat} {a : Attempt σ I α}
    (ha : s.active n = some a) (hstarted : t.started = s.started)
    (hactive : t.active = Function.update s.active n none) :
    Relation.CutExpand Next t.remaining s.remaining := by
  have hlt := hs.active_lt n a ha
  rw [remaining_eq s hlt, remaining_update hlt hstarted hactive, ha]
  refine (Relation.cutExpand_add_left _).mpr (Relation.cutExpand_singleton fun q hq => ?_)
  exact absurd hq (Multiset.notMem_zero q)

theorem Advances.cutExpand (hs : WellFormed K s) (h : Advances E prog t s) :
    Relation.CutExpand Next t.remaining s.remaining := by
  obtain ⟨n, ⟨choice, hst⟩ | hst | hst⟩ := h
  · obtain ⟨i, o, k, p, r, p', sh, ha, _, ht⟩ := step_exec hst
    have hlt := hs.active_lt n _ ha
    rw [remaining_eq s hlt, remaining_update hlt (by rw [ht]) (by rw [ht]), ha]
    exact Relation.cutExpand_add_single _ ⟨o, k, r, rfl, rfl⟩
  · obtain ⟨i, q, p, r, ha, _, rfl⟩ := step_finish hst
    exact leave_cutExpand hs ha rfl rfl
  · obtain ⟨a, ha, rfl⟩ := step_crash hst
    exact leave_cutExpand hs ha rfl rfl

/-- No attempt can be kept going for ever, however the operations are answered. -/
theorem advances_acc (hs : WellFormed K s) : Acc (Advances E prog) s := by
  have hacc := (next_wellFounded (σ := σ) (α := α)).cutExpand.apply s.remaining
  generalize hremaining : s.remaining = rest at hacc
  induction hacc generalizing s with
  | intro rest _ ih =>
    refine ⟨_, fun t ht => ih t.remaining ?_ (ht.wellFormed hs) rfl⟩
    exact hremaining ▸ ht.cutExpand hs

end Schedules

/-- The label of a step in which an attempt goes on. -/
inductive Going : Label σ I → Prop
  | exec (n : Nat) : Going (.exec n .ok)
  | finish (n : Nat) : Going (.finish n)

/-- From every state that is ordered, the attempts under way can all come to their end. -/
theorem Ordered.completes {E : Engine σ} {K : KeyLaws E} {L : LockOrder E}
    {prog : I → Session σ α} {s : State σ I α}
    (hprog : ∀ i, Ascends K L (prog i) 0 (fun _ _ => False) fun _ _ _ => True)
    (hs : Ordered K L s) : ∃ ls t, (∀ l ∈ ls, Going l) ∧
      Transition.run (Transaction.step E prog) s ls = some t ∧
      (∀ n, t.active n = none) ∧ ∀ l, t.shared.owner l = none := by
  have hacc : Acc (Advances E prog) s := advances_acc hs.wellFormed
  induction hacc with
  | intro s _ ih =>
    by_cases hactive : ∃ n, (s.active n).isSome
    · have hnext : ∃ l t, Going l ∧ Advances E prog t s ∧
          Transaction.step E prog s l = some t := by
        have hgoes : ∃ n, (Transaction.step E prog s (.exec n .ok)).isSome ∨
            (Transaction.step E prog s (.finish n)).isSome := hs.advances hactive
        obtain ⟨n, hexec | hfinish⟩ := hgoes
        · obtain ⟨t, ht⟩ := Option.isSome_iff_exists.mp hexec
          exact ⟨_, t, .exec n, ⟨n, .inl ⟨.ok, ht⟩⟩, ht⟩
        · obtain ⟨t, ht⟩ := Option.isSome_iff_exists.mp hfinish
          exact ⟨_, t, .finish n, ⟨n, .inr (.inl ht)⟩, ht⟩
      obtain ⟨l, t, hl, hadvances, hst⟩ := hnext
      obtain ⟨ls, u, hls, hrun, hover⟩ := ih t hadvances (hs.step hprog hst)
      refine ⟨l :: ls, u, ?_, Transition.run_cons_eq_some.mpr ⟨t, hst, hrun⟩, hover⟩
      intro l' hl'
      rcases List.mem_cons.mp hl' with rfl | hl'
      · exact hl
      · exact hls l' hl'
    · push Not at hactive
      have hnone : ∀ n, s.active n = none := fun n => by simpa using hactive n
      refine ⟨[], s, by simp, rfl, hnone, fun l => ?_⟩
      cases howner : s.shared.owner l with
      | none => rfl
      | some m =>
        have hm := hs.holders l m howner
        rw [hnone m] at hm
        cases hm

end Transaction
