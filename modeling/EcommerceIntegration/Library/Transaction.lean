import EcommerceIntegration.Library.Program
import EcommerceIntegration.Library.Transition
import Mathlib.Logic.Function.Basic

/-!
# Concurrent transactions under read committed snapshot

Any number of attempts run a program each. A `select` sees the last committed
database with the attempt's own pending writes on top. A write takes exclusive
locks that are kept to the end of the transaction: while another attempt holds one
of them the write is not enabled, and when it goes on it sees what was committed
meanwhile. A constraint refuses the write on what the attempt sees. A commit makes
all pending writes visible at once; a rollback, a crash or the end of the attempt
drops them. Any operation may fail instead of being answered.

The committed database is the replay of the history of committed transactions.
Beside the database there is one remote store that is not transactional.
-/

namespace Transaction

set_option autoImplicit false

structure Signature where
  Db : Type
  /-- a row to be inserted, before it has its identity value -/
  Row : Type
  /-- every other data modification -/
  Stmt : Type
  Table : Type
  Lock : Type
  Constraint : Type
  /-- the exceptions of the application -/
  Error : Type
  /-- the operations of the remote store, and its state -/
  Request : Type
  Remote : Type
  [lockEq : DecidableEq Lock]
  [tableEq : DecidableEq Table]

attribute [instance] Signature.lockEq Signature.tableEq

variable {σ : Signature} {I α : Type}

inductive Change (σ : Signature)
  | inserted (row : σ.Row) (id : Nat)
  | executed (stmt : σ.Stmt)

inductive Exn (σ : Signature)
  | integrity (c : σ.Constraint)
  | fault (message : String)
  | app (e : σ.Error)

inductive Op (σ : Signature)
  | select
  | insert (row : σ.Row)
  | execute (stmt : σ.Stmt)
  | now
  | commit
  | rollback
  | request (x : σ.Request)

@[reducible] def Op.Res : Op σ → Type
  | select => σ.Db
  | insert _ => Nat
  | execute _ => Unit
  | now => Int
  | commit => Unit
  | rollback => Unit
  | request _ => Bool

abbrev Session (σ : Signature) (α : Type) := Program (Op σ) Op.Res (Exn σ) α

/-- What the database and the remote store do with one operation. -/
structure Engine (σ : Signature) where
  empty : σ.Db
  table : σ.Row → σ.Table
  apply : σ.Db → Change σ → σ.Db
  violated : σ.Db → Change σ → Option σ.Constraint
  locks : Change σ → List σ.Lock
  perform : σ.Remote → σ.Request → σ.Remote × Bool

structure Commit (σ : Signature) (I : Type) where
  attempt : Nat
  input : I
  time : Int
  writes : List (Change σ)

namespace Engine

def replay (E : Engine σ) (d : σ.Db) (ws : List (Change σ)) : σ.Db :=
  ws.foldl E.apply d

/-- The committed database. -/
def state (E : Engine σ) (h : List (Commit σ I)) : σ.Db :=
  h.foldl (fun d c => E.replay d c.writes) E.empty

/-- What an attempt with the pending writes `ws` sees. -/
def view (E : Engine σ) (h : List (Commit σ I)) (ws : List (Change σ)) : σ.Db :=
  E.replay (E.state h) ws

variable (E : Engine σ)

@[simp] theorem replay_nil (d : σ.Db) : E.replay d [] = d := rfl

@[simp] theorem replay_cons (d : σ.Db) (c : Change σ) (ws : List (Change σ)) :
    E.replay d (c :: ws) = E.replay (E.apply d c) ws := rfl

@[simp] theorem replay_append (d : σ.Db) (us ws : List (Change σ)) :
    E.replay d (us ++ ws) = E.replay (E.replay d us) ws := List.foldl_append

@[simp] theorem state_nil : E.state ([] : List (Commit σ I)) = E.empty := rfl

@[simp] theorem state_concat (h : List (Commit σ I)) (c : Commit σ I) :
    E.state (h ++ [c]) = E.replay (E.state h) c.writes := by
  simp [state, List.foldl_append]

@[simp] theorem view_nil (h : List (Commit σ I)) : E.view h [] = E.state h := rfl

@[simp] theorem view_concat (h : List (Commit σ I)) (ws : List (Change σ)) (c : Change σ) :
    E.view h (ws ++ [c]) = E.apply (E.view h ws) c := by
  simp [view]

end Engine

/-- What one attempt has done so far. -/
structure Progress (σ : Signature) where
  writes : List (Change σ) := []
  committed : List (List (Change σ)) := []
  refusals : List (Change σ × σ.Constraint) := []
  requests : List (σ.Request × Option Bool) := []

namespace Progress

def write (p : Progress σ) (c : Change σ) : Progress σ := { p with writes := p.writes ++ [c] }

def refuse (p : Progress σ) (c : Change σ) (k : σ.Constraint) : Progress σ :=
  { p with refusals := p.refusals ++ [(c, k)] }

def commit (p : Progress σ) : Progress σ :=
  { p with committed := p.committed ++ [p.writes], writes := [] }

def rollback (p : Progress σ) : Progress σ := { p with writes := [] }

/-- `none` is a request that failed. -/
def request (p : Progress σ) (x : σ.Request) (reply : Option Bool) : Progress σ :=
  { p with requests := p.requests ++ [(x, reply)] }

end Progress

structure Attempt (σ : Signature) (I α : Type) where
  input : I
  program : Session σ α
  progress : Progress σ

structure Returned (σ : Signature) (I α : Type) where
  attempt : Nat
  input : I
  progress : Progress σ
  result : Except (Exn σ) α

structure Shared (σ : Signature) (I : Type) where
  history : List (Commit σ I)
  identity : σ.Table → Nat
  owner : σ.Lock → Option Nat
  clock : Int
  remote : σ.Remote

/-- `active`, `returned` and `started` are indexed by the number of the attempt;
`returned` and the history only record what happened. -/
structure State (σ : Signature) (I α : Type) where
  shared : Shared σ I
  active : Nat → Option (Attempt σ I α)
  returned : List (Returned σ I α)
  started : Nat

/-- How the environment answers an operation. A request that fails may have been
carried out by the remote store (`applied`) or not. -/
inductive Choice
  | ok
  | fault (message : String) (applied : Bool)

inductive Label (σ : Signature) (I : Type)
  | start (i : I)
  | exec (n : Nat) (choice : Choice)
  | finish (n : Nat)
  | crash (n : Nat)
  | tick (d : Nat)
  | remote (r : σ.Remote)

def Shared.release (sh : Shared σ I) (n : Nat) : Shared σ I :=
  { sh with owner := fun l => if sh.owner l = some n then none else sh.owner l }

def Shared.acquire (sh : Shared σ I) (n : Nat) (ls : List σ.Lock) : Shared σ I :=
  { sh with owner := fun l => if l ∈ ls then some n else sh.owner l }

/-- No other attempt holds one of the locks. -/
def Shared.free (sh : Shared σ I) (n : Nat) (ls : List σ.Lock) : Bool :=
  ls.all fun l => sh.owner l == none || sh.owner l == some n

/-- A write: blocked, refused by a constraint, or pending from now on. -/
def Engine.put (E : Engine σ) (n : Nat) (c : Change σ) (p : Progress σ) (sh : Shared σ I) :
    Option (Except (Exn σ) Unit × Progress σ × Shared σ I) :=
  if sh.free n (E.locks c) then
    match E.violated (E.view sh.history p.writes) c with
    | some k => some (.error (.integrity k), p.refuse c k, sh)
    | none => some (.ok (), p.write c, sh.acquire n (E.locks c))
  else none

/-- What the operation returns and changes. A commit that fails is rolled back: that its
acknowledgement is lost, but not the transaction, is left out. -/
def Engine.respond (E : Engine σ) (n : Nat) (i : I) (p : Progress σ) (sh : Shared σ I) :
    (o : Op σ) → Choice → Option (Except (Exn σ) o.Res × Progress σ × Shared σ I)
  | .select, .ok => some (.ok (E.view sh.history p.writes), p, sh)
  | .select, .fault m _ => some (.error (.fault m), p, sh)
  | .insert row, .ok =>
    let id := sh.identity (E.table row)
    -- the identity value is used up even when the row is refused
    let sh' := { sh with identity := Function.update sh.identity (E.table row) (id + 1) }
    (E.put n (.inserted row id) p sh').map fun (r, p', sh'') => (r.map fun _ => id, p', sh'')
  | .insert _, .fault m _ => some (.error (.fault m), p, sh)
  | .execute stmt, .ok => E.put n (.executed stmt) p sh
  | .execute _, .fault m _ => some (.error (.fault m), p, sh)
  | .now, .ok => some (.ok sh.clock, p, sh)
  | .now, .fault _ _ => none
  | .commit, .ok =>
    some (.ok (), p.commit,
      Shared.release { sh with history := sh.history ++ [⟨n, i, sh.clock, p.writes⟩] } n)
  | .commit, .fault m _ => some (.error (.fault m), p.rollback, sh.release n)
  | .rollback, .ok => some (.ok (), p.rollback, sh.release n)
  | .rollback, .fault _ _ => none
  | .request x, .ok =>
    let (r, b) := E.perform sh.remote x
    some (.ok b, p.request x (some b), { sh with remote := r })
  | .request x, .fault m applied =>
    some (.error (.fault m), p.request x none,
      if applied then { sh with remote := (E.perform sh.remote x).1 } else sh)

/-- The attempt `n` is over: its transaction, if one is open, is rolled back. -/
def State.leave (s : State σ I α) (n : Nat) : State σ I α :=
  { s with shared := s.shared.release n, active := Function.update s.active n none }

def step (E : Engine σ) (prog : I → Session σ α) (s : State σ I α) :
    Label σ I → Option (State σ I α)
  | .start i => some
      { s with
        active := Function.update s.active s.started (some ⟨i, prog i, {}⟩)
        started := s.started + 1 }
  | .exec n choice =>
    match s.active n with
    | some ⟨i, .call o k, p⟩ =>
      (E.respond n i p s.shared o choice).map fun (r, p', sh) =>
        { s with shared := sh, active := Function.update s.active n (some ⟨i, k r, p'⟩) }
    | _ => none
  | .finish n =>
    match s.active n with
    | some ⟨i, .done a, p⟩ =>
      some { s.leave n with returned := s.returned ++ [⟨n, i, p, .ok a⟩] }
    | some ⟨i, .raise e, p⟩ =>
      some { s.leave n with returned := s.returned ++ [⟨n, i, p, .error e⟩] }
    | _ => none
  | .crash n => (s.active n).map fun _ => s.leave n
  | .tick d => some { s with shared := { s.shared with clock := s.shared.clock + d } }
  | .remote r => some { s with shared := { s.shared with remote := r } }

/-- An empty database, no attempt, every identity counter at 1. -/
def initial (clock : Int) (remote : σ.Remote) : State σ I α where
  shared := ⟨[], fun _ => 1, fun _ => none, clock, remote⟩
  active := fun _ => none
  returned := []
  started := 0

def Reachable (E : Engine σ) (prog : I → Session σ α) (s : State σ I α) : Prop :=
  ∃ clock remote, Transition.Reachable (step E prog) (initial clock remote) s

/-! ## What a step can do -/

theorem step_start {E : Engine σ} {prog : I → Session σ α} {s t : State σ I α} {i : I}
    (h : step E prog s (.start i) = some t) :
    t = { s with
      active := Function.update s.active s.started (some ⟨i, prog i, {}⟩)
      started := s.started + 1 } := by
  simpa [step] using h.symm

theorem step_exec {E : Engine σ} {prog : I → Session σ α} {s t : State σ I α} {n : Nat}
    {choice : Choice} (h : step E prog s (.exec n choice) = some t) :
    ∃ i o k p r p' sh, s.active n = some ⟨i, .call o k, p⟩ ∧
      E.respond n i p s.shared o choice = some (r, p', sh) ∧
      t = { s with shared := sh, active := Function.update s.active n (some ⟨i, k r, p'⟩) } := by
  simp only [step] at h
  split at h
  · rename_i i o k p ha
    obtain ⟨⟨r, p', sh⟩, hr, ht⟩ := Option.map_eq_some_iff.mp h
    exact ⟨i, o, k, p, r, p', sh, ha, hr, ht.symm⟩
  · cases h

theorem step_finish {E : Engine σ} {prog : I → Session σ α} {s t : State σ I α} {n : Nat}
    (h : step E prog s (.finish n) = some t) :
    ∃ i q p r, s.active n = some ⟨i, q, p⟩ ∧ q = Program.ofExcept r ∧
      t = { s.leave n with returned := s.returned ++ [⟨n, i, p, r⟩] } := by
  simp only [step] at h
  split at h
  · rename_i i a p ha
    exact ⟨i, _, p, .ok a, ha, rfl, (Option.some.inj h).symm⟩
  · rename_i i e p ha
    exact ⟨i, _, p, .error e, ha, rfl, (Option.some.inj h).symm⟩
  · cases h

theorem step_crash {E : Engine σ} {prog : I → Session σ α} {s t : State σ I α} {n : Nat}
    (h : step E prog s (.crash n) = some t) : ∃ a, s.active n = some a ∧ t = s.leave n := by
  obtain ⟨a, ha, ht⟩ := Option.map_eq_some_iff.mp h
  exact ⟨a, ha, ht.symm⟩

end Transaction
