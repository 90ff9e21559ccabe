import EcommerceIntegration.Library.Transaction
import Mathlib.Data.List.Perm.Lattice
import Mathlib.Data.List.Perm.Subperm

/-!
# What the locks of a transaction guarantee

Unique keys that only insertions create are locked by the attempt that creates
them, so two open transactions never hold the same key and the committed database
never has one twice. Identity values are above all values in use.
-/

namespace Transaction

set_option autoImplicit false

variable {σ : Signature} {I α : Type}

/-- The effect of one operation of the attempt `n` on its pending writes and on what
the attempts share. -/
inductive Effect (E : Engine σ) (n : Nat) (i : I) (p : Progress σ) (sh : Shared σ I) :
    Progress σ → Shared σ I → Prop
  | quiet {p' sh'} (writes : p'.writes = p.writes) (committed : p'.committed = p.committed)
      (history : sh'.history = sh.history) (owner : sh'.owner = sh.owner)
      (clock : sh'.clock = sh.clock) (identity : ∀ t, sh.identity t ≤ sh'.identity t) :
      Effect E n i p sh p' sh'
  | wrote {p' sh'} (c : Change σ) (writes : p'.writes = p.writes ++ [c])
      (committed : p'.committed = p.committed)
      (free : ∀ l ∈ E.locks c, ∀ m, sh.owner l = some m → m = n)
      (allowed : E.violated (E.view sh.history p.writes) c = none)
      (history : sh'.history = sh.history)
      (owner : sh'.owner = fun l => if l ∈ E.locks c then some n else sh.owner l)
      (clock : sh'.clock = sh.clock) (identity : ∀ t, sh.identity t ≤ sh'.identity t)
      (used : ∀ row id, c = .inserted row id →
        id = sh.identity (E.table row) ∧ sh'.identity (E.table row) = id + 1) :
      Effect E n i p sh p' sh'
  | committed {p' sh'} (writes : p'.writes = [])
      (committed : p'.committed = p.committed ++ [p.writes])
      (history : sh'.history = sh.history ++ [⟨n, i, sh.clock, p.writes⟩])
      (owner : sh'.owner = (sh.release n).owner)
      (clock : sh'.clock = sh.clock) (identity : sh'.identity = sh.identity) :
      Effect E n i p sh p' sh'
  | dropped {p' sh'} (writes : p'.writes = []) (committed : p'.committed = p.committed)
      (history : sh'.history = sh.history) (owner : sh'.owner = (sh.release n).owner)
      (clock : sh'.clock = sh.clock) (identity : sh'.identity = sh.identity) :
      Effect E n i p sh p' sh'

theorem Shared.free_iff {sh : Shared σ I} {n : Nat} {ls : List σ.Lock} :
    sh.free n ls = true ↔ ∀ l ∈ ls, ∀ m, sh.owner l = some m → m = n := by
  simp only [free, List.all_eq_true, Bool.or_eq_true, beq_iff_eq]
  constructor
  · intro h l hl m hm
    rcases h l hl with hnone | hsome
    · simp [hnone] at hm
    · exact Option.some.inj (hm.symm.trans hsome)
  · intro h l hl
    cases ho : sh.owner l with
    | none => exact .inl rfl
    | some m => exact .inr (congrArg some (h l hl m ho))

theorem put_effect {E : Engine σ} {n : Nat} {i : I} {p p' : Progress σ} {sh sh₀ sh' : Shared σ I}
    {c : Change σ} {r : Except (Exn σ) Unit} (h : E.put n c p sh = some (r, p', sh'))
    (hh : sh.history = sh₀.history) (ho : sh.owner = sh₀.owner) (hc : sh.clock = sh₀.clock)
    (hid : ∀ t, sh₀.identity t ≤ sh.identity t)
    (hused : ∀ row id, c = .inserted row id →
      id = sh₀.identity (E.table row) ∧ sh.identity (E.table row) = id + 1) :
    Effect E n i p sh₀ p' sh' := by
  unfold Engine.put at h
  split at h
  · rename_i hfree
    have hlocks := Shared.free_iff.mp hfree
    split at h
    · cases h
      exact .quiet rfl rfl hh ho hc hid
    · rename_i hok
      cases h
      rw [ho] at hlocks
      rw [hh] at hok
      refine .wrote c rfl rfl hlocks hok hh ?_ hc hid hused
      simp [Shared.acquire, ho]
  · cases h

theorem respond_effect {E : Engine σ} {n : Nat} {i : I} {p p' : Progress σ} {sh sh' : Shared σ I}
    {o : Op σ} {choice : Choice} {r : Except (Exn σ) o.Res}
    (h : E.respond n i p sh o choice = some (r, p', sh')) : Effect E n i p sh p' sh' := by
  cases o with
  | select =>
    cases choice <;> cases h <;> exact .quiet rfl rfl rfl rfl rfl fun _ => Nat.le_refl _
  | insert row =>
    cases choice with
    | ok =>
      obtain ⟨⟨r', p'', sh''⟩, hput, heq⟩ := Option.map_eq_some_iff.mp h
      cases heq
      refine put_effect hput rfl rfl rfl (fun t => ?_) ?_
      · by_cases ht : t = E.table row
        · subst t
          simp
        · simp [ht]
      · intro row' id hc
        cases hc
        simp
    | fault m applied =>
      cases h
      exact .quiet rfl rfl rfl rfl rfl fun _ => Nat.le_refl _
  | execute stmt =>
    cases choice with
    | ok => exact put_effect h rfl rfl rfl (fun _ => Nat.le_refl _) (fun _ _ hc => by cases hc)
    | fault m applied =>
      cases h
      exact .quiet rfl rfl rfl rfl rfl fun _ => Nat.le_refl _
  | now =>
    cases choice <;> cases h
    exact .quiet rfl rfl rfl rfl rfl fun _ => Nat.le_refl _
  | commit =>
    cases choice <;> cases h
    · exact .committed rfl rfl rfl rfl rfl rfl
    · exact .dropped rfl rfl rfl rfl rfl rfl
  | rollback =>
    cases choice <;> cases h
    exact .dropped rfl rfl rfl rfl rfl rfl
  | request x =>
    cases choice with
    | ok =>
      cases h
      exact .quiet rfl rfl rfl rfl rfl fun _ => Nat.le_refl _
    | fault m applied =>
      cases h
      cases applied <;> exact .quiet rfl rfl rfl rfl rfl fun _ => Nat.le_refl _

/-- Unique keys that only insertions create, and the identity values in use. -/
structure KeyLaws (E : Engine σ) where
  keys : σ.Db → List σ.Lock
  newKeys : Change σ → List σ.Lock
  ids : σ.Db → σ.Table → List Nat
  keys_empty : keys E.empty = []
  keys_apply : ∀ d c, (keys (E.apply d c)).Perm (keys d ++ newKeys c)
  newKeys_locks : ∀ c, newKeys c ⊆ E.locks c
  newKeys_nodup : ∀ c, (newKeys c).Nodup
  newKeys_free : ∀ d c, E.violated d c = none → ∀ k ∈ newKeys c, k ∉ keys d
  ids_empty : ∀ t, ids E.empty t = []
  ids_apply : ∀ d c t j, j ∈ ids (E.apply d c) t →
    j ∈ ids d t ∨ ∃ row, c = .inserted row j ∧ E.table row = t

/-- No change takes anything out of `column`. -/
def Engine.Grows {β : Type} (E : Engine σ) (column : σ.Db → List β) : Prop :=
  ∀ d c, column d ⊆ column (E.apply d c)

namespace Engine.Grows
variable {E : Engine σ} {β : Type} {column : σ.Db → List β}

theorem replay (hg : E.Grows column) (d : σ.Db) (ws : List (Change σ)) :
    column d ⊆ column (E.replay d ws) := by
  induction ws generalizing d with
  | nil => exact fun _ hb => hb
  | cons c ws ih => exact fun b hb => ih _ (hg d c hb)

theorem state (hg : E.Grows column) {h h' : List (Commit σ I)} (hle : h <+: h') :
    column (E.state h) ⊆ column (E.state h') := by
  obtain ⟨later, rfl⟩ := hle
  induction later using List.reverseRecOn with
  | nil => simp
  | append_singleton later c ih =>
    rw [← List.append_assoc, state_concat]
    exact fun b hb => hg.replay _ _ (ih hb)

end Engine.Grows

/-- The change leaves `column` as it is. -/
def Engine.Spares {β : Type} (E : Engine σ) (column : σ.Db → β) (c : Change σ) : Prop :=
  ∀ d, column (E.apply d c) = column d

theorem Engine.replay_spares {E : Engine σ} {β : Type} {column : σ.Db → β} {ws : List (Change σ)}
    (hws : ∀ c ∈ ws, E.Spares column c) (d : σ.Db) : column (E.replay d ws) = column d := by
  induction ws generalizing d with
  | nil => rfl
  | cons c ws ih =>
    rw [replay_cons, ih fun c' hc' => hws c' (List.mem_cons_of_mem c hc')]
    exact hws c List.mem_cons_self d

/-- What is in `column` was put there by a commit of the history. -/
theorem Engine.origin (E : Engine σ) {β : Type} (column : σ.Db → List β)
    (gained : Change σ → List β) (hempty : column E.empty = [])
    (hgain : ∀ d c, column (E.apply d c) ⊆ column d ++ gained c) {h : List (Commit σ I)} {b : β}
    (hb : b ∈ column (E.state h)) : ∃ h₀ k, h₀ ++ [k] <+: h ∧ ∃ c ∈ k.writes, b ∈ gained c := by
  have hreplay : ∀ d ws, b ∈ column (E.replay d ws) →
      b ∈ column d ∨ ∃ c ∈ ws, b ∈ gained c := by
    intro d ws
    induction ws generalizing d with
    | nil => exact .inl
    | cons c ws ih =>
      intro hmem
      rcases ih _ hmem with hold | ⟨c', hc', hnew⟩
      · rcases List.mem_append.mp (hgain d c hold) with hold | hnew
        · exact .inl hold
        · exact .inr ⟨c, List.mem_cons_self, hnew⟩
      · exact .inr ⟨c', List.mem_cons_of_mem c hc', hnew⟩
  induction h using List.reverseRecOn with
  | nil =>
    rw [state_nil, hempty] at hb
    cases hb
  | append_singleton h k ih =>
    rw [state_concat] at hb
    rcases hreplay _ _ hb with hold | hnew
    · obtain ⟨h₀, k₀, hpre, hc⟩ := ih hold
      exact ⟨h₀, k₀, hpre.trans (List.prefix_append _ _), hc⟩
    · exact ⟨h, k, List.prefix_refl _, hnew⟩

namespace KeyLaws
variable {E : Engine σ} (K : KeyLaws E)

def pendingKeys (ws : List (Change σ)) : List σ.Lock := ws.flatMap K.newKeys

@[simp] theorem pendingKeys_nil : K.pendingKeys [] = [] := rfl

@[simp] theorem pendingKeys_concat (ws : List (Change σ)) (c : Change σ) :
    K.pendingKeys (ws ++ [c]) = K.pendingKeys ws ++ K.newKeys c := by
  simp [pendingKeys]

theorem keys_replay (d : σ.Db) (ws : List (Change σ)) :
    (K.keys (E.replay d ws)).Perm (K.keys d ++ K.pendingKeys ws) := by
  induction ws generalizing d with
  | nil => simp
  | cons c ws ih =>
    simp only [Engine.replay_cons, pendingKeys, List.flatMap_cons, ← List.append_assoc]
    exact (ih _).trans ((K.keys_apply d c).append_right _)

theorem mem_keys_state {h h' : List (Commit σ I)} (hle : h <+: h') {k : σ.Lock}
    (hk : k ∈ K.keys (E.state h)) : k ∈ K.keys (E.state h') := by
  obtain ⟨later, rfl⟩ := hle
  induction later using List.reverseRecOn with
  | nil => simpa using hk
  | append_singleton later c ih =>
    rw [← List.append_assoc, Engine.state_concat]
    exact (K.keys_replay _ _).mem_iff.mpr (List.mem_append_left _ ih)

theorem ids_replay {d : σ.Db} {ws : List (Change σ)} {t : σ.Table} {j : Nat}
    (h : j ∈ K.ids (E.replay d ws) t) :
    j ∈ K.ids d t ∨ ∃ row, .inserted row j ∈ ws ∧ E.table row = t := by
  induction ws generalizing d with
  | nil => exact .inl h
  | cons c ws ih =>
    rcases ih h with hd | ⟨row, hrow, ht⟩
    · rcases K.ids_apply d c t j hd with hd | ⟨row, rfl, ht⟩
      · exact .inl hd
      · exact .inr ⟨row, List.mem_cons_self, ht⟩
    · exact .inr ⟨row, List.mem_cons_of_mem c hrow, ht⟩

end KeyLaws

def commitsOf (h : List (Commit σ I)) (n : Nat) : List (List (Change σ)) :=
  (h.filter fun c => c.attempt == n).map Commit.writes

/-- The invariant of every reachable state, whatever the programs do. -/
structure WellFormed {E : Engine σ} (K : KeyLaws E) (s : State σ I α) : Prop where
  active_lt : ∀ n a, s.active n = some a → n < s.started
  history_lt : ∀ c ∈ s.shared.history, c.attempt < s.started
  history_time : ∀ c ∈ s.shared.history, c.time ≤ s.shared.clock
  committed : ∀ n a, s.active n = some a →
    a.progress.committed = commitsOf s.shared.history n
  owned : ∀ n a, s.active n = some a → ∀ c ∈ a.progress.writes, ∀ l ∈ E.locks c,
    s.shared.owner l = some n
  keys : (K.keys (E.state s.shared.history)).Nodup
  pending : ∀ n a, s.active n = some a → (K.pendingKeys a.progress.writes).Nodup ∧
    ∀ k ∈ K.pendingKeys a.progress.writes, k ∉ K.keys (E.state s.shared.history)
  ids : ∀ t, ∀ j ∈ K.ids (E.state s.shared.history) t, j < s.shared.identity t
  pendingIds : ∀ n a, s.active n = some a → ∀ row j,
    .inserted row j ∈ a.progress.writes → j < s.shared.identity (E.table row)
  returned : ∀ r ∈ s.returned, r.attempt < s.started ∧ s.active r.attempt = none ∧
    r.progress.committed = commitsOf s.shared.history r.attempt

namespace WellFormed
variable {E : Engine σ} {K : KeyLaws E} {s : State σ I α}

theorem view_keys (h : WellFormed K s) {n : Nat} {a : Attempt σ I α} (ha : s.active n = some a) :
    (K.keys (E.view s.shared.history a.progress.writes)).Nodup := by
  refine (K.keys_replay _ _).nodup_iff.mpr ?_
  obtain ⟨hnodup, hfresh⟩ := h.pending n a ha
  exact h.keys.append hnodup fun k hk hk' => hfresh k hk' hk

theorem view_ids (h : WellFormed K s) {n : Nat} {a : Attempt σ I α} (ha : s.active n = some a)
    {t : σ.Table} {j : Nat} (hj : j ∈ K.ids (E.view s.shared.history a.progress.writes) t) :
    j < s.shared.identity t := by
  rcases K.ids_replay hj with hj | ⟨row, hrow, rfl⟩
  · exact h.ids t j hj
  · exact h.pendingIds n a ha row j hrow

theorem pendingKeys_owned (h : WellFormed K s) {n : Nat} {a : Attempt σ I α}
    (ha : s.active n = some a) {k : σ.Lock} (hk : k ∈ K.pendingKeys a.progress.writes) :
    s.shared.owner k = some n := by
  obtain ⟨c, hc, hk⟩ := List.mem_flatMap.mp hk
  exact h.owned n a ha c hc k (K.newKeys_locks c hk)

theorem initial (clock : Int) (remote : σ.Remote) :
    WellFormed K (Transaction.initial clock remote : State σ I α) where
  active_lt := by simp [Transaction.initial]
  history_lt := by simp [Transaction.initial]
  history_time := by simp [Transaction.initial]
  committed := by simp [Transaction.initial]
  owned := by simp [Transaction.initial]
  keys := by simp [Transaction.initial, K.keys_empty]
  pending := by simp [Transaction.initial]
  ids := by simp [Transaction.initial, K.ids_empty]
  pendingIds := by simp [Transaction.initial]
  returned := by simp [Transaction.initial]

end WellFormed

theorem update_eq_some {f : Nat → Option (Attempt σ I α)} {n m : Nat}
    {v : Option (Attempt σ I α)} {a : Attempt σ I α} (h : Function.update f n v m = some a) :
    (m = n ∧ v = some a) ∨ (m ≠ n ∧ f m = some a) := by
  by_cases hm : m = n
  · subst m
    exact .inl ⟨rfl, by simpa using h⟩
  · exact .inr ⟨hm, by simpa [hm] using h⟩

@[simp] theorem commitsOf_concat_self (h : List (Commit σ I)) (n : Nat) (i : I) (time : Int)
    (ws : List (Change σ)) : commitsOf (h ++ [⟨n, i, time, ws⟩]) n = commitsOf h n ++ [ws] := by
  simp [commitsOf, List.filter_append]

theorem commitsOf_concat_of_ne {h : List (Commit σ I)} {c : Commit σ I} {n : Nat}
    (hn : c.attempt ≠ n) : commitsOf (h ++ [c]) n = commitsOf h n := by
  simp [commitsOf, List.filter_append, hn]

theorem commitsOf_eq_nil {h : List (Commit σ I)} {n : Nat} (hn : ∀ c ∈ h, c.attempt < n) :
    commitsOf h n = [] := by
  simp only [commitsOf, List.map_eq_nil_iff, List.filter_eq_nil_iff, beq_iff_eq]
  intro c hc heq
  have := hn c hc
  omega

theorem Shared.release_owner {sh : Shared σ I} {n m : Nat} {l : σ.Lock} (hm : m ≠ n)
    (h : sh.owner l = some m) : (sh.release n).owner l = some m := by
  simp [release, h, hm]

namespace WellFormed
variable {E : Engine σ} {K : KeyLaws E} {prog : I → Session σ α} {s t : State σ I α}

theorem start (h : WellFormed K s) (i : I) :
    WellFormed K { s with
      active := Function.update s.active s.started (some ⟨i, prog i, {}⟩)
      started := s.started + 1 } where
  active_lt n a ha := by
    rcases update_eq_some ha with ⟨rfl, _⟩ | ⟨_, ha⟩
    · exact Nat.lt_succ_self _
    · exact Nat.lt_succ_of_lt (h.active_lt n a ha)
  history_lt c hc := Nat.lt_succ_of_lt (h.history_lt c hc)
  history_time := h.history_time
  committed n a ha := by
    rcases update_eq_some ha with ⟨rfl, hv⟩ | ⟨_, ha⟩
    · cases hv
      exact (commitsOf_eq_nil h.history_lt).symm
    · exact h.committed n a ha
  owned n a ha := by
    rcases update_eq_some ha with ⟨rfl, hv⟩ | ⟨_, ha⟩
    · cases hv
      simp
    · exact h.owned n a ha
  keys := h.keys
  pending n a ha := by
    rcases update_eq_some ha with ⟨rfl, hv⟩ | ⟨_, ha⟩
    · cases hv
      simp
    · exact h.pending n a ha
  ids := h.ids
  pendingIds n a ha := by
    rcases update_eq_some ha with ⟨rfl, hv⟩ | ⟨_, ha⟩
    · cases hv
      simp
    · exact h.pendingIds n a ha
  returned r hr := by
    obtain ⟨hlt, hnone, hc⟩ := h.returned r hr
    exact ⟨Nat.lt_succ_of_lt hlt, by simpa [Nat.ne_of_lt hlt] using hnone, hc⟩

theorem leave (h : WellFormed K s) (n : Nat) : WellFormed K (s.leave n) where
  active_lt m a ha := by
    rcases update_eq_some ha with ⟨_, hv⟩ | ⟨_, ha⟩
    · cases hv
    · exact h.active_lt m a ha
  history_lt := h.history_lt
  history_time := h.history_time
  committed m a ha := by
    rcases update_eq_some ha with ⟨_, hv⟩ | ⟨_, ha⟩
    · cases hv
    · exact h.committed m a ha
  owned m a ha c hc l hl := by
    rcases update_eq_some ha with ⟨_, hv⟩ | ⟨hm, ha⟩
    · cases hv
    · exact Shared.release_owner hm (h.owned m a ha c hc l hl)
  keys := h.keys
  pending m a ha := by
    rcases update_eq_some ha with ⟨_, hv⟩ | ⟨_, ha⟩
    · cases hv
    · exact h.pending m a ha
  ids := h.ids
  pendingIds m a ha := by
    rcases update_eq_some ha with ⟨_, hv⟩ | ⟨_, ha⟩
    · cases hv
    · exact h.pendingIds m a ha
  returned r hr := by
    obtain ⟨hlt, hnone, hc⟩ := h.returned r hr
    refine ⟨hlt, ?_, hc⟩
    by_cases hn : r.attempt = n <;> simp [State.leave, hn, hnone]

theorem returned_ne (h : WellFormed K s) {n : Nat} {a : Attempt σ I α}
    (ha : s.active n = some a) {r : Returned σ I α} (hr : r ∈ s.returned) : r.attempt ≠ n := by
  rintro rfl
  simp [(h.returned r hr).2.1] at ha

variable {n : Nat} {i : I} {q q' : Session σ α} {p p' : Progress σ} {sh : Shared σ I}

/-- A step that adds no write: the pending writes of `n` stay or are dropped. -/
theorem effect_of_subset (h : WellFormed K s) (ha : s.active n = some ⟨i, q, p⟩)
    (hws : p'.writes = p.writes ∨ p'.writes = []) (hcommitted : p'.committed = p.committed)
    (hh : sh.history = s.shared.history)
    (howner : sh.owner = s.shared.owner ∨
      p'.writes = [] ∧ sh.owner = (s.shared.release n).owner)
    (hclock : sh.clock = s.shared.clock)
    (hid : ∀ t, s.shared.identity t ≤ sh.identity t) :
    WellFormed K { s with
      shared := sh, active := Function.update s.active n (some ⟨i, q', p'⟩) } where
  active_lt m a hm := by
    rcases update_eq_some hm with ⟨rfl, _⟩ | ⟨_, hm⟩
    · exact h.active_lt m _ ha
    · exact h.active_lt m a hm
  history_lt c hc := h.history_lt c (hh ▸ hc)
  history_time c hc := by
    rw [hclock]
    exact h.history_time c (hh ▸ hc)
  committed m a hm := by
    rw [hh]
    rcases update_eq_some hm with ⟨rfl, hv⟩ | ⟨_, hm⟩
    · cases hv
      exact hcommitted.trans (h.committed m _ ha)
    · exact h.committed m a hm
  owned m a hm c hc l hl := by
    rcases update_eq_some hm with ⟨rfl, hv⟩ | ⟨hne, hm⟩
    · cases hv
      rcases howner with howner | ⟨hnil, _⟩
      · rcases hws with hws | hws
        · rw [howner]
          exact h.owned m _ ha c (hws ▸ hc) l hl
        · simp [hws] at hc
      · simp [hnil] at hc
    · have hold := h.owned m a hm c hc l hl
      rcases howner with howner | ⟨_, howner⟩
      · exact howner ▸ hold
      · exact howner ▸ Shared.release_owner hne hold
  keys := by
    rw [hh]
    exact h.keys
  pending m a hm := by
    rw [hh]
    rcases update_eq_some hm with ⟨rfl, hv⟩ | ⟨_, hm⟩
    · cases hv
      rcases hws with hws | hws
      · simpa [hws] using h.pending m _ ha
      · simp [hws]
    · exact h.pending m a hm
  ids t j hj := Nat.lt_of_lt_of_le (h.ids t j (hh ▸ hj)) (hid t)
  pendingIds m a hm row j hj := by
    refine Nat.lt_of_lt_of_le ?_ (hid _)
    rcases update_eq_some hm with ⟨rfl, hv⟩ | ⟨_, hm⟩
    · cases hv
      rcases hws with hws | hws
      · exact h.pendingIds m _ ha row j (hws ▸ hj)
      · simp [hws] at hj
    · exact h.pendingIds m a hm row j hj
  returned r hr := by
    obtain ⟨hlt, hnone, hc⟩ := h.returned r hr
    refine ⟨hlt, by simpa [h.returned_ne ha hr] using hnone, ?_⟩
    rw [hh]
    exact hc

theorem effect_wrote (h : WellFormed K s) (ha : s.active n = some ⟨i, q, p⟩) (c : Change σ)
    (hws : p'.writes = p.writes ++ [c]) (hcommitted : p'.committed = p.committed)
    (hfree : ∀ l ∈ E.locks c, ∀ m, s.shared.owner l = some m → m = n)
    (hok : E.violated (E.view s.shared.history p.writes) c = none)
    (hh : sh.history = s.shared.history)
    (howner : sh.owner = fun l => if l ∈ E.locks c then some n else s.shared.owner l)
    (hclock : sh.clock = s.shared.clock)
    (hid : ∀ t, s.shared.identity t ≤ sh.identity t)
    (hused : ∀ row id, c = .inserted row id →
      id = s.shared.identity (E.table row) ∧ sh.identity (E.table row) = id + 1) :
    WellFormed K { s with
      shared := sh, active := Function.update s.active n (some ⟨i, q', p'⟩) } where
  active_lt m a hm := by
    rcases update_eq_some hm with ⟨rfl, _⟩ | ⟨_, hm⟩
    · exact h.active_lt m _ ha
    · exact h.active_lt m a hm
  history_lt c hc := h.history_lt c (hh ▸ hc)
  history_time c hc := by
    rw [hclock]
    exact h.history_time c (hh ▸ hc)
  committed m a hm := by
    rw [hh]
    rcases update_eq_some hm with ⟨rfl, hv⟩ | ⟨_, hm⟩
    · cases hv
      exact hcommitted.trans (h.committed m _ ha)
    · exact h.committed m a hm
  owned m a hm c' hc' l hl := by
    rw [howner]
    rcases update_eq_some hm with ⟨rfl, hv⟩ | ⟨hne, hm⟩
    · cases hv
      by_cases hlc : l ∈ E.locks c
      · simp [hlc]
      · rcases List.mem_append.mp (hws ▸ hc') with hold | hnew
        · simpa [hlc] using h.owned m _ ha c' hold l hl
        · rw [List.mem_singleton.mp hnew] at hl
          exact absurd hl hlc
    · have hold := h.owned m a hm c' hc' l hl
      have hlc : l ∉ E.locks c := fun hmem => hne (hfree l hmem m hold)
      simpa [hlc] using hold
  keys := by
    rw [hh]
    exact h.keys
  pending m a hm := by
    rw [hh]
    rcases update_eq_some hm with ⟨rfl, hv⟩ | ⟨_, hm⟩
    · cases hv
      obtain ⟨hnodup, hdb⟩ := h.pending m _ ha
      have hnew : ∀ k ∈ K.newKeys c, k ∉ K.keys (E.state s.shared.history) ∧
          k ∉ K.pendingKeys p.writes := by
        intro k hk
        have hview := K.newKeys_free _ c hok k hk
        rw [Engine.view, (K.keys_replay _ _).mem_iff, List.mem_append, not_or] at hview
        exact hview
      simp only [hws, KeyLaws.pendingKeys_concat]
      refine ⟨hnodup.append (K.newKeys_nodup c) fun k hk hk' => (hnew k hk').2 hk, ?_⟩
      intro k hk
      rcases List.mem_append.mp hk with hk | hk
      · exact hdb k hk
      · exact (hnew k hk).1
    · exact h.pending m a hm
  ids t j hj := Nat.lt_of_lt_of_le (h.ids t j (hh ▸ hj)) (hid t)
  pendingIds m a hm row j hj := by
    rcases update_eq_some hm with ⟨rfl, hv⟩ | ⟨_, hm⟩
    · cases hv
      rcases List.mem_append.mp (hws ▸ hj) with hold | hnew
      · exact Nat.lt_of_lt_of_le (h.pendingIds m _ ha row j hold) (hid _)
      · obtain ⟨_, hnext⟩ := hused row j (List.mem_singleton.mp hnew).symm
        exact hnext ▸ Nat.lt_succ_self j
    · exact Nat.lt_of_lt_of_le (h.pendingIds m a hm row j hj) (hid _)
  returned r hr := by
    obtain ⟨hlt, hnone, hc⟩ := h.returned r hr
    refine ⟨hlt, by simpa [h.returned_ne ha hr] using hnone, ?_⟩
    rw [hh]
    exact hc

theorem effect_committed (h : WellFormed K s) (ha : s.active n = some ⟨i, q, p⟩)
    (hws : p'.writes = []) (hcommitted : p'.committed = p.committed ++ [p.writes])
    (hh : sh.history = s.shared.history ++ [⟨n, i, s.shared.clock, p.writes⟩])
    (howner : sh.owner = (s.shared.release n).owner)
    (hclock : sh.clock = s.shared.clock) (hid : sh.identity = s.shared.identity) :
    WellFormed K { s with
      shared := sh, active := Function.update s.active n (some ⟨i, q', p'⟩) } where
  active_lt m a hm := by
    rcases update_eq_some hm with ⟨rfl, _⟩ | ⟨_, hm⟩
    · exact h.active_lt m _ ha
    · exact h.active_lt m a hm
  history_lt c hc := by
    rcases List.mem_append.mp (hh ▸ hc) with hc | hc
    · exact h.history_lt c hc
    · rw [List.mem_singleton.mp hc]
      exact h.active_lt n _ ha
  history_time c hc := by
    rw [hclock]
    rcases List.mem_append.mp (hh ▸ hc) with hc | hc
    · exact h.history_time c hc
    · obtain rfl := List.mem_singleton.mp hc
      exact Int.le_refl _
  committed m a hm := by
    rw [hh]
    rcases update_eq_some hm with ⟨rfl, hv⟩ | ⟨hne, hm⟩
    · cases hv
      simpa [hcommitted] using h.committed m _ ha
    · rw [commitsOf_concat_of_ne (Ne.symm hne)]
      exact h.committed m a hm
  owned m a hm c hc l hl := by
    rw [howner]
    rcases update_eq_some hm with ⟨rfl, hv⟩ | ⟨hne, hm⟩
    · cases hv
      simp [hws] at hc
    · exact Shared.release_owner hne (h.owned m a hm c hc l hl)
  keys := by
    rw [hh, Engine.state_concat]
    exact h.view_keys ha
  pending m a hm := by
    rw [hh, Engine.state_concat]
    rcases update_eq_some hm with ⟨rfl, hv⟩ | ⟨hne, hm⟩
    · cases hv
      simp [hws]
    · obtain ⟨hnodup, hdb⟩ := h.pending m a hm
      refine ⟨hnodup, fun k hk hk' => ?_⟩
      rcases List.mem_append.mp ((K.keys_replay _ _).mem_iff.mp hk') with hold | hnew
      · exact hdb k hk hold
      · -- the key is locked by `m` and by `n`
        have hm' := h.pendingKeys_owned hm hk
        have hn' := h.pendingKeys_owned ha hnew
        exact hne (Option.some.inj (hm'.symm.trans hn'))
  ids t j hj := by
    rw [hid]
    rw [hh, Engine.state_concat] at hj
    exact h.view_ids ha hj
  pendingIds m a hm row j hj := by
    rw [hid]
    rcases update_eq_some hm with ⟨rfl, hv⟩ | ⟨_, hm⟩
    · cases hv
      simp [hws] at hj
    · exact h.pendingIds m a hm row j hj
  returned r hr := by
    obtain ⟨hlt, hnone, hc⟩ := h.returned r hr
    have hne := h.returned_ne ha hr
    refine ⟨hlt, by simpa [hne] using hnone, ?_⟩
    rw [hh, commitsOf_concat_of_ne hne.symm]
    exact hc

theorem effect (h : WellFormed K s) (ha : s.active n = some ⟨i, q, p⟩)
    (he : Effect E n i p s.shared p' sh) :
    WellFormed K { s with
      shared := sh, active := Function.update s.active n (some ⟨i, q', p'⟩) } := by
  cases he with
  | quiet hws hc hh ho hclock hid =>
    exact h.effect_of_subset ha (.inl hws) hc hh (.inl ho) hclock hid
  | wrote c hws hc hfree hok hh ho hclock hid hused =>
    exact h.effect_wrote ha c hws hc hfree hok hh ho hclock hid hused
  | committed hws hc hh ho hclock hid =>
    exact h.effect_committed ha hws hc hh ho hclock hid
  | dropped hws hc hh ho hclock hid =>
    exact h.effect_of_subset ha (.inr hws) hc hh (.inr ⟨hws, ho⟩) hclock
      fun t => by rw [hid]

theorem step {l : Label σ I} (h : WellFormed K s) (hst : step E prog s l = some t) :
    WellFormed K t := by
  cases l with
  | start i => exact step_start hst ▸ h.start i
  | exec n choice =>
    obtain ⟨i, o, k, p, r, p', sh, ha, hr, rfl⟩ := step_exec hst
    exact h.effect ha (respond_effect hr)
  | finish n =>
    obtain ⟨i, q, p, r, ha, _, rfl⟩ := step_finish hst
    refine { h.leave n with returned := fun r hr => ?_ }
    rcases List.mem_append.mp hr with hr | hr
    · exact (h.leave n).returned r hr
    · rw [List.mem_singleton.mp hr]
      exact ⟨h.active_lt n _ ha, by simp [State.leave], h.committed n _ ha⟩
  | crash n =>
    obtain ⟨_, _, rfl⟩ := step_crash hst
    exact h.leave n
  | tick d =>
    cases hst
    refine { h with history_time := fun c hc => ?_ }
    have := h.history_time c hc
    simp only
    omega
  | remote r =>
    cases hst
    exact { h with }

end WellFormed

theorem Reachable.wellFormed {E : Engine σ} (K : KeyLaws E) {prog : I → Session σ α}
    {s : State σ I α} (h : Reachable E prog s) : WellFormed K s := by
  obtain ⟨clock, remote, h⟩ := h
  exact h.invariant (WellFormed.initial clock remote) fun _ _ _ hs hst => hs.step hst

end Transaction
