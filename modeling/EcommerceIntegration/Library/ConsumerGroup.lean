import Mathlib.Data.List.Nodup
import Mathlib.Data.List.Range
import Mathlib.Tactic.Common

/-!
# A stream with one consumer group

Entries are appended and never trimmed, so the place of an entry is its id. The group
hands each entry out once, in order. From then on it is pending, with its owner and the
number of its deliveries, until some consumer acknowledges it.
-/

namespace ConsumerGroup

set_option autoImplicit false

structure Pending where
  id : Nat
  consumer : Nat
  deliveredAt : Nat
  deliveries : Nat

def Pending.idle (minIdle now : Nat) (p : Pending) : Bool := decide (p.deliveredAt + minIdle ≤ now)

/-- The claim of `ids` takes the entry. -/
def Pending.claimable (ids : List Nat) (minIdle now : Nat) (p : Pending) : Bool :=
  decide (p.id ∈ ids) && p.idle minIdle now

/-- The entries below `delivered` have been handed out. -/
structure Stream (α : Type) where
  entries : List α
  delivered : Nat
  pending : List Pending
  delivered_le : delivered ≤ entries.length
  pending_lt : ∀ p ∈ pending, p.id < delivered
  pending_nodup : (pending.map Pending.id).Nodup

variable {α : Type}

namespace Stream

def empty : Stream α where
  entries := []
  delivered := 0
  pending := []
  delivered_le := Nat.le_refl 0
  pending_lt := by simp
  pending_nodup := List.nodup_nil

def xadd (a : α) (s : Stream α) : Stream α where
  entries := s.entries ++ [a]
  delivered := s.delivered
  pending := s.pending
  delivered_le := by
    have h := s.delivered_le
    simp only [List.length_append]
    omega
  pending_lt := s.pending_lt
  pending_nodup := s.pending_nodup

def xlen (s : Stream α) : Nat := s.entries.length

/-- The entries that a read of `count` hands out, each with its id. -/
def fresh (count : Nat) (s : Stream α) : List (α × Nat) :=
  (s.entries.zipIdx.drop s.delivered).take count

theorem fresh_length (count : Nat) (s : Stream α) :
    (s.fresh count).length = min count (s.entries.length - s.delivered) := by
  simp [fresh]

theorem fresh_ids (count : Nat) (s : Stream α) :
    (s.fresh count).map Prod.snd = List.range' s.delivered (s.fresh count).length := by
  refine List.ext_getElem (by simp) fun n hn hn' => ?_
  simp [fresh]

theorem mem_fresh {count id : Nat} {s : Stream α} {a : α} (h : (a, id) ∈ s.fresh count) :
    s.entries[id]? = some a := by
  have hmem : (a, id) ∈ s.entries.zipIdx := List.mem_of_mem_drop (List.mem_of_mem_take h)
  exact (List.mem_zipIdx_iff_getElem?).mp hmem

def xreadgroup (consumer count now : Nat) (s : Stream α) : Stream α where
  entries := s.entries
  delivered := s.delivered + (s.fresh count).length
  pending := s.pending ++ (s.fresh count).map fun e => ⟨e.2, consumer, now, 1⟩
  delivered_le := by
    have h := s.delivered_le
    rw [fresh_length]
    omega
  pending_lt := by
    intro p hp
    rcases List.mem_append.mp hp with hold | hnew
    · have h := s.pending_lt p hold
      omega
    · obtain ⟨e, he, rfl⟩ := List.mem_map.mp hnew
      have hid : e.2 ∈ (s.fresh count).map Prod.snd := List.mem_map_of_mem he
      rw [fresh_ids, List.mem_range'_1] at hid
      exact hid.2
  pending_nodup := by
    rw [List.map_append, List.map_map]
    have hnew : (Pending.id ∘ fun e : α × Nat => (⟨e.2, consumer, now, 1⟩ : Pending)) = Prod.snd :=
      rfl
    rw [hnew, fresh_ids]
    refine s.pending_nodup.append List.nodup_range' fun id hold hin => ?_
    obtain ⟨p, hp, rfl⟩ := List.mem_map.mp hold
    have hlt := s.pending_lt p hp
    have hle := (List.mem_range'_1.mp hin).1
    omega

/-- The first `count` pending entries that are idle. -/
def xpendingRange (count minIdle now : Nat) (s : Stream α) : List Pending :=
  (s.pending.filter (Pending.idle minIdle now)).take count

def claimed (ids : List Nat) (minIdle now : Nat) (s : Stream α) : List (α × Nat) :=
  (s.pending.filter (Pending.claimable ids minIdle now)).filterMap fun p =>
    s.entries[p.id]?.map fun a => (a, p.id)

@[simp] theorem claimed_nil (minIdle now : Nat) (s : Stream α) : s.claimed [] minIdle now = [] := by
  have hnone : s.pending.filter (Pending.claimable [] minIdle now) = [] :=
    List.filter_eq_nil_iff.mpr fun p _ => by simp [Pending.claimable]
  rw [claimed, hnone, List.filterMap_nil]

theorem mem_claimed {ids : List Nat} {minIdle now id : Nat} {s : Stream α} {a : α}
    (h : (a, id) ∈ s.claimed ids minIdle now) :
    s.entries[id]? = some a ∧ ∃ p ∈ s.pending, p.id = id ∧ p.claimable ids minIdle now = true := by
  obtain ⟨p, hp, heq⟩ := List.mem_filterMap.mp h
  obtain ⟨b, hb, hpair⟩ := Option.map_eq_some_iff.mp heq
  obtain ⟨rfl, rfl⟩ := Prod.mk.inj hpair
  obtain ⟨hp, hclaimable⟩ := List.mem_filter.mp hp
  exact ⟨hb, p, hp, rfl, hclaimable⟩

def xclaim (consumer : Nat) (ids : List Nat) (minIdle now : Nat) (s : Stream α) : Stream α where
  entries := s.entries
  delivered := s.delivered
  pending := s.pending.map fun p =>
    if Pending.claimable ids minIdle now p then ⟨p.id, consumer, now, p.deliveries + 1⟩ else p
  delivered_le := s.delivered_le
  pending_lt := by
    intro p hp
    obtain ⟨q, hq, rfl⟩ := List.mem_map.mp hp
    have h := s.pending_lt q hq
    split <;> exact h
  pending_nodup := by
    rw [List.map_map]
    have hsame : (Pending.id ∘ fun p : Pending =>
        if Pending.claimable ids minIdle now p then ⟨p.id, consumer, now, p.deliveries + 1⟩ else p)
        = Pending.id := by
      funext p
      simp only [Function.comp_apply]
      split <;> rfl
    rw [hsame]
    exact s.pending_nodup

def xack (ids : List Nat) (s : Stream α) : Stream α where
  entries := s.entries
  delivered := s.delivered
  pending := s.pending.filter fun p => decide (p.id ∉ ids)
  delivered_le := s.delivered_le
  pending_lt p hp := s.pending_lt p (List.mem_of_mem_filter hp)
  pending_nodup := s.pending_nodup.sublist (List.filter_sublist.map Pending.id)

/-! ## Counting deliveries -/

theorem count_fresh (count id : Nat) (s : Stream α) :
    ((s.fresh count).map Prod.snd).count id =
      if s.delivered ≤ id ∧ id < s.delivered + (s.fresh count).length then 1 else 0 := by
  rw [fresh_ids, List.Nodup.count List.nodup_range']
  simp only [List.mem_range'_1]

theorem claimed_ids (ids : List Nat) (minIdle now : Nat) (s : Stream α) :
    (s.claimed ids minIdle now).map Prod.snd =
      (s.pending.filter (Pending.claimable ids minIdle now)).map Pending.id := by
  rw [claimed, List.map_filterMap, ← List.filterMap_eq_map]
  refine List.filterMap_congr fun p hp => ?_
  have hlt := Nat.lt_of_lt_of_le (s.pending_lt p (List.mem_of_mem_filter hp)) s.delivered_le
  simp [List.getElem?_eq_getElem hlt]

theorem claimed_nodup (ids : List Nat) (minIdle now : Nat) (s : Stream α) :
    ((s.claimed ids minIdle now).map Prod.snd).Nodup := by
  rw [claimed_ids]
  exact s.pending_nodup.sublist (List.filter_sublist.map Pending.id)

theorem mem_claimed_ids (ids : List Nat) (minIdle now : Nat) {s : Stream α} {p : Pending}
    (hp : p ∈ s.pending) : p.id ∈ (s.claimed ids minIdle now).map Prod.snd ↔
      p.claimable ids minIdle now = true := by
  rw [claimed_ids, List.mem_map]
  constructor
  · rintro ⟨q, hq, hid⟩
    obtain ⟨hq, hclaimable⟩ := List.mem_filter.mp hq
    rwa [List.inj_on_of_nodup_map s.pending_nodup hq hp hid] at hclaimable
  · exact fun hclaimable => ⟨p, List.mem_filter.mpr ⟨hp, hclaimable⟩, rfl⟩

/-- What is pending after a read was pending before, or is a first delivery. -/
theorem pending_xreadgroup {consumer count now : Nat} {s : Stream α} {p : Pending}
    (hp : p ∈ (s.xreadgroup consumer count now).pending) :
    (p ∈ s.pending ∧ ((s.fresh count).map Prod.snd).count p.id = 0) ∨
      (s.delivered ≤ p.id ∧ p.deliveries = 1 ∧ ((s.fresh count).map Prod.snd).count p.id = 1) := by
  rw [count_fresh]
  rcases List.mem_append.mp hp with hold | hnew
  · left
    have hlt := s.pending_lt p hold
    exact ⟨hold, if_neg (by omega)⟩
  · right
    obtain ⟨e, he, rfl⟩ := List.mem_map.mp hnew
    have hid : e.2 ∈ (s.fresh count).map Prod.snd := List.mem_map_of_mem he
    rw [fresh_ids, List.mem_range'_1] at hid
    exact ⟨hid.1, rfl, if_pos hid⟩

/-- A claim counts one more delivery of every entry that it hands out. -/
theorem pending_xclaim {consumer minIdle now : Nat} {ids : List Nat} {s : Stream α} {p : Pending}
    (hp : p ∈ (s.xclaim consumer ids minIdle now).pending) :
    ∃ q ∈ s.pending, q.id = p.id ∧
      p.deliveries = q.deliveries + ((s.claimed ids minIdle now).map Prod.snd).count p.id := by
  obtain ⟨q, hq, rfl⟩ := List.mem_map.mp hp
  have hmem := mem_claimed_ids ids minIdle now hq
  refine ⟨q, hq, ?_⟩
  split
  · rename_i hclaimable
    exact ⟨rfl, by rw [(claimed_nodup ids minIdle now s).count, if_pos (hmem.mpr hclaimable)]⟩
  · rename_i hnot
    exact ⟨rfl, by rw [(claimed_nodup ids minIdle now s).count, if_neg (mt hmem.mp hnot)]; rfl⟩

/-! ## Acknowledged entries -/

/-- The entry has been handed out and is pending no longer. -/
def Acknowledged (s : Stream α) (id : Nat) : Prop :=
  id < s.delivered ∧ ∀ p ∈ s.pending, p.id ≠ id

instance (s : Stream α) (id : Nat) : Decidable (s.Acknowledged id) :=
  inferInstanceAs (Decidable (id < s.delivered ∧ ∀ p ∈ s.pending, p.id ≠ id))

def unacknowledged (s : Stream α) : List Nat :=
  (List.range s.xlen).filter fun id => decide (¬ s.Acknowledged id)

theorem Acknowledged.lt {s : Stream α} {id : Nat} (h : s.Acknowledged id) : id < s.xlen :=
  Nat.lt_of_lt_of_le h.1 s.delivered_le

/-- As many entries as there are, unless one has been acknowledged. -/
theorem unacknowledged_length_iff (s : Stream α) :
    s.unacknowledged.length = s.xlen ↔ ∀ id, ¬ s.Acknowledged id := by
  unfold unacknowledged
  constructor
  · intro h id hack
    have hall := List.length_filter_eq_length_iff.mp (h.trans List.length_range.symm)
    have hid := hall id (List.mem_range.mpr hack.lt)
    exact of_decide_eq_true hid hack
  · intro h
    rw [List.filter_eq_self.mpr fun id _ => decide_eq_true (h id), List.length_range]

@[simp] theorem not_acknowledged_empty (id : Nat) : ¬ (empty : Stream α).Acknowledged id :=
  fun h => Nat.not_lt_zero id h.1

@[simp] theorem acknowledged_xadd {a : α} {s : Stream α} {id : Nat} :
    (s.xadd a).Acknowledged id ↔ s.Acknowledged id := Iff.rfl

@[simp] theorem acknowledged_xreadgroup {consumer count now : Nat} {s : Stream α} {id : Nat} :
    (s.xreadgroup consumer count now).Acknowledged id ↔ s.Acknowledged id := by
  constructor
  · rintro ⟨hlt, hnone⟩
    have hlt : id < s.delivered + (s.fresh count).length := hlt
    have hlt' : id < s.delivered := by
      by_contra hge
      have hin : id ∈ (s.fresh count).map Prod.snd := by
        rw [fresh_ids, List.mem_range'_1]
        omega
      obtain ⟨e, he, rfl⟩ := List.mem_map.mp hin
      exact hnone _ (List.mem_append_right _ (List.mem_map_of_mem he)) rfl
    exact ⟨hlt', fun p hp => hnone p (List.mem_append_left _ hp)⟩
  · rintro ⟨hlt, hnone⟩
    refine ⟨Nat.lt_of_lt_of_le hlt (Nat.le_add_right _ _), fun p hp => ?_⟩
    rcases List.mem_append.mp hp with hold | hnew
    · exact hnone p hold
    · obtain ⟨e, he, rfl⟩ := List.mem_map.mp hnew
      have hid : e.2 ∈ (s.fresh count).map Prod.snd := List.mem_map_of_mem he
      rw [fresh_ids, List.mem_range'_1] at hid
      simp only
      omega

@[simp] theorem acknowledged_xclaim {consumer minIdle now : Nat} {ids : List Nat} {s : Stream α}
    {id : Nat} : (s.xclaim consumer ids minIdle now).Acknowledged id ↔ s.Acknowledged id := by
  refine and_congr_right fun _ => ?_
  simp only [xclaim, List.mem_map, forall_exists_index, and_imp, forall_apply_eq_imp_iff₂]
  refine forall₂_congr fun p _ => ?_
  split <;> rfl

theorem acknowledged_xack {ids : List Nat} {s : Stream α} {id : Nat} :
    (s.xack ids).Acknowledged id ↔ s.Acknowledged id ∨ (id < s.delivered ∧ id ∈ ids) := by
  constructor
  · rintro ⟨hlt, hnone⟩
    by_cases hid : id ∈ ids
    · exact .inr ⟨hlt, hid⟩
    · refine .inl ⟨hlt, ?_⟩
      rintro p hp rfl
      exact hnone p (List.mem_filter.mpr ⟨hp, decide_eq_true hid⟩) rfl
  · rintro (⟨hlt, hnone⟩ | ⟨hlt, hid⟩)
    · exact ⟨hlt, fun p hp => hnone p (List.mem_of_mem_filter hp)⟩
    · refine ⟨hlt, ?_⟩
      rintro p hp rfl
      exact of_decide_eq_true (List.mem_filter.mp hp).2 hid

end Stream

end ConsumerGroup
