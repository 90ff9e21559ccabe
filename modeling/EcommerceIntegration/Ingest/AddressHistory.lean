import EcommerceIntegration.Ingest.AddressTimes
import EcommerceIntegration.Ingest.ClientRuns
import EcommerceIntegration.Ingest.Notification
import EcommerceIntegration.Library.TwoPhase
import EcommerceIntegration.Library.Versions

/-!
# The versions of an address

Two workers may read the same current version and both close it. The unique index on the
current versions lets only one of them open the next, and the other is rolled back.
-/

namespace EcommerceIntegration

set_option autoImplicit false

open Transaction

/-! ## What a commit does to the versions -/

/-- The versions of the address, in the order of the table. -/
def versionsOf (d : Database) (addressUid : String) : List Address :=
  d.address.filter (·.addressUid == addressUid)

/-- The change leaves the table of addresses as it is. -/
def SparesAddresses (c : Change) : Prop := ∀ d : Database, (engine.apply d c).address = d.address

theorem sparesAddresses_of_write {t : EventType} (ht : t ≠ .clientUpserted) {c : Change}
    (hc : HandlerWrite t c) : SparesAddresses c := by
  intro d
  cases c with
  | inserted row id =>
    cases row with
    | address r => exact (ht (hc.type_unique trivial)).elim
    | client | order | orderItem | payment | invoice | outbox => rfl
  | executed stmt =>
    cases stmt with
    | closeAddress id t' => exact (ht (hc.type_unique trivial)).elim
    | registerEvent | updateClient | updateOrder | updatePayment => rfl

theorem address_replay {ws : List Change} (hws : ∀ c ∈ ws, SparesAddresses c) (d : Database) :
    (engine.replay d ws).address = d.address :=
  Engine.replay_spares hws d

theorem sparesAddresses_ledgerRow (i : EventEnvelope) : SparesAddresses (ledgerRow i) :=
  fun _ => rfl

theorem ClientWritten.sparesAddresses {R : Rely store EventEnvelope} {data : ClientUpsertedData}
    {h h' : History} {ws new : List Change} (hw : ClientWritten R data h ws h' new) :
    ∀ c ∈ new, SparesAddresses c := by
  intro c hc
  cases hw with
  | created =>
    obtain rfl := List.mem_singleton.mp hc
    exact fun _ => rfl
  | updated =>
    unfold clientRecord at hc
    split at hc
    · obtain rfl := List.mem_singleton.mp hc
      exact fun _ => rfl
    · cases hc

/-- What a commit does to the addresses. -/
inductive AddressEffect (h : History) (ws : List Change) : Prop
  | none (spares : ∀ c ∈ ws, SparesAddresses c)
  | opened {us clientId payload t id} (spares : ∀ c ∈ us, SparesAddresses c)
      (writes : ws = us ++ [.inserted (.address (newVersion clientId payload t)) id])
  | replaced {us clientId payload h₁ h₂ h₃ vs v t id} (spares : ∀ c ∈ us, SparesAddresses c)
      (writes : ws = us ++ [.executed (.closeAddress v.addressId t)] ++
        [.inserted (.address (newVersion clientId payload t)) id])
      (read : h₁ <+: h₂) (clock : h₂ <+: h₃) (inserted : h₃ <+: h)
      (found : v ∈ (engine.state h₁).address) (uid : v.addressUid = payload.addressUid)
      (differs : v.fields ≠ payload.fields)
      (time : Later h₂ t)
      (new : NewId keyLaws h₃ vs (.address (newVersion clientId payload t)) id)

theorem currentVersion_spec {d : Database} {addressUid : String} {v : Address}
    (h : currentVersion d addressUid = some v) :
    v ∈ d.address ∧ v.addressUid = addressUid ∧ v.isCurrent = true := by
  have hv := List.find?_some h
  simp only [Bool.and_eq_true, beq_iff_eq] at hv
  exact ⟨List.mem_of_find?_eq_some h, hv.1, hv.2⟩

theorem CompleteEffect.addressEffect {i : EventEnvelope} {h : History} {ws : List Change}
    (hc : CompleteEffect others i h ws) : AddressEffect h ws := by
  by_cases ht : i.eventType = .clientUpserted
  · obtain ⟨h₀, _, hr⟩ := hc
    rw [ht] at hr
    obtain ⟨data, clientId, h₁, client, address, _, hclient, haddress, _, _, rfl⟩ :=
      clientHandler_runs hr
    have hspares : ∀ c ∈ [ledgerRow i] ++ client, SparesAddresses c := by
      intro c hc
      rcases List.mem_append.mp hc with hc | hc
      · exact List.mem_singleton.mp hc ▸ sparesAddresses_ledgerRow i
      · exact hclient.sparesAddresses c hc
    cases haddress with
    | kept => exact .none (by simpa using hspares)
    | opened => exact .opened hspares rfl
    | replaced read clock inserted later found differs time new =>
      obtain ⟨hmem, huid, _⟩ := currentVersion_spec found
      refine .replaced hspares (by simp) clock inserted later ?_ huid differs time new
      rwa [Engine.view, address_replay hspares] at hmem
  · exact .none (hc.spares (sparesAddresses_ledgerRow i) fun c => sparesAddresses_of_write ht)

/-! ## No other version is current where the next is opened -/

/-- The same change is made to both databases. -/
theorem NoNewCurrent.apply {addressUid : String} {d d' : Database}
    (h : NoNewCurrent addressUid d d') (c : Change) :
    NoNewCurrent addressUid (engine.apply d c) (engine.apply d' c) := by
  intro a ha hcur huid
  cases c with
  | inserted row id =>
    cases row with
    | address r =>
      rcases List.mem_append.mp ha with ha | ha
      · exact List.mem_append_left _ (h a ha hcur huid)
      · exact List.mem_append_right _ ha
    | client | order | orderItem | payment | invoice | outbox => exact h a ha hcur huid
  | executed stmt =>
    cases stmt with
    | closeAddress id t =>
      obtain ⟨b, hb, ⟨_, rfl⟩ | ⟨hid, rfl⟩⟩ := mem_updateWhere.mp ha
      · cases hcur
      · exact mem_updateWhere.mpr ⟨a, h a hb hcur huid, .inr ⟨hid, rfl⟩⟩
    | registerEvent | updateClient | updateOrder | updatePayment => exact h a ha hcur huid

theorem NoNewCurrent.replay {addressUid : String} {d d' : Database}
    (h : NoNewCurrent addressUid d d') (ws : List Change) :
    NoNewCurrent addressUid (engine.replay d ws) (engine.replay d' ws) := by
  induction ws generalizing d d' with
  | nil => exact h
  | cons c ws ih => exact ih (h.apply c)

theorem noNewCurrent_state {addressUid : String} {h later : History}
    (hlater : ∀ k ∈ later, ∀ c ∈ k.writes, .currentAddress addressUid ∉ locks c) :
    NoNewCurrent addressUid (engine.state h) (engine.state (h ++ later)) := by
  induction later using List.reverseRecOn with
  | nil =>
    rw [List.append_nil]
    exact fun a ha _ _ => ha
  | append_singleton later k ih =>
    intro a ha hcur huid
    rw [← List.append_assoc, Engine.state_concat] at ha
    have hmid := noNewCurrent_replay (hlater k (by simp)) _ a ha hcur huid
    exact ih (fun k' hk' => hlater k' (List.mem_append_left _ hk')) a hmid hcur huid

/-- The unique index on the current versions holds where the transaction is committed. -/
theorem no_current_of_unopposed {h : History} {us vs : List Change} {r : Address} {id : Nat}
    (hu : Unopposed engine h (us ++ .inserted (.address r) id :: vs)) (hr : r.isCurrent = true)
    {a : Address} (ha : a ∈ (engine.view h us).address) (hcur : a.isCurrent = true) :
    a.addressUid ≠ r.addressUid := by
  intro huid
  obtain ⟨h₀, later, rfl, hok, hlater⟩ := hu us _ vs rfl
  have hold : a ∈ (engine.view h₀ us).address := by
    refine (noNewCurrent_state fun k hk c hc => ?_).replay us a ha hcur huid
    exact hlater k hk c hc _ (by simp [engine, locks, hr])
  have hnone := firstViolated_eq_none.mp hok (_, .uxAddressUidCurrent)
    (List.mem_cons_of_mem _ List.mem_cons_self)
  simp only [hr, Bool.true_and, List.any_eq_false, Bool.and_eq_true, beq_iff_eq, not_and] at hnone
  exact hnone a hold huid hcur

/-! ## The chain of versions -/

def addressColumns : Versions.Columns Address AddressFields where
  key := Address.addressId
  validFrom := Address.validFrom
  validTo := Address.validTo
  isCurrent := Address.isCurrent
  content := Address.fields
  close := Address.close
  key_close _ _ := rfl
  validFrom_close _ _ := rfl
  validTo_close _ _ := rfl
  isCurrent_close _ _ := rfl
  content_close _ _ := rfl

/-- The versions of every address have been opened one after the other. -/
def Versioning (d : Database) : Prop :=
  ∀ addressUid, versionsOf d addressUid = [] ∨
    ∃ init last, versionsOf d addressUid = init ++ [last] ∧ addressColumns.Opened init last

theorem mem_versionsOf {d : Database} {addressUid : String} {a : Address} :
    a ∈ versionsOf d addressUid ↔ a ∈ d.address ∧ a.addressUid = addressUid := by
  simp [versionsOf]

theorem versionsOf_insert (d : Database) (id : Nat) (r : Address) (addressUid : String) :
    versionsOf (d.insert id (.address r)) addressUid = versionsOf d addressUid ++
      if r.addressUid = addressUid then [{ r with addressId := id }] else [] := by
  simp only [versionsOf, Database.insert, List.filter_append, List.filter_singleton]
  congr 1
  by_cases huid : r.addressUid = addressUid
  · rw [if_pos huid, beq_iff_eq.mpr huid]
    rfl
  · rw [if_neg huid, beq_eq_false_iff_ne.mpr huid]
    rfl

theorem versionsOf_close (d : Database) (id : Nat) (t : Time) (addressUid : String) :
    versionsOf (d.execute (.closeAddress id t)) addressUid =
      updateWhere (·.addressId == id) (Address.close t) (versionsOf d addressUid) := by
  have hset : ∀ a : Address, ((a.close t).addressUid == addressUid) =
      (a.addressUid == addressUid) := fun _ => rfl
  exact filter_updateWhere hset d.address

theorem address_of_replay {d : Database} {ws : List Change} {a : Address}
    (ha : a ∈ (engine.replay d ws).address) :
    (∃ b ∈ d.address, b.validFrom = a.validFrom) ∨
      ∃ c ∈ ws, a.validFrom ∈ addressTimes c := by
  induction ws using List.reverseRecOn generalizing a with
  | nil => exact .inl ⟨a, ha, rfl⟩
  | append_singleton ws c ih =>
    rw [Engine.replay_append, Engine.replay_cons, Engine.replay_nil] at ha
    have keep : ∀ b ∈ (engine.replay d ws).address, b.validFrom = a.validFrom →
        (∃ b ∈ d.address, b.validFrom = a.validFrom) ∨
          ∃ c' ∈ ws ++ [c], a.validFrom ∈ addressTimes c' := by
      intro b hb heq
      rw [← heq]
      rcases ih hb with hold | ⟨c', hc', ht⟩
      · exact .inl hold
      · exact .inr ⟨c', List.mem_append_left _ hc', ht⟩
    cases c with
    | inserted row id =>
      cases row with
      | address r =>
        rcases List.mem_append.mp ha with hold | hnew
        · exact keep a hold rfl
        · obtain rfl := List.mem_singleton.mp hnew
          exact .inr ⟨_, List.mem_append_right _ (List.mem_singleton.mpr rfl),
            List.mem_singleton.mpr rfl⟩
      | client | order | orderItem | payment | invoice | outbox => exact keep a ha rfl
    | executed stmt =>
      cases stmt with
      | closeAddress id t =>
        obtain ⟨b, hb, ⟨_, rfl⟩ | ⟨_, rfl⟩⟩ := mem_updateWhere.mp ha
        · exact keep b hb rfl
        · exact keep a hb rfl
      | registerEvent | updateClient | updateOrder | updatePayment => exact keep a ha rfl

/-- A stored version is valid from a time at which a commit of the history was still to
come. -/
theorem validFrom_le_commit {h : History}
    (htimes : ∀ k ∈ h, ∀ c ∈ k.writes, ∀ t ∈ addressTimes c, t ≤ k.time) {a : Address}
    (ha : a ∈ (engine.state h).address) : ∃ k ∈ h, a.validFrom ≤ k.time := by
  induction h using List.reverseRecOn generalizing a with
  | nil => cases ha
  | append_singleton h k ih =>
    rw [Engine.state_concat] at ha
    rcases address_of_replay ha with ⟨b, hb, heq⟩ | ⟨c, hc, ht⟩
    · obtain ⟨k', hk', hle⟩ := ih (fun k' hk' => htimes k' (List.mem_append_left _ hk')) hb
      exact ⟨k', List.mem_append_left _ hk', heq ▸ hle⟩
    · exact ⟨k, by simp, htimes k (by simp) c hc _ ht⟩

section Step
variable {h : History} {d : Database} {clientId : Nat} {payload : AddressPayload} {t : Time}
  {id : Nat}

/-- The first version of an address. -/
theorem Versioning.open (hd : Versioning d)
    (hnone : ∀ a ∈ d.address, a.isCurrent = true → a.addressUid ≠ payload.addressUid) :
    Versioning (d.insert id (.address (newVersion clientId payload t))) := by
  intro uid
  rw [versionsOf_insert]
  by_cases huid : (newVersion clientId payload t).addressUid = uid
  · right
    rw [if_pos huid]
    rcases hd uid with hempty | ⟨init, last, hlast, hopened⟩
    · exact ⟨[], _, by rw [hempty], Versions.Columns.Opened.first ⟨rfl, rfl⟩⟩
    · have hmem : last ∈ versionsOf d uid := by simp [hlast]
      obtain ⟨hrow, hlastUid⟩ := mem_versionsOf.mp hmem
      exact absurd (hlastUid.trans huid.symm) (hnone last hrow hopened.current.1)
  · rw [if_neg huid, List.append_nil]
    exact hd uid

/-- The current version is closed and the next one opened. -/
theorem Versioning.replace (hd : Versioning d) {v : Address} (hv : v ∈ d.address)
    (hunique : ∀ a ∈ d.address, a.addressId = v.addressId → a = v) (huid : v.addressUid = payload.addressUid)
    (hdiffers : v.fields ≠ payload.fields) (hfrom : v.validFrom ≤ t) (hid : v.addressId < id)
    (hnone : ∀ a ∈ (d.execute (.closeAddress v.addressId t)).address, a.isCurrent = true →
      a.addressUid ≠ payload.addressUid) :
    Versioning ((d.execute (.closeAddress v.addressId t)).insert id
      (.address (newVersion clientId payload t))) := by
  intro uid
  rw [versionsOf_insert, versionsOf_close]
  by_cases hsame : (newVersion clientId payload t).addressUid = uid
  · right
    rw [if_pos hsame]
    rcases hd uid with hempty | ⟨init, last, hlast, hopened⟩
    · have hmem := mem_versionsOf.mpr ⟨hv, huid.trans hsame⟩
      rw [hempty] at hmem
      cases hmem
    · have hmem : last ∈ versionsOf d uid := by simp [hlast]
      obtain ⟨hrow, hlastUid⟩ := mem_versionsOf.mp hmem
      have heq : last = v := by
        -- another current version would be in the way of the next one
        by_contra hne
        refine hnone last (mem_updateWhere.mpr ⟨last, hrow, .inr ⟨?_, rfl⟩⟩) hopened.current.1
          (hlastUid.trans hsame.symm)
        exact beq_eq_false_iff_ne.mpr fun hid => hne (hunique last hrow hid)
      subst heq
      have hnext : addressColumns.Opened (init ++ [last.close t])
          { newVersion clientId payload t with addressId := id } :=
        hopened.replace hfrom hid rfl ⟨rfl, rfl⟩ hdiffers
      refine ⟨_, _, ?_, hnext⟩
      have hinit : updateWhere (·.addressId == last.addressId) (Address.close t) init = init := by
        refine updateWhere_eq_self fun a ha => beq_eq_false_iff_ne.mpr ?_
        have hlt := (List.pairwise_append.mp hopened.ordered).2.2 a ha last (by simp)
        exact Nat.ne_of_lt hlt
      have hboth : updateWhere (·.addressId == last.addressId) (Address.close t)
          (init ++ [last]) = updateWhere (·.addressId == last.addressId) (Address.close t) init ++
            [last.close t] := by
        simp [updateWhere]
      rw [hlast, hboth, hinit]
  · rw [if_neg hsame, List.append_nil, updateWhere_eq_self]
    · exact hd uid
    · intro a ha
      obtain ⟨hrow, haUid⟩ := mem_versionsOf.mp ha
      refine beq_eq_false_iff_ne.mpr fun hid => hsame ?_
      rw [hunique a hrow hid] at haUid
      exact huid.symm.trans haUid

theorem Versioning.spares (hd : Versioning d) {d' : Database} (heq : d'.address = d.address) :
    Versioning d' := by
  intro uid
  rw [versionsOf, heq]
  exact hd uid

end Step

/-- A commit keeps the versions of every address in order. -/
theorem versioning_concat {h : History} {k : IngestCommit} (hd : Versioning (engine.state h))
    (hkeys : (engine.state h).keys.Nodup) (he : AddressEffect h k.writes)
    (hu : Unopposed engine h k.writes)
    (htimes : ∀ k ∈ h, ∀ c ∈ k.writes, ∀ t ∈ addressTimes c, t ≤ k.time) :
    Versioning (engine.state (h ++ [k])) := by
  rw [Engine.state_concat]
  cases he with
  | none spares => exact hd.spares (address_replay spares _)
  | opened spares writes =>
    rename_i us clientId payload t id
    rw [writes] at hu ⊢
    rw [Engine.replay_append, Engine.replay_cons, Engine.replay_nil]
    have hus : (engine.replay (engine.state h) us).address = (engine.state h).address :=
      address_replay spares _
    exact (hd.spares hus).open fun a ha hcur => no_current_of_unopposed hu rfl ha hcur
  | replaced spares writes read clock inserted found uid differs time new =>
    rename_i us clientId payload h₁ h₂ h₃ vs v t id
    rw [writes] at hu ⊢
    rw [Engine.replay_append, Engine.replay_append]
    have hus : (engine.replay (engine.state h) us).address = (engine.state h).address :=
      address_replay spares _
    -- the version that was read is still stored
    obtain ⟨v', hv', hfixed⟩ := List.mem_map.mp
      (addresses_grow.state (read.trans (clock.trans inserted)) (List.mem_map_of_mem found))
    obtain ⟨hid, huid, _, hfields, hfrom⟩ := Address.columns_of_fixed hfixed
    obtain ⟨k', hk', hle⟩ := validFrom_le_commit
      (fun k' hk' => htimes k' ((read.trans (clock.trans inserted)).subset hk')) found
    rw [← hid] at hu ⊢
    refine (hd.spares hus).replace (hus ▸ hv') ?_ (huid.trans uid) (hfields ▸ differs) ?_ ?_ ?_
    · intro a ha heq
      exact address_unique_id hkeys (hus ▸ ha) hv' heq
    · rw [hfrom]
      exact Int.le_trans hle (time k' (read.subset hk'))
    · refine new v'.addressId (hid ▸ ?_)
      have hids : v.addressId ∈ (engine.state h₁).ids .address := List.mem_map_of_mem found
      have hnil : [] <+: vs := List.nil_prefix
      exact mem_ids_view (read.trans clock) hnil hids
    · intro a ha hcur
      refine no_current_of_unopposed hu rfl ?_ hcur
      rw [Engine.view, Engine.replay_append]
      exact ha

theorem IngestReachable.versioning {s : IngestState} (hs : IngestReachable s) :
    ∀ h, h <+: s.shared.history → Versioning (engine.state h) := by
  intro h hpre
  induction h using List.reverseRecOn with
  | nil => exact fun _ => .inl rfl
  | append_singleton h k ih =>
    have hbefore : h <+: s.shared.history := (List.prefix_append h [k]).trans hpre
    have heffect := (hs.consistent.of_prefix hpre).effect.addressEffect
    refine versioning_concat (ih hbefore) (hs.consistent.of_prefix hbefore).keys heffect
      (Reachable.unopposed keyLaws hs hpre) fun k' hk' => ?_
    exact hs.punctual.committed k' (hbefore.subset hk')

/-- The versions of an address, ordered by `address_id`. -/
def addressVersions (d : Database) (addressUid : String) : List Address :=
  (versionsOf d addressUid).mergeSort fun a b => decide (a.addressId ≤ b.addressId)

/-- In every reachable state the versions of an address that has any follow each other:
one of them is current and has no end, each of the others ends where the next one begins
and differs from it. -/
theorem addressVersions_history {s : IngestState} (hs : IngestReachable s) {addressUid : String}
    (hrows : ∃ a ∈ (committed s).address, a.addressUid = addressUid) :
    addressColumns.History (addressVersions (committed s) addressUid) := by
  obtain ⟨a, ha, huid⟩ := hrows
  rcases hs.versioning _ (List.prefix_refl _) addressUid with hempty | ⟨init, last, heq, hopened⟩
  · have hmem := mem_versionsOf.mpr ⟨ha, huid⟩
    rw [committed, hempty] at hmem
    cases hmem
  · have hsorted : (init ++ [last]).mergeSort (fun a b => decide (a.addressId ≤ b.addressId)) =
        init ++ [last] := hopened.sorted
    rw [addressVersions, committed, heq, hsorted]
    exact hopened.history

namespace Sample

def movedClient (street : Text 0 160) : ClientUpsertedData :=
  { client with address := { address with street := street } }

def moved (eventId : Text 8 64) (street : Text 0 160) : EventEnvelope :=
  envelope eventId .clientUpserted { invalid with clientUpserted := .ok (movedClient street) }

def moved1 : EventEnvelope := moved evtClient2 ruaB
def moved2 : EventEnvelope := moved ⟨"evt-client-3", by decide⟩ ⟨"Rua C", by decide⟩

/-- Two workers read the first version of the address, and only one of them replaces it. -/
def movedTwice : List IngestLabel :=
  attempt 0 clientEvent 10 ++ [.start moved1, .start moved2] ++ steps 1 5 ++ steps 2 5 ++
    [.tick 5] ++ steps 1 5 ++ [.finish 1] ++ steps 2 5 ++ [.finish 2]

end Sample

theorem addressVersions_history_movedTwice : addressColumns.History
    (addressVersions (committed ((Sample.after Sample.movedTwice).get (by decide +kernel))) "END-1") :=
  addressVersions_history (Sample.after_reachable (by decide +kernel))
    ⟨((committed ((Sample.after Sample.movedTwice).get (by decide +kernel))).address.get
      ⟨1, by decide +kernel⟩), List.get_mem _ _, by decide +kernel⟩

end EcommerceIntegration
