import EcommerceIntegration.Ingest.OwnPayment

/-!
# The payment in the message to the ERP

The message is built from the payment with the highest id of the order. With events
processed one after the other it is the payment that approved the order when that one
is new or the newest of the order, and only then.
-/

namespace EcommerceIntegration

set_option autoImplicit false

open Transaction

/-! ## The latest payment of an order -/

def latest (d : Database) (orderId : Nat) : Option Payment :=
  (d.payment.filter (·.orderId == orderId)).argmax Payment.paymentId

def Newest (d : Database) (orderId : Nat) (p : Payment) : Prop :=
  p.orderId = orderId ∧ ∀ q ∈ d.payment, q.orderId = orderId → q.paymentId ≤ p.paymentId

theorem latest_eq_some_iff {d : Database} (hd : d.keys.Nodup) {orderId : Nat} {p : Payment} :
    latest d orderId = some p ↔ p ∈ d.payment ∧ Newest d orderId p := by
  have hmem : ∀ q, q ∈ d.payment.filter (·.orderId == orderId) ↔
      q ∈ d.payment ∧ q.orderId = orderId := by simp
  constructor
  · intro h
    obtain ⟨hp, hid⟩ := (hmem p).mp (List.argmax_mem h)
    exact ⟨hp, hid, fun q hq hqid => List.le_of_mem_argmax ((hmem q).mpr ⟨hq, hqid⟩) h⟩
  · rintro ⟨hp, hid, hmax⟩
    have hpf := (hmem p).mpr ⟨hp, hid⟩
    cases hlatest : latest d orderId with
    | none =>
      rw [latest, List.argmax_eq_none] at hlatest
      simp [hlatest] at hpf
    | some q =>
      obtain ⟨hq, hqid⟩ := (hmem q).mp (List.argmax_mem hlatest)
      have hle : p.paymentId ≤ q.paymentId := List.le_of_mem_argmax hpf hlatest
      rw [payment_unique_id hd hq hp (Nat.le_antisymm (hmax q hq hqid) hle)]

/-- The message has an approved payment section with the transaction of the event. -/
def Carries (data : PaymentUpdatedData) (m : OutboxMessage) : Prop :=
  ∃ payment, m.payload.payment = some payment ∧ payment.status = .approved ∧
    payment.provider = data.provider ∧ payment.providerTxId = data.providerTxId

theorem carries_iff {data : PaymentUpdatedData} {m : OutboxMessage} {o : Option Payment}
    (h : m.payload.payment = o.map paymentSection) :
    Carries data m ↔ ∃ p, o = some p ∧ p.status = .approved ∧ p.SameTransaction data := by
  rw [Carries, h]
  constructor
  · rintro ⟨_, hsome, hstatus, hprovider, htx⟩
    obtain ⟨p, rfl, rfl⟩ := Option.map_eq_some_iff.mp hsome
    exact ⟨p, rfl, hstatus, hprovider, htx⟩
  · rintro ⟨p, rfl, hstatus, hprovider, htx⟩
    exact ⟨_, rfl, hstatus, hprovider, htx⟩

section Commit
variable {i : EventEnvelope} {h : History} {ws : List Change} {data : PaymentUpdatedData}
  {o : Order} {m : OutboxMessage}

theorem keys_nodup_of_append {d : Database} {us : List Change} (vs : List Change)
    (hd : (engine.replay d (us ++ vs)).keys.Nodup) : (engine.replay d us).keys.Nodup := by
  rw [Engine.replay_append] at hd
  exact ((keyLaws.keys_replay _ _).nodup_iff.mp hd).of_append_left

/-- The row of the event is the newest of the order after its update when it was before. -/
theorem newest_update {d d' : Database} {p : Payment} (orderId : Nat)
    (hp : p ∈ d.payment) {s : Option PaymentStatus} {t : Option Time}
    (hd' : d'.payment = updateWhere (·.paymentId == p.paymentId) (Payment.set s t) d.payment) :
    p.set s t ∈ d'.payment ∧ (Newest d' orderId (p.set s t) ↔ Newest d orderId p) := by
  constructor
  · rw [hd', mem_updateWhere]
    exact ⟨p, hp, .inl ⟨by simp, rfl⟩⟩
  · refine and_congr_right fun _ => ⟨fun hmax q hq hid => ?_, fun hmax q hq hid => ?_⟩
    · by_cases hsame : q.paymentId = p.paymentId
      · exact Nat.le_of_eq hsame
      · refine hmax q ?_ hid
        rw [hd', mem_updateWhere]
        exact ⟨q, hq, .inr ⟨by simpa using hsame, rfl⟩⟩
    · rw [hd'] at hq
      obtain ⟨q₀, hq₀, ⟨_, rfl⟩ | ⟨_, rfl⟩⟩ := mem_updateWhere.mp hq
      · exact hmax q₀ hq₀ hid
      · exact hmax q hq₀ hid

/-- When no other transaction interferes, the message has the payment of the event if
that is new, or the newest of the order. -/
theorem Approving.carries_iff (ha : Approving alone i h ws data o m)
    (hkeys : (engine.state h).keys.Nodup)
    (hafter : (engine.replay (engine.state h) ws).keys.Nodup) :
    Carries data m ↔ ∀ p ∈ (engine.state h).payment, p.SameTransaction data →
      Newest (engine.state h) o.orderId p := by
  cases ha with
  | @intro _ _ _ h₁ h₂ h₃ record t mid event approved found pending recorded read update later
      notifies =>
    obtain rfl : h₁ = h₂ := read
    obtain rfl : h₁ = h₃ := update
    obtain rfl : h₁ = h := later
    obtain ⟨_, rfl, _, hpayload⟩ := notifies.payment
    rw [EcommerceIntegration.carries_iff hpayload]
    have hview : (engine.view h₁ ([ledgerRow i] ++ record ++
        [.executed (.updateOrder o.orderId .approved t)])).payment =
        (engine.replay (engine.state h₁) record).payment := by
      rw [Engine.view, Engine.replay_append, ← recorded.payment_replay]
      rfl
    have hnodup : (engine.view h₁ ([ledgerRow i] ++ record ++
        [.executed (.updateOrder o.orderId .approved t)])).keys.Nodup := by
      refine keys_nodup_of_append [.inserted (.outbox m) mid] ?_
      simpa using hafter
    generalize engine.view h₁ ([ledgerRow i] ++ record ++
      [.executed (.updateOrder o.orderId .approved t)]) = v at hview hnodup hpayload
    change (∃ p, latest v o.orderId = some p ∧ _) ↔ _
    simp only [latest_eq_some_iff hnodup]
    cases recorded with
    | @created h₄ h₅ id read₄ inserted later absent new =>
      obtain rfl : h₁ = h₄ := read₄
      obtain rfl : h₁ = h₅ := inserted
      have hfresh : ∀ q ∈ (engine.state h₁).payment, q.paymentId < id := by
        intro q hq
        exact new q.paymentId (List.mem_map_of_mem hq)
      refine iff_of_true ⟨{ newPayment o.orderId data with paymentId := id }, ⟨?_, rfl, ?_⟩,
        approved, rfl, rfl⟩ ?_
      · rw [hview]
        exact List.mem_append_right _ (List.mem_singleton_self _)
      · intro q hq _
        rw [hview] at hq
        rcases List.mem_append.mp hq with hold | hnew
        · exact Nat.le_of_lt (hfresh q hold)
        · exact Nat.le_of_eq (by rw [List.mem_singleton.mp hnew])
      · intro p hp hsame
        have hno := List.find?_eq_none.mp absent p hp
        simp [hsame.1, hsame.2] at hno
    | @updated h₄ p read₄ later₄ stored =>
      obtain rfl : h₁ = h₄ := read₄
      obtain ⟨hp, hsame⟩ : p ∈ (engine.state h₁).payment ∧ p.SameTransaction data :=
        storedPayment_spec stored
      rw [payment_recordUpdate] at hview
      obtain ⟨hmem, hnewest⟩ := newest_update o.orderId hp hview
      constructor
      · rintro ⟨q, ⟨hq, hqnew⟩, _, hqsame⟩ p' hp' hsame'
        have hq' : q = p.set (paymentUpdate data p).1 (paymentUpdate data p).2 :=
          payment_unique hnodup hq hmem (hqsame.1.trans hsame.1.symm)
            (hqsame.2.trans hsame.2.symm)
        rw [payment_unique hkeys hp' hp (hsame'.1.trans hsame.1.symm)
          (hsame'.2.trans hsame.2.symm)]
        exact hnewest.mp (hq' ▸ hqnew)
      · intro hall
        refine ⟨_, ⟨hmem, hnewest.mpr (hall p hp hsame)⟩, ?_, hsame⟩
        simp [Payment.set, paymentUpdate, approved]

end Commit

/-! ## The transaction that moves an order to APPROVED -/

/-- The commit `c` after `h` moves the order to APPROVED. -/
def Moves (h : History) (c : IngestCommit) (orderUid : String) : Prop :=
  ∃ o ∈ (engine.state h).orders, o.orderUid = orderUid ∧ o.status ≠ .approved ∧
    ∃ o' ∈ (engine.state (h ++ [c])).orders, o'.orderUid = orderUid ∧ o'.status = .approved

/-- A history that a serial run leaves. -/
structure SerialHistory (h : History) : Prop where
  kept : (effectContract alone).Kept h
  consistent : Consistent h

namespace SerialHistory
variable {h h' : History} {c : IngestCommit}

theorem of_prefix (hs : SerialHistory h') (hle : h <+: h') : SerialHistory h :=
  ⟨hs.kept.of_prefix hle, hs.consistent.of_prefix hle⟩

theorem approving (hs : SerialHistory (h ++ [c])) {id : Nat}
    (ha : c.writes.any (approvesOrder id) = true) :
    ∃ data o m, o.orderId = id ∧ Approving alone c.input h c.writes data o m :=
  (hs.kept h c (List.prefix_refl _)).approving ha

end SerialHistory

section Serial
variable {h : History} {c : IngestCommit} {data : PaymentUpdatedData} {o : Order}
  {m : OutboxMessage}

/-- The order that was read is the committed one. -/
theorem Approving.stored {i : EventEnvelope} {ws : List Change}
    (ha : Approving alone i h ws data o m) :
    o ∈ (engine.state h).orders ∧ o.status = .pending := by
  cases ha with
  | intro _ _ found pending _ read update later =>
    cases read
    cases update
    cases later
    exact ⟨List.mem_of_find?_eq_some found, pending⟩

theorem Approving.update {R : Rely store EventEnvelope} {i : EventEnvelope} {ws : List Change}
    (ha : Approving R i h ws data o m) :
    (∃ t, .executed (.updateOrder o.orderId .approved t) ∈ ws) ∧
      ∃ mid, newMessages ws = [{ m with outboxId := mid }] := by
  cases ha with
  | @intro _ _ _ _ _ _ record t mid _ _ _ _ recorded =>
    refine ⟨⟨t, by simp⟩, mid, ?_⟩
    rw [newMessages_append, newMessages_append, recorded.silent.2]
    rfl

theorem Approving.addressed {R : Rely store EventEnvelope} {i : EventEnvelope}
    {ws : List Change} (ha : Approving R i h ws data o m) :
    m.eventType = PaymentUpdatedHandler.orderApprovedEvent ∧ m.aggregateId = o.orderUid := by
  cases ha with
  | intro _ _ _ _ _ _ _ _ notifies => exact ⟨notifies.eventType, notifies.aggregate⟩

theorem Approving.moves (hs : SerialHistory (h ++ [c]))
    (ha : Approving alone c.input h c.writes data o m) : Moves h c o.orderUid := by
  obtain ⟨ho, hpending⟩ := ha.stored
  obtain ⟨t, hupdate⟩ := ha.update.1
  obtain ⟨o', ho', hfixed, hstatus⟩ := status_of_update
    (hs.consistent.effect.orderEffect.only_approves hupdate) ho hupdate
  refine ⟨o, ho, rfl, by simp [hpending], o', ?_, Order.uid_of_fixed hfixed, hstatus⟩
  rwa [Engine.state_concat]

/-- Only a transaction that has read the order as PENDING moves it. -/
theorem Moves.approving (hs : SerialHistory (h ++ [c])) {uid : String} (hm : Moves h c uid) :
    ∃ data o m, Approving alone c.input h c.writes data o m ∧ o.orderUid = uid := by
  obtain ⟨o, ho, rfl, hnot, o', ho', huid, hstatus⟩ := hm
  have hkeys := (hs.of_prefix (List.prefix_append h [c])).consistent.keys
  have hcommit := ho'
  rw [Engine.state_concat] at hcommit
  obtain ⟨o₀, hfixed, hsource, hnow⟩ := order_of_replay hcommit
  have huid₀ : o₀.orderUid = o.orderUid := (Order.uid_of_fixed hfixed).trans huid
  rcases hnow with hsame | ⟨t, hupdate⟩
  · rcases hsource with hold | ⟨r, hr, hr'⟩
    · rw [order_unique hkeys hold ho huid₀] at hsame
      exact absurd (hsame.symm.trans hstatus) hnot
    · have hpending := hs.consistent.effect.inserted_order hr
      rw [hsame, hr', hpending] at hstatus
      cases hstatus
  · obtain ⟨data, o₁, m, hid, ha⟩ := hs.approving (approves_of_mem (hstatus ▸ hupdate))
    refine ⟨data, o₁, m, ha, ?_⟩
    have hsame := hs.consistent.uid_eq (List.prefix_append h [c]) ha.stored.1 ho'
      ((Order.id_of_fixed hfixed).symm.trans hid.symm)
    exact hsame.symm.trans huid

theorem Moves.not_again {h₁ h₂ : History} {c₁ c₂ : IngestCommit} {uid : String}
    (hs : SerialHistory (h₂ ++ [c₂])) (hm₁ : Moves h₁ c₁ uid) (hm₂ : Moves h₂ c₂ uid)
    (hlt : h₁ ++ [c₁] <+: h₂) : False := by
  have hh₂ := (hs.of_prefix (List.prefix_append h₂ [c₂])).consistent
  obtain ⟨_, _, _, _, o, ho, huid, hstatus⟩ := hm₁
  obtain ⟨o', ho', hfixed, hclosed⟩ := closed_later hlt hh₂ ho (by simp [hstatus])
  obtain ⟨data, o₂, m, ha, huid₂⟩ := hm₂.approving hs
  obtain ⟨ho₂, hpending⟩ := ha.stored
  have huid' : o'.orderUid = o₂.orderUid :=
    (Order.uid_of_fixed hfixed).trans (huid.trans huid₂.symm)
  rw [order_unique hh₂.keys ho' ho₂ huid'] at hclosed
  exact hclosed hpending

/-- One transaction moves the order to APPROVED. -/
theorem Moves.unique (hs : SerialHistory h) {h₁ h₂ : History} {c₁ c₂ : IngestCommit}
    {uid : String} (hpre₁ : h₁ ++ [c₁] <+: h) (hpre₂ : h₂ ++ [c₂] <+: h)
    (hm₁ : Moves h₁ c₁ uid) (hm₂ : Moves h₂ c₂ uid) : c₁ = c₂ := by
  rcases Nat.lt_trichotomy h₁.length h₂.length with hlt | heq | hlt
  · refine (Moves.not_again (hs.of_prefix hpre₂) hm₁ hm₂ ?_).elim
    exact List.prefix_of_prefix_length_le hpre₁ ((List.prefix_append _ _).trans hpre₂)
      (by rw [List.length_append]; exact hlt)
  · have hsame : h₁ = h₂ :=
      (List.prefix_of_prefix_length_le ((List.prefix_append _ _).trans hpre₁)
        ((List.prefix_append _ _).trans hpre₂) (Nat.le_of_eq heq)).eq_of_length heq
    subst hsame
    exact commit_unique hpre₁ hpre₂
  · refine (Moves.not_again (hs.of_prefix hpre₁) hm₂ hm₁ ?_).elim
    exact List.prefix_of_prefix_length_le hpre₂ ((List.prefix_append _ _).trans hpre₁)
      (by rw [List.length_append]; exact hlt)

end Serial

/-! ## Every message has the payment that approved the order -/

/-- The payment section is the one of the event that moved the order to APPROVED. -/
def CarriesApproval (h : History) (m : OutboxMessage) : Prop :=
  ∃ h₀ c data, h₀ ++ [c] <+: h ∧ Moves h₀ c m.aggregateId ∧
    c.input.data.paymentUpdated = .ok data ∧ Carries data m

/-- The transaction of an event that approves an order is new, or its payment is the
newest of the order. -/
def ApprovesByNewest (h : History) (c : IngestCommit) : Prop :=
  ∀ o ∈ (engine.state h).orders, c.writes.any (approvesOrder o.orderId) = true →
    ∀ data, c.input.data.paymentUpdated = .ok data →
      ∀ p ∈ (engine.state h).payment, p.SameTransaction data →
        Newest (engine.state h) o.orderId p

instance (d : Database) (orderId : Nat) (p : Payment) : Decidable (Newest d orderId p) :=
  inferInstanceAs (Decidable (_ ∧ _))

instance (h : History) (c : IngestCommit) : Decidable (ApprovesByNewest h c) :=
  inferInstanceAs (Decidable (∀ o ∈ (engine.state h).orders, _ → _))

theorem outbox_of_prefix {h h' : History} {c : IngestCommit} (hle : h ++ [c] <+: h')
    {m : OutboxMessage} (hm : m ∈ newMessages c.writes) : m ∈ (engine.state h').outbox := by
  obtain ⟨later, rfl⟩ := hle
  induction later using List.reverseRecOn with
  | nil =>
    rw [List.append_nil, Engine.state_concat, outbox_replay]
    exact List.mem_append_right _ hm
  | append_singleton later c' ih =>
    rw [← List.append_assoc, Engine.state_concat, outbox_replay]
    exact List.mem_append_left _ ih

theorem commit_of_outbox {h : History} {m : OutboxMessage} (hm : m ∈ (engine.state h).outbox) :
    ∃ h₀ c, h₀ ++ [c] <+: h ∧ m ∈ newMessages c.writes := by
  induction h using List.reverseRecOn with
  | nil => cases hm
  | append_singleton h c ih =>
    rw [Engine.state_concat, outbox_replay] at hm
    rcases List.mem_append.mp hm with hold | hnew
    · obtain ⟨h₀, c₀, hpre, hm₀⟩ := ih hold
      exact ⟨h₀, c₀, hpre.trans (List.prefix_append _ _), hm₀⟩
    · exact ⟨h, c, List.prefix_refl _, hnew⟩

theorem SerialHistory.approving_of_message {h : History} {c : IngestCommit}
    (hs : SerialHistory (h ++ [c])) {m : OutboxMessage} (hm : m ∈ newMessages c.writes) :
    ∃ data o m₀ mid, Approving alone c.input h c.writes data o m₀ ∧
      m = { m₀ with outboxId := mid } := by
  cases hs.consistent.effect.orderEffect with
  | silent _ outbox | invoices _ _ _ _ outbox => simp [outbox] at hm
  | approves _ _ _ update =>
    obtain ⟨data, o, m₀, _, ha⟩ := hs.approving (approves_of_mem update)
    obtain ⟨mid, heq⟩ := ha.update.2
    rw [heq] at hm
    exact ⟨data, o, m₀, mid, ha, List.mem_singleton.mp hm⟩

theorem SerialHistory.carries_iff {h : History} {c : IngestCommit}
    (hs : SerialHistory (h ++ [c])) {data : PaymentUpdatedData} {o : Order} {m : OutboxMessage}
    (ha : Approving alone c.input h c.writes data o m) :
    Carries data m ↔ ∀ p ∈ (engine.state h).payment, p.SameTransaction data →
      Newest (engine.state h) o.orderId p := by
  refine ha.carries_iff (hs.of_prefix (List.prefix_append _ _)).consistent.keys ?_
  rw [← Engine.state_concat]
  exact hs.consistent.keys

theorem carriesApproval_iff {h : History} (hs : SerialHistory h) :
    (∀ m ∈ (engine.state h).outbox,
      m.eventType = PaymentUpdatedHandler.orderApprovedEvent → CarriesApproval h m) ↔
      ∀ h₀ c, h₀ ++ [c] <+: h → ApprovesByNewest h₀ c := by
  constructor
  · intro hall h₀ c hpre o ho happroves data hdata
    have hs₀ := hs.of_prefix hpre
    obtain ⟨data', o₁, m₀, hid, ha⟩ := hs₀.approving happroves
    obtain rfl : data' = data := Except.ok.inj (ha.event.symm.trans hdata)
    obtain ⟨mid, hnew⟩ := ha.update.2
    obtain ⟨htype, haggregate⟩ := ha.addressed
    have hm := outbox_of_prefix hpre (m := { m₀ with outboxId := mid }) (by simp [hnew])
    obtain ⟨h₁, c₁, data₁, hpre₁, hmoves, hdata₁, hcarries⟩ := hall _ hm htype
    have hsame : c₁ = c :=
      Moves.unique hs hpre₁ hpre hmoves (haggregate ▸ ha.moves hs₀)
    subst hsame
    obtain rfl : data' = data₁ := Except.ok.inj (ha.event.symm.trans hdata₁)
    rw [← hid]
    exact (hs₀.carries_iff ha).mp hcarries
  · intro hall m hm _
    obtain ⟨h₀, c, hpre, hnew⟩ := commit_of_outbox hm
    have hs₀ := hs.of_prefix hpre
    obtain ⟨data, o, m₀, mid, ha, rfl⟩ := hs₀.approving_of_message hnew
    have hmoves := ha.moves hs₀
    rw [← ha.addressed.2] at hmoves
    obtain ⟨t, hupdate⟩ := ha.update.1
    refine ⟨h₀, c, data, hpre, hmoves, ha.event, (hs₀.carries_iff ha).mpr ?_⟩
    exact hall h₀ c hpre o ha.stored.1 (approves_of_mem hupdate) data ha.event

/-- When events are processed one after the other, every message carries the payment
that approved its order, exactly when every approval is by a new transaction or by the
newest payment of the order. -/
theorem message_carriesApproval_iff {clock : Time} {reserved : List String}
    {ls : List IngestLabel} {s : IngestState} (hrun : SerialRun clock reserved ls s) :
    (∀ m ∈ (committed s).outbox, m.eventType = PaymentUpdatedHandler.orderApprovedEvent →
        CarriesApproval s.shared.history m) ↔
      Transition.Along (step engine ingest)
        (fun s l => ∀ c ∈ s.committing l, ApprovesByNewest s.shared.history c)
        (initial clock reserved) ls := by
  have hs : SerialHistory s.shared.history :=
    ⟨hrun.sound.kept, (reachable_of_run hrun.2).consistent⟩
  rw [along_committing_iff hrun.2]
  refine (carriesApproval_iff hs).trans ?_
  exact ⟨fun hall h c _ hpre => hall h c hpre, fun hall h c hpre => hall h c List.nil_prefix hpre⟩

/-! ## A refused second card -/

namespace Sample

def authorized1 : EventEnvelope :=
  paymentEvent ⟨"evt-pay-4", by decide⟩ (payment pedido1 tx1 .authorized)

def refused1 : EventEnvelope :=
  paymentEvent ⟨"evt-pay-5", by decide⟩ (payment pedido1 tx2 .refused)

/-- The first card is approved after the second has been refused. -/
def secondCard : List IngestLabel :=
  catalog ++ attempt 3 authorized1 7 ++ attempt 4 refused1 7 ++ attempt 5 approval1 15

theorem inTurn_serial : SerialRun 0 [] inTurn ((after inTurn).get (by decide)) :=
  ⟨serial_of_quiet (by decide +kernel), after_run _⟩

theorem secondCard_serial : SerialRun 0 [] secondCard ((after secondCard).get (by decide)) :=
  ⟨serial_of_quiet (by decide +kernel), after_run _⟩

end Sample

theorem message_carriesApproval_inTurn :
    (committed ((Sample.after Sample.inTurn).get (by decide))).outbox ≠ [] ∧
    ∀ m ∈ (committed ((Sample.after Sample.inTurn).get (by decide))).outbox,
      m.eventType = PaymentUpdatedHandler.orderApprovedEvent →
        CarriesApproval ((Sample.after Sample.inTurn).get (by decide)).shared.history m :=
  ⟨by decide +kernel, (message_carriesApproval_iff Sample.inTurn_serial).mpr (by decide +kernel)⟩

theorem message_carriesRefusal :
    ¬ ∀ clock reserved ls s, SerialRun clock reserved ls s → ∀ m ∈ (committed s).outbox,
      m.eventType = PaymentUpdatedHandler.orderApprovedEvent →
        CarriesApproval s.shared.history m := by
  intro hall
  have hrow : ∃ m ∈ (committed ((Sample.after Sample.secondCard).get (by decide))).outbox,
      m.eventType = PaymentUpdatedHandler.orderApprovedEvent ∧
        m.payload.payment.map PaymentSection.status = some .refused := by
    decide +kernel
  obtain ⟨m, hm, htype, hrefused⟩ := hrow
  obtain ⟨_, _, _, _, _, _, payment, hpayment, happroved, _⟩ :=
    hall _ _ _ _ Sample.secondCard_serial m hm htype
  rw [hpayment, Option.map_some, happroved] at hrefused
  cases hrefused

end EcommerceIntegration
