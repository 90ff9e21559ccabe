import EcommerceIntegration.Ingest.Alone
import EcommerceIntegration.Ingest.Bystander

/-!
# Events of independent producers

Processing an event or not makes no difference to the next one when the two name
different keys, the one updates nothing that a document of the other shows, and their event
ids differ. The key in Redis and the primary key of the ledger are the event id alone.
-/

namespace EcommerceIntegration

set_option autoImplicit false

open Transaction Coupling

/-! ## Identity values -/

/-- The identity values below the counters correspond to themselves. -/
def within (next : TableName → Nat) : Link := fun t a b => a = b ∧ a < next t

/-- The identity values from the counters on are shifted to the later counters. -/
def shift (next later : TableName → Nat) : Link := fun t a b =>
  a < next t ∧ b = a ∨ next t ≤ a ∧ b = a + (later t - next t)

theorem within_ordered (next : TableName → Nat) : (within next).Ordered := by
  refine ⟨fun h h' => ?_⟩
  obtain ⟨rfl, _⟩ := h
  obtain ⟨rfl, _⟩ := h'
  rfl

section Shift
variable {next later : TableName → Nat} {t : TableName} {a b : Nat}

theorem shift_ordered : (shift next later).Ordered := by
  refine ⟨fun h h' => ?_⟩
  simp only [shift] at h h'
  omega

theorem within_shift (h : within next t a b) : shift next later t a b := by
  obtain ⟨rfl, hlt⟩ := h
  exact .inl ⟨hlt, rfl⟩

/-- What was handed out between the counters corresponds to nothing. -/
theorem shift_gap (hle : next t ≤ b) (hlt : b < later t) (a : Nat) :
    ¬ shift next later t a b := by
  simp only [shift]
  omega

theorem shift_next (hle : next t ≤ later t) (k : Nat) :
    shift next later t (next t + k) (later t + k) := by
  simp only [shift]
  omega

end Shift

/-! ## All that is stored is known -/

def everything : Concern where
  clientUid _ := True
  clientId _ := True
  addressUid _ := True
  orderUid _ := True
  loaded _ := True
  orderId _ := True
  notified _ := True
  documentId _ := True
  transaction _ _ := True
  invoiceNumber _ _ := True
  eventId _ := True
  key _ := True

theorem everything_respects (ρ : Link) : everything.Respects ρ :=
  ⟨fun _ => Iff.rfl, fun _ => Iff.rfl, fun _ => Iff.rfl⟩

theorem everything_includes (i : EventEnvelope) : everything.Includes i where
  event := trivial
  key := trivial
  client _ _ _ := ⟨trivial, trivial⟩
  order _ _ _ := ⟨trivial, trivial, trivial, fun _ _ => trivial, fun _ _ => trivial,
    fun _ _ _ => ⟨trivial, trivial⟩⟩
  payment _ _ _ := ⟨trivial, trivial, fun _ => trivial, trivial⟩
  invoice _ _ _ := ⟨trivial, trivial, trivial⟩

theorem agree_empty (ρ : Link) (C : Concern) : Agree ρ C {} {} where
  clients := .nil
  customers := .nil
  address := .nil
  versions := .nil
  orders := .nil
  orderItems := .nil
  payment := .nil
  invoices := .nil
  processedEvents := .nil
  ids t a b _ := by cases t <;> simp [Database.ids]
  loaded o ho := by cases ho
  notified o ho := by cases ho

/-- No row, no pending write and no lock mentions an identity value that has not been
handed out. -/
theorem IngestReachable.grounded {s : IngestState} (hs : IngestReachable s) :
    AllGrounded (coupling (within s.shared.identity) everything) s := by
  have hordered := within_ordered s.shared.identity
  have hrespects := everything_respects (within s.shared.identity)
  refine Reachable.grounded (coupling_steps hordered hrespects).toLaws (fun i => ?_)
    (agree_empty _ _) hs fun τ a ha => ⟨rfl, ha⟩
  exact (related_process hordered hrespects (everything_includes i)).mono fun _ _ _ => trivial

section Mono
variable {ρ ρ' : Link} (hρ : ∀ t a b, ρ t a b → ρ' t a b)
include hρ

theorem Client.Linked.mono {c c' : Client} (h : Client.Linked ρ c c') : Client.Linked ρ' c c' := by
  obtain ⟨id, hid, rfl⟩ := h
  exact ⟨id, hρ _ _ _ hid, rfl⟩

theorem Client.SameCustomer.mono {c c' : Client} (h : Client.SameCustomer ρ c c') :
    Client.SameCustomer ρ' c c' :=
  ⟨hρ _ _ _ h.1, h.2⟩

theorem Address.Linked.mono {a a' : Address} (h : Address.Linked ρ a a') :
    Address.Linked ρ' a a' := by
  obtain ⟨id, client, hid, hclient, rfl⟩ := h
  exact ⟨id, client, hρ _ _ _ hid, hρ _ _ _ hclient, rfl⟩

theorem Order.Linked.mono {o o' : Order} (h : Order.Linked ρ o o') : Order.Linked ρ' o o' := by
  obtain ⟨id, client, shipping, billing, hid, hclient, hshipping, hbilling, rfl⟩ := h
  exact ⟨id, client, shipping, billing, hρ _ _ _ hid, hρ _ _ _ hclient, hρ _ _ _ hshipping,
    hρ _ _ _ hbilling, rfl⟩

theorem OrderItem.Linked.mono {i i' : OrderItem} (h : OrderItem.Linked ρ i i') :
    OrderItem.Linked ρ' i i' := by
  obtain ⟨id, order, hid, horder, rfl⟩ := h
  exact ⟨id, order, hρ _ _ _ hid, hρ _ _ _ horder, rfl⟩

theorem Payment.Linked.mono {p p' : Payment} (h : Payment.Linked ρ p p') :
    Payment.Linked ρ' p p' := by
  obtain ⟨id, order, hid, horder, rfl⟩ := h
  exact ⟨id, order, hρ _ _ _ hid, hρ _ _ _ horder, rfl⟩

theorem Invoice.Linked.mono {v v' : Invoice} (h : Invoice.Linked ρ v v') :
    Invoice.Linked ρ' v v' := by
  obtain ⟨id, order, hid, horder, rfl⟩ := h
  exact ⟨id, order, hρ _ _ _ hid, hρ _ _ _ horder, rfl⟩

/-- A database whose rows all correspond to themselves. -/
theorem Agree.of_everything {C : Concern} {d : Database} (h : Agree ρ everything d d)
    (hids : ∀ t a b, ρ' t a b → (a ∈ d.ids t ↔ b ∈ d.ids t))
    (hloaded : ∀ o ∈ d.orders, C.loaded o.orderUid → C.orderId o.orderId)
    (hnotified : ∀ o ∈ d.orders, C.notified o.orderUid → o.status = .pending →
      C.documentId o.orderId ∧ C.clientId o.clientId) : Agree ρ' C d d where
  clients := h.clients.mono (fun _ _ hc => hc.mono hρ) (fun _ hc => (hc trivial).elim)
    fun _ hc => (hc trivial).elim
  customers := h.customers.mono (fun _ _ hc => hc.mono hρ) (fun _ hc => (hc trivial).elim)
    fun _ hc => (hc trivial).elim
  address := h.address.mono (fun _ _ ha => ha.mono hρ) (fun _ ha => (ha trivial).elim)
    fun _ ha => (ha trivial).elim
  versions := h.address.mono (fun _ _ ha => (ha.mono hρ).version) (fun _ ha => ha trivial)
    fun _ ha => (ha trivial).elim
  orders := h.orders.mono (fun _ _ ho => ho.mono hρ) (fun _ ho => (ho trivial).elim)
    fun _ ho => (ho trivial).elim
  orderItems := h.orderItems.mono (fun _ _ hi => hi.mono hρ) (fun _ hi => (hi trivial).elim)
    fun _ hi => (hi trivial).elim
  payment := h.payment.mono (fun _ _ hp => hp.mono hρ) (fun _ hp => (hp (.inl trivial)).elim)
    fun _ hp => (hp (.inl trivial)).elim
  invoices := h.invoices.mono (fun _ _ hv => hv.mono hρ) (fun _ hv => (hv (.inl trivial)).elim)
    fun _ hv => (hv (.inl trivial)).elim
  processedEvents := h.processedEvents.mono (fun _ _ he => he) (fun _ he => (he trivial).elim)
    fun _ he => (he trivial).elim
  ids := hids
  loaded := hloaded
  notified := hnotified

end Mono

theorem order_within {next : TableName → Nat} {d : Database}
    (h : Agree (within next) everything d d) {o : Order} (ho : o ∈ d.orders) :
    o.orderId < next .orders ∧ o.clientId < next .clients := by
  obtain ⟨o', _, hlinked⟩ := h.orders.exists_of_mem ho fun hnot => hnot trivial
  exact ⟨hlinked.columns.1.2, hlinked.columns.2.1.2⟩

theorem lookups_respects {next later : TableName → Nat} {d : Database} {j : EventEnvelope}
    (h : ∀ o ∈ d.orders, o.orderId < next .orders ∧ o.clientId < next .clients) :
    (lookups d j).Respects (shift next later) := by
  have hsame : ∀ {t : TableName} {K : Nat → Prop} {a b : Nat}, (∀ x, K x → x < next t) →
      shift next later t a b → (K a ↔ K b) := by
    intro t K a b hK hab
    rcases hab with ⟨_, rfl⟩ | ⟨hle, rfl⟩
    · exact Iff.rfl
    · refine ⟨fun ha => ?_, fun hb => ?_⟩
      · have := hK _ ha
        omega
      · have := hK _ hb
        omega
  refine ⟨hsame ?_, hsame ?_, hsame ?_⟩
  · rintro x ⟨o, ho, rfl⟩
    exact (h o ho.2.1).2
  · rintro x ⟨o, ho, _, rfl⟩
    exact (h o ho).1
  · rintro x ⟨o, ho, rfl⟩
    exact (h o ho.2.1).1

/-! ## The database after an event -/

/-- The transactions that were committed between the two states. -/
def effects (s t : IngestState) : List (List Change) :=
  (t.shared.history.drop s.shared.history.length).map Commit.writes

section Commits
variable {s t : IngestState} {i j : EventEnvelope} {ms : List Move}

theorem keys_earlier {h : History} {us vs : List Change}
    (hkeys : (engine.view h (us ++ vs)).keys.Nodup) : (engine.view h us).keys.Nodup := by
  rw [Engine.view, Engine.replay_append] at hkeys
  exact ((keyLaws.keys_replay _ vs).nodup_iff.mp hkeys).of_append_left

/-- An attempt has committed its event once at most. -/
theorem Alone.commits (hs : IngestReachable s) (hrun : Alone engine ingest s i ms t) :
    t.shared.history = s.shared.history ∨
    ∃ k, t.shared.history = s.shared.history ++ [k] ∧ k.input = i ∧
      Handed engine s.shared.identity t.shared k.writes := by
  obtain ⟨_, _, _, r, ks, _, hhistory, _, hks⟩ := hrun.frame
  have hh : Consistent t.shared.history := (hs.run hrun).consistent
  match ks, hks with
  | [], _ => exact .inl (by rw [hhistory, List.append_nil])
  | [k], hks => exact .inr ⟨k, hhistory, hks k List.mem_cons_self⟩
  | k :: k' :: ks, hks =>
    have hfirst : s.shared.history ++ [k] <+: t.shared.history := ⟨k' :: ks, by simp [hhistory]⟩
    have hsecond : (s.shared.history ++ [k]) ++ [k'] <+: t.shared.history := ⟨ks, by simp [hhistory]⟩
    have hsame : k.input.eventId = k'.input.eventId := by
      rw [(hks k (by simp)).1, (hks k' (by simp)).1]
    have hlength := congrArg List.length (commit_once hh.kept hh.keys hfirst hsecond hsame).1
    simp at hlength

theorem IngestReachable.order_known (hs : IngestReachable s) {o : Order}
    (ho : o ∈ (committed s).orders) :
    o.orderId < s.shared.identity .orders ∧ o.clientId < s.shared.identity .clients :=
  order_within hs.grounded.base ho

/-- What the other event looks up is the same after the first. -/
theorem agree_after (hs : IngestReachable s) (hrun : Alone engine ingest s i ms t)
    (hapart : Apart (committed s) (effects s t).flatten i j) :
    Agree (shift s.shared.identity t.shared.identity) (lookups (committed s) j) (committed s)
      (committed t) := by
  have hids := hs.sound.wellFormed.ids
  have hbefore : Agree (shift s.shared.identity t.shared.identity) (lookups (committed s) j)
      (committed s) (committed s) := by
    refine Agree.of_everything (fun _ _ _ => within_shift) hs.grounded.base ?_ ?_ ?_
    · intro τ a b hab
      rcases hab with ⟨_, rfl⟩ | ⟨hle, rfl⟩
      · exact Iff.rfl
      · refine ⟨fun ha => ?_, fun hb => ?_⟩
        · have := hids τ a ha
          omega
        · have := hids τ _ hb
          omega
    · exact fun o ho hl => ⟨o, ho, hl.1, rfl⟩
    · rintro o ho ⟨htype, data, hdata, happroved, huid⟩ hpending
      have happroved : ToBeApproved (committed s) j o :=
        ⟨htype, ho, hpending, data, hdata, happroved, huid⟩
      exact ⟨⟨o, happroved, rfl⟩, o, happroved, rfl⟩
  have hle : ∀ τ, s.shared.identity τ ≤ t.shared.identity τ := hrun.frame.2.1
  rcases Alone.commits hs hrun with hsame | ⟨k, hhistory, rfl, hhanded⟩
  · unfold committed at hbefore ⊢
    rw [hsame]
    exact hbefore
  · have heffects : (effects s t).flatten = k.writes := by simp [effects, hhistory]
    rw [heffects] at hapart
    have hh : Consistent t.shared.history := (hs.run hrun).consistent
    have hkept := hh.kept s.shared.history k (hhistory ▸ List.prefix_refl _)
    have hkeys := hh.keys
    rw [hhistory, Engine.state_concat] at hkeys
    have hfresh : Fresh (shift s.shared.identity t.shared.identity) s.shared.history k.writes := by
      refine ⟨fun o ho => ?_, fun row id hmem => ?_⟩
      · obtain ⟨hid, hclient⟩ := hs.order_known ho
        exact ⟨.inl ⟨hid, rfl⟩, .inl ⟨hclient, rfl⟩⟩
      · obtain ⟨hnew, hold⟩ := hhanded row id hmem
        exact shift_gap hnew hold
    have hstate : committed t = engine.replay (committed s) k.writes := by
      rw [committed, hhistory, Engine.state_concat]
      rfl
    rw [hstate]
    refine hbefore.replay_aside (lookups_respects fun o ho => hs.order_known ho) fun us c vs heq => ?_
    rw [heq] at hkeys
    exact CompleteEffect.aside hkept hapart hfresh hs.consistent.keys (keys_earlier hkeys)
      (heq ▸ List.mem_append_right _ List.mem_cons_self)

end Commits

/-! ## The next event -/

/-- The results of the attempts that ended between the two states. -/
def outcomes (s t : IngestState) : List (Except Exn Result) :=
  (t.returned.drop s.returned.length).map Returned.result

/-- Both have the same results, and the same effects up to the identity values. -/
def SameFate (ρ : Link) (s t s' t' : IngestState) : Prop :=
  outcomes s t = outcomes s' t' ∧
    List.Forall₂ (List.Forall₂ (LinkedChange ρ)) (effects s t) (effects s' t')

def atTime (s : IngestState) (clock : Time) : IngestState :=
  { s with shared := { s.shared with clock } }

/-- At any time, and however its operations are answered, `j` is processed in `t` as in
`s`. -/
def Indifferent (s t : IngestState) (j : EventEnvelope) : Prop :=
  ∀ clock ms,
    (∀ u, Alone engine ingest (atTime s clock) j ms u →
      ∃ v, Alone engine ingest (atTime t clock) j ms v ∧
        SameFate (shift s.shared.identity t.shared.identity) s u t v) ∧
    ∀ v, Alone engine ingest (atTime t clock) j ms v →
      ∃ u, Alone engine ingest (atTime s clock) j ms u ∧
        SameFate (shift s.shared.identity t.shared.identity) s u t v

section Next
variable {s t : IngestState} {i j : EventEnvelope} {ms : List Move}

/-- The reservation of the other event is left alone. -/
theorem alone_remote (hrun : Alone engine ingest s i ms t) {key : String}
    (hkey : key ≠ RedisDeduplicator.key i.eventId) :
    key ∈ t.shared.remote ↔ key ∈ s.shared.remote := by
  obtain ⟨r, p, sh, hfollow, rfl⟩ := alone_iff.mp hrun
  refine follow_remote (K := fun reserved : List String => key ∈ reserved ↔ key ∈ s.shared.remote)
    (fun x reserved hx hreserved => ?_) (process_ownKey buildRegistry_databaseOnly) hfollow Iff.rfl
  exact (Answers.mem_redis_of_ne reserved hkey (hx x rfl)).trans hreserved

/-- Nobody else holds a lock that is held by nobody. -/
theorem IngestReachable.mine_iff (hs : IngestReachable s) {l : Lock} :
    s.shared.mine s.started l ↔ s.shared.owner l = none := by
  refine ⟨fun hmine => ?_, fun hnone m hm => ?_⟩
  · cases ho : s.shared.owner l with
    | none => rfl
    | some m =>
      obtain ⟨a, ha⟩ := Option.isSome_iff_exists.mp (Reachable.held hs l m ho)
      have hlt := hs.sound.wellFormed.active_lt m a ha
      exact absurd (hmine m ho) (Nat.ne_of_lt hlt)
  · rw [hnone] at hm
    cases hm

/-- The attempt that has ended held locks of its own only. -/
theorem owner_after (hs : IngestReachable s) (hrun : Alone engine ingest s i ms t) {l : Lock} :
    t.shared.owner l = none ↔ s.shared.owner l = none := by
  obtain ⟨_, _, howner, _⟩ := hrun.frame
  simp only [Option.eq_none_iff_forall_ne_some]
  refine ⟨fun h m hm => h m ((howner l m).mpr ⟨?_, hm⟩), fun h m hm => h m ((howner l m).mp hm).2⟩
  obtain ⟨a, ha⟩ := Option.isSome_iff_exists.mp (Reachable.held hs l m hm)
  exact Nat.ne_of_lt (hs.sound.wellFormed.active_lt m a ha)

/-- The rows that are locked have been inserted. -/
theorem IngestReachable.unlocked (hs : IngestReachable s) {l : Lock}
    (hl : ¬ LinkedLock (within s.shared.identity) l l) : s.shared.owner l = none := by
  cases ho : s.shared.owner l with
  | none => rfl
  | some m => exact absurd (hs.grounded.locks l m ho) hl

theorem mine_after (hs : IngestReachable s) (hrun : Alone engine ingest s i ms t) {l l' : Lock}
    (hl : LinkedLock (shift s.shared.identity t.shared.identity) l l') :
    s.shared.mine s.started l ↔ t.shared.mine t.started l' := by
  rw [hs.mine_iff, (hs.run hrun).mine_iff, owner_after hs hrun]
  cases l with
  | row τ a =>
    obtain ⟨b, hab | ⟨hle, hb⟩, rfl⟩ := hl
    · rw [hab.2]
    · have ha : s.shared.owner (.row τ a) = none := by
        refine hs.unlocked ?_
        rintro ⟨_, ⟨_, hlt⟩, _⟩
        omega
      have hb : s.shared.owner (.row τ b) = none := by
        refine hs.unlocked ?_
        rintro ⟨_, ⟨_, hlt⟩, _⟩
        omega
      rw [ha, hb]
  | invoiceOrder a =>
    obtain ⟨b, hab | ⟨hle, hb⟩, rfl⟩ := hl
    · rw [hab.2]
    · have ha : s.shared.owner (.invoiceOrder a) = none := by
        refine hs.unlocked ?_
        rintro ⟨_, ⟨_, hlt⟩, _⟩
        omega
      have hb : s.shared.owner (.invoiceOrder b) = none := by
        refine hs.unlocked ?_
        rintro ⟨_, ⟨_, hlt⟩, _⟩
        omega
      rw [ha, hb]
  | clientUid | currentAddress | orderUid | providerTx | invoiceNumber | event =>
    obtain rfl := hl
    exact Iff.rfl

/-- Before and after `i`, an attempt for `j` starts out alike. -/
theorem paired_after (hs : IngestReachable s) (hrun : Alone engine ingest s i ms t)
    (hapart : Apart (committed s) (effects s t).flatten i j) (clock : Time) :
    Paired (coupling (shift s.shared.identity t.shared.identity) (lookups (committed s) j))
      s.started t.started {} {} (atTime s clock).shared (atTime t clock).shared where
  base := agree_after hs hrun hapart
  writes := .nil
  committed := .nil
  requests := rfl
  identity τ k := shift_next (hrun.frame.2.1 τ) k
  clock := rfl
  free _ _ hl := mine_after hs hrun hl
  remote key hkey := by
    obtain rfl : key = RedisDeduplicator.key j.eventId := hkey
    exact (alone_remote hrun fun heq => hapart.ids (key_injective heq).symm).symm

end Next

/-- Where the attempt ended, read off its operations. -/
theorem Alone.fate {s t : IngestState} {j : EventEnvelope} {ms : List Move}
    (hrun : Alone engine ingest s j ms t) {r : Except Exn Result} {p : Progress store}
    {sh : Shared store EventEnvelope}
    (hfollow : engine.follow s.started j ms (ingest j) {} s.shared =
      some (Program.ofExcept r, p, sh)) :
    outcomes s t = [r] ∧ effects s t = p.committed := by
  obtain ⟨_, _, _, e, ks, hreturned, hhistory, hcommitted, _⟩ := hrun.frame
  obtain ⟨r', p', sh', hfollow', rfl⟩ := alone_iff.mp hrun
  rw [hfollow] at hfollow'
  obtain ⟨hr, rfl, rfl⟩ : Program.ofExcept r = Program.ofExcept r' ∧ p = p' ∧ sh = sh' := by
    simpa using hfollow'
  obtain rfl : r = r' := by cases r <;> cases r' <;> cases hr <;> rfl
  obtain rfl : (⟨s.started, j, p, r⟩ : Returned store EventEnvelope Result) = e := by
    simpa using hreturned
  refine ⟨by simp [outcomes], ?_⟩
  rw [effects, hhistory, List.drop_left]
  exact hcommitted.symm

theorem forall₂_linked {ρ : Link} {C : Concern} {us vs : List (List Change)}
    (h : List.Forall₂ (List.Forall₂ (coupling ρ C).change) us vs) :
    List.Forall₂ (List.Forall₂ (LinkedChange ρ)) us vs :=
  h.imp fun _ _ h => h.imp fun _ _ h => h.1

theorem alone_of_follow {s : IngestState} {j : EventEnvelope} {ms : List Move}
    {r : Except Exn Result} {p : Progress store} {sh : Shared store EventEnvelope}
    (hfollow : engine.follow s.started j ms (ingest j) {} s.shared =
      some (Program.ofExcept r, p, sh)) :
    ∃ t, Alone engine ingest s j ms t ∧ outcomes s t = [r] ∧ effects s t = p.committed := by
  have hrun := alone_iff.mpr ⟨r, p, sh, hfollow, rfl⟩
  exact ⟨_, hrun, Alone.fate hrun hfollow⟩

/-- Programs in step end alike. -/
theorem indifferent_of_paired {s t : IngestState} {j : EventEnvelope} {C : Concern}
    (hrespects : C.Respects (shift s.shared.identity t.shared.identity)) (hincludes : C.Includes j)
    (hpaired : ∀ clock, Paired (coupling (shift s.shared.identity t.shared.identity) C) s.started
      t.started {} {} (atTime s clock).shared (atTime t clock).shared) : Indifferent s t j := by
  intro clock ms
  have hfollow := (hpaired clock).follow j j
    (coupling_steps shift_ordered hrespects) ms
    (related_process shift_ordered hrespects hincludes)
  generalize hleft : engine.follow s.started j ms (ingest j) {} (atTime s clock).shared = x
    at hfollow
  generalize hright : engine.follow t.started j ms (ingest j) {} (atTime t clock).shared = y
    at hfollow
  constructor
  · intro u hu
    obtain ⟨r, p, sh, hends, _⟩ := alone_iff.mp hu
    cases hleft.symm.trans hends
    cases hfollow with
    | @some _ z hpairs =>
      obtain ⟨q, p', sh'⟩ := z
      obtain ⟨hq, hlast⟩ := hpairs
      obtain rfl := hq.ofExcept
      obtain ⟨v, hv, hresult, heffects⟩ := alone_of_follow (s := atTime t clock) hright
      obtain ⟨hresult', heffects'⟩ := Alone.fate hu hends
      refine ⟨v, hv, hresult'.trans hresult.symm, ?_⟩
      rw [show effects s u = p.committed from heffects',
        show effects t v = p'.committed from heffects]
      exact forall₂_linked hlast.committed
  · intro v hv
    obtain ⟨r, p', sh', hends, _⟩ := alone_iff.mp hv
    cases hright.symm.trans hends
    cases hfollow with
    | @some z _ hpairs =>
      obtain ⟨q, p, sh⟩ := z
      obtain ⟨hq, hlast⟩ := hpairs
      obtain rfl := hq.ofExcept_right
      obtain ⟨u, hu, hresult, heffects⟩ := alone_of_follow (s := atTime s clock) hleft
      obtain ⟨hresult', heffects'⟩ := Alone.fate hv hends
      refine ⟨u, hu, hresult.trans hresult'.symm, ?_⟩
      rw [show effects s u = p.committed from heffects,
        show effects t v = p'.committed from heffects']
      exact forall₂_linked hlast.committed

/-- Events with different ids and different keys do not meet, where the first updates nothing
that a document of the second shows. -/
theorem partners_independent {s t : IngestState} {i j : EventEnvelope} {ms : List Move}
    (hs : IngestReachable s) (hrun : Alone engine ingest s i ms t)
    (hids : i.eventId.1 ≠ j.eventId.1) (hkeys : (businessKeys i).Disjoint (businessKeys j))
    (hundisturbed : ¬ Disturbs (committed s) (effects s t).flatten j) : Indifferent s t j :=
  indifferent_of_paired (lookups_respects fun _ ho => hs.order_known ho) (lookups_includes _ j)
    (paired_after hs hrun ⟨hids, hkeys, hundisturbed⟩)

/-! ## An event id that is taken -/

/-- What has been committed under the event id of `j` keeps `j` from having any effect. -/
theorem suppressed {s t v : IngestState} {i j : EventEnvelope} {ms ms' : List Move}
    (hs : IngestReachable s) (hrun : Alone engine ingest s i ms t)
    (hids : i.eventId = j.eventId) (hdone : effects s t ≠ [])
    (hnext : Alone engine ingest t j ms' v) : effects t v = [] := by
  have ht : IngestReachable t := hs.run hrun
  rcases Alone.commits ht hnext with hsame | ⟨k', hsecond, hinput', _⟩
  · rw [effects, hsame, List.drop_length, List.map_nil]
  · rcases Alone.commits hs hrun with hsame | ⟨k, hfirst, hinput, _⟩
    · refine absurd ?_ hdone
      rw [effects, hsame, List.drop_length, List.map_nil]
    · have hv : Consistent v.shared.history := (ht.run hnext).consistent
      have hprefix : s.shared.history ++ [k] <+: v.shared.history :=
        ⟨[k'], by rw [hsecond, hfirst]⟩
      have hsame : k.input.eventId = k'.input.eventId := by rw [hinput, hinput', hids]
      have hhistory := (commit_once hv.kept hv.keys hprefix
        ⟨[], by rw [hsecond, List.append_nil]⟩ hsame).1
      have hlength := congrArg List.length (hhistory.trans hfirst)
      simp at hlength

/-- The customer in the document that the change stores. -/
def customerSent : Change → Option CustomerSection
  | .inserted (.outbox r) _ => some r.payload.customer
  | _ => none

theorem LinkedChange.customerSent_eq {ρ : Link} {c c' : Change} (h : LinkedChange ρ c c') :
    customerSent c = customerSent c' := by
  cases h with
  | outbox hr =>
    obtain ⟨_, _, _, _, _, _, heq⟩ := hr
    have hcustomer := congrArg (fun m : OutboxMessage => m.payload.customer) heq
    exact congrArg some hcustomer.symm
  | _ => rfl

theorem customersSent_eq {ρ : Link} {us vs : List (List Change)}
    (h : List.Forall₂ (List.Forall₂ (LinkedChange ρ)) us vs) :
    us.flatten.map customerSent = vs.flatten.map customerSent := by
  induction h with
  | nil => rfl
  | cons hfirst _ ih =>
    simp only [List.flatten_cons, List.map_append, ih, List.append_cancel_right_eq]
    induction hfirst with
    | nil => rfl
    | cons hc _ ih' => rw [List.map_cons, List.map_cons, hc.customerSent_eq, ih']

namespace Sample

/-- `k` operations, none of which fails. -/
def moves (k : Nat) : List Move := List.replicate k (.answer .ok)

/-- An event of another partner. -/
def ofPsp (i : EventEnvelope) : EventEnvelope := { i with partner := ⟨"psp", by decide⟩ }

def pspApproval : EventEnvelope :=
  ofPsp (paymentEvent evtPay1 (payment pedido1 tx1 .approved))

def otherClient (eventId : Text 8 64) : EventEnvelope :=
  envelope eventId .clientUpserted
    { invalid with
      clientUpserted := .ok
        { client with
          clientUid := cli2
          address := { address with addressUid := ⟨"END-2", by decide⟩ } } }

/-- The client of both orders under a new name. -/
def renamed : EventEnvelope :=
  envelope evtClient4 .clientUpserted
    { invalid with
      clientUpserted := .ok { client with fullName := anaLima } }

/-- What is stored of the client of both orders, sent again. -/
def resent : EventEnvelope :=
  envelope evtClient4 .clientUpserted { invalid with clientUpserted := .ok client }

def laterState : IngestState := (after (catalog ++ [.tick 60])).get (by decide +kernel)

/-- The state after one more event. -/
def then? (s : IngestState) (i : EventEnvelope) (k : Nat) : Option IngestState :=
  Transition.run (step engine ingest) s (soloLabels s.started i (moves k))

/-- The customers in the documents that the next event stores. -/
def sentNext (s : IngestState) (i : EventEnvelope) (k : Nat) :
    Option (List (Option CustomerSection)) :=
  (then? (atTime s 0) i k).map fun t => (effects s t).flatten.map customerSent

def renamedState : IngestState := (then? catalogState renamed 8).get (by decide +kernel)

end Sample

theorem partners_independent_resent :
    Indifferent Sample.laterState
      ((Sample.then? Sample.laterState Sample.resent 8).get (by decide +kernel))
      Sample.pspApproval := by
  refine partners_independent (i := Sample.resent) (Sample.after_reachable (by decide +kernel))
    (Option.some_get _).symm (by decide) (List.disjoint_iff_ne.mpr (by decide)) ?_
  rintro ⟨o, _, c, hc, hupdates⟩
  -- of the client only the time of the update is written
  have hwrites : c ∈ [ledgerRow Sample.resent,
      .executed (.updateClient 1 none none none (some 60))] := hc
  simp only [List.mem_cons, List.not_mem_nil, or_false] at hwrites
  rcases hwrites with rfl | rfl
  · exact hupdates
  · exact hupdates.2 rfl

/-- An event is lost when another partner has used its id, and the name of a client
reaches the document of an order that another partner approves. -/
theorem partners_not_independent :
    (¬ ∀ (s t : IngestState) (i j : EventEnvelope) (ms : List Move), IngestReachable s →
      Alone engine ingest s i ms t → i.partner ≠ j.partner →
      (businessKeys i).Disjoint (businessKeys j) →
      ¬ Disturbs (committed s) (effects s t).flatten j →
      Indifferent s t j) ∧
    ¬ ∀ (s t : IngestState) (i j : EventEnvelope) (ms : List Move), IngestReachable s →
      Alone engine ingest s i ms t → i.partner ≠ j.partner →
      (businessKeys i).Disjoint (businessKeys j) → i.eventId ≠ j.eventId → Indifferent s t j := by
  constructor
  · intro h
    have hs : IngestReachable (initial 0 []) := ⟨0, [], [], rfl⟩
    have hrun : Alone engine ingest (initial 0 []) Sample.clientEvent (Sample.moves 10)
        ((Sample.then? (initial 0 []) Sample.clientEvent 10).get (by decide +kernel)) :=
      (Option.some_get _).symm
    have hindifferent := h _ _ _ (Sample.ofPsp (Sample.otherClient ⟨"evt-client-1", by decide⟩)) _
      hs hrun (by decide) (List.disjoint_iff_ne.mpr (by decide)) (by
        rintro ⟨o, ⟨htype, _⟩, _⟩
        cases htype)
    obtain ⟨v, hv, _, heffects⟩ := (hindifferent 0 (Sample.moves 10)).1
      ((Sample.then? (initial 0 [])
        (Sample.ofPsp (Sample.otherClient ⟨"evt-client-1", by decide⟩)) 10).get (by decide +kernel))
      (Option.some_get _).symm
    rw [suppressed hs hrun (by decide) (by decide +kernel) hv] at heffects
    have hnone := List.forall₂_nil_right_iff.mp heffects
    revert hnone
    decide +kernel
  · intro h
    have hrun : Alone engine ingest Sample.catalogState Sample.renamed (Sample.moves 8)
        Sample.renamedState := (Option.some_get _).symm
    have hs : IngestReachable Sample.catalogState := Sample.after_reachable (by decide +kernel)
    have hindifferent := h _ _ _ Sample.pspApproval _ hs hrun (by decide)
      (List.disjoint_iff_ne.mpr (by decide)) (by decide)
    have hsome : (Sample.then? (atTime Sample.catalogState 0) Sample.pspApproval 15).isSome := by
      decide +kernel
    have hu := (Option.some_get hsome).symm
    obtain ⟨v, hv, _, heffects⟩ := (hindifferent 0 (Sample.moves 15)).1 _ hu
    have hv : Sample.then? (atTime Sample.renamedState 0) Sample.pspApproval 15 = some v := hv
    have hsame : Sample.sentNext Sample.catalogState Sample.pspApproval 15 =
        Sample.sentNext Sample.renamedState Sample.pspApproval 15 := by
      rw [Sample.sentNext, Sample.sentNext, hu, hv, Option.map_some, Option.map_some,
        customersSent_eq heffects]
    revert hsame
    decide +kernel

end EcommerceIntegration
