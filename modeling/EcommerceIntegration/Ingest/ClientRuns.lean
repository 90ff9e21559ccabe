import EcommerceIntegration.Ingest.Executions

/-!
# Complete executions of the client handler

The handler writes the client first and then, when the event changes the address, closes
the version that it has read as the current one and opens the next.
-/

namespace EcommerceIntegration

set_option autoImplicit false

open Transaction

def newClient (data : ClientUpsertedData) (t : Time) : Client where
  clientId := 0
  clientUid := data.clientUid
  fullName := data.fullName
  document := data.document
  email := data.email
  updatedAt := t

/-- The UPDATE of a known client. -/
def clientUpdate (data : ClientUpsertedData) (t : Time) (c : Client) : Stmt :=
  .updateClient c.clientId (changed c.fullName data.fullName) (changed c.document data.document)
    (changed c.email data.email) (changed c.updatedAt t)

def clientRecord (data : ClientUpsertedData) (t : Time) (c : Client) : List Change :=
  if (changed c.fullName data.fullName).isSome || (changed c.document data.document).isSome ||
      (changed c.email data.email).isSome || (changed c.updatedAt t).isSome then
    [.executed (clientUpdate data t c)]
  else []

def newVersion (clientId : Nat) (payload : AddressPayload) (t : Time) : Address where
  addressId := 0
  addressUid := payload.addressUid
  clientId := clientId
  fields := payload.fields
  validFrom := t
  validTo := none
  isCurrent := true

def clientOf (d : Database) (clientUid : String) : Option Client :=
  d.clients.find? (·.clientUid == clientUid)

def currentVersion (d : Database) (addressUid : String) : Option Address :=
  d.address.find? fun a => a.addressUid == addressUid && a.isCurrent

/-- The later database has no version of the address that became current since. -/
def NoNewCurrent (addressUid : String) (d d' : Database) : Prop :=
  ∀ a ∈ d'.address, a.isCurrent = true → a.addressUid = addressUid → a ∈ d.address

theorem noNewCurrent_apply {addressUid : String} {c : Change}
    (hc : .currentAddress addressUid ∉ locks c) (d : Database) :
    NoNewCurrent addressUid d (engine.apply d c) := by
  intro a ha hcur huid
  cases c with
  | inserted row id =>
    cases row with
    | address r =>
      rcases List.mem_append.mp ha with ha | ha
      · exact ha
      · obtain rfl := List.mem_singleton.mp ha
        simp_all [locks]
    | client | order | orderItem | payment | invoice | outbox => exact ha
  | executed stmt =>
    cases stmt with
    | closeAddress id t =>
      obtain ⟨b, hb, ⟨_, rfl⟩ | ⟨_, rfl⟩⟩ := mem_updateWhere.mp ha
      · cases hcur
      · exact hb
    | registerEvent | updateClient | updateOrder | updatePayment => exact ha

theorem noNewCurrent_replay {addressUid : String} {ws : List Change}
    (hws : ∀ c ∈ ws, .currentAddress addressUid ∉ locks c) (d : Database) :
    NoNewCurrent addressUid d (engine.replay d ws) := by
  induction ws generalizing d with
  | nil => exact fun a ha _ _ => ha
  | cons c ws ih =>
    intro a ha hcur huid
    have hmid := ih (fun c' hc' => hws c' (List.mem_cons_of_mem c hc')) _ a ha hcur huid
    exact noNewCurrent_apply (hws c List.mem_cons_self) d a hmid hcur huid

/-- The uids that the clients go by, which stay. -/
def clientNames (d : Database) : List (Nat × String) :=
  d.clients.map fun c => (c.clientId, c.clientUid)

def gainedNames : Change → List (Nat × String)
  | .inserted (.client r) id => [(id, r.clientUid)]
  | _ => []

theorem clientNames_apply (d : Database) (c : Change) :
    clientNames (engine.apply d c) = clientNames d ++ gainedNames c := by
  cases c with
  | inserted row id =>
    cases row with
    | client r => exact List.map_append
    | address | order | orderItem | payment | invoice | outbox => exact (List.append_nil _).symm
  | executed stmt =>
    cases stmt with
    | updateClient id n doc e t =>
      have hset : ∀ c : Client, ((c.set n doc e t).clientId, (c.set n doc e t).clientUid) =
          (c.clientId, c.clientUid) := fun _ => rfl
      exact (map_updateWhere hset d.clients).trans (List.append_nil _).symm
    | registerEvent | closeAddress | updateOrder | updatePayment => exact (List.append_nil _).symm

theorem clientNames_replay (d : Database) (ws : List Change) :
    clientNames (engine.replay d ws) = clientNames d ++ ws.flatMap gainedNames := by
  induction ws generalizing d with
  | nil => exact (List.append_nil _).symm
  | cons c ws ih => rw [Engine.replay_cons, ih, clientNames_apply, List.append_assoc]; rfl

theorem clientNames_grow : engine.Grows clientNames := by
  intro d c
  rw [clientNames_apply]
  exact List.subset_append_left _ _

theorem clientNames_view {h h' : History} {ws ws' : List Change} (hle : h <+: h')
    (hws : ws <+: ws') : clientNames (engine.view h ws) ⊆ clientNames (engine.view h' ws') := by
  obtain ⟨new, rfl⟩ := hws
  simp only [Engine.view, clientNames_replay, List.flatMap_append]
  intro x hx
  rcases List.mem_append.mp hx with hx | hx
  · exact List.mem_append_left _ (clientNames_grow.state hle hx)
  · exact List.mem_append_right _ (List.mem_append_left _ hx)

theorem clientNames_of_find {d : Database} {clientUid : String} {c : Client}
    (hc : clientOf d clientUid = some c) : (c.clientId, clientUid) ∈ clientNames d := by
  have huid : c.clientUid = clientUid := by simpa using List.find?_some hc
  exact huid ▸ List.mem_map_of_mem (List.mem_of_find?_eq_some hc)

/-- From `h` on, with the writes `ws` pending, the client is written at the history `h'`. -/
inductive ClientWritten (R : Rely store EventEnvelope) (data : ClientUpsertedData)
    (h : History) (ws : List Change) (h' : History) : List Change → Prop
  | created {h₁ t id} (read : R.allows h h₁) (later : R.allows h₁ h')
      (absent : clientOf (engine.view h₁ ws) data.clientUid = none) :
    ClientWritten R data h ws h' [.inserted (.client (newClient data t)) id]
  | updated {h₁ t c} (read : R.allows h h₁) (later : R.allows h₁ h')
      (found : clientOf (engine.view h₁ ws) data.clientUid = some c) :
    ClientWritten R data h ws h' (clientRecord data t c)

/-- From `h` on, with the writes `ws` pending, the address is versioned at the history
`h'`. -/
inductive Versioned (R : Rely store EventEnvelope) (clientId : Nat) (payload : AddressPayload)
    (h : History) (ws : List Change) (h' : History) : List Change → Prop
  | kept {h₁ v} (read : R.allows h h₁) (later : R.allows h₁ h')
      (found : currentVersion (engine.view h₁ ws) payload.addressUid = some v)
      (same : v.fields = payload.fields) :
    Versioned R clientId payload h ws h' []
  | opened {h₁ t id} (read : R.allows h h₁) (later : R.allows h₁ h')
      (absent : currentVersion (engine.view h₁ ws) payload.addressUid = none) :
    Versioned R clientId payload h ws h'
      [.inserted (.address (newVersion clientId payload t)) id]
  | replaced {h₁ h₂ h₃ v t id} (read : R.allows h h₁) (clock : R.allows h₁ h₂)
      (inserted : R.allows h₂ h₃) (later : R.allows h₃ h')
      (found : currentVersion (engine.view h₁ ws) payload.addressUid = some v)
      (differs : v.fields ≠ payload.fields) (time : Later h₂ t)
      (new : NewId keyLaws h₃ (ws ++ [.executed (.closeAddress v.addressId t)])
        (.address (newVersion clientId payload t)) id) :
    Versioned R clientId payload h ws h'
      [.executed (.closeAddress v.addressId t),
        .inserted (.address (newVersion clientId payload t)) id]

section Runs
variable {R : Rely store EventEnvelope} {i : EventEnvelope} {h h' : History}
  {ws ws' : List Change}

/-- The client that is returned is stored under the uid of the event. -/
theorem clientUpsert_runs {data : ClientUpsertedData} {client : Client}
    (hr : Runs keyLaws R
      (ClientRepository.upsert data.clientUid data.fullName data.document data.email) h ws h' ws'
      (.value client)) :
    ∃ new, ws' = ws ++ new ∧ ClientWritten R data h ws h' new ∧
      (client.clientId, data.clientUid.1) ∈ clientNames (engine.view h' ws') := by
  simp only [ClientRepository.upsert, ClientRepository.getByUid, ClientRepository.insert,
    Program.bind_eq] at hr
  obtain ⟨h₁, hread, _, hr⟩ := runs_select hr
  split at hr
  · rename_i habsent
    obtain ⟨t, hr⟩ := runs_utcnow hr
    obtain ⟨h₂, id, hle, _, ⟨_, hr⟩ | ⟨_, _, he, _⟩⟩ := runs_insert hr
    · obtain ⟨hle', rfl, he⟩ := hr
      cases he
      refine ⟨_, rfl, .created hread (R.trans hle hle') habsent, ?_⟩
      rw [Engine.view_concat, clientNames_apply]
      exact List.mem_append_right _ List.mem_cons_self
    · cases he
  · rename_i c hfound
    have hname : (c.clientId, data.clientUid.1) ∈ clientNames (engine.view h₁ ws) :=
      clientNames_of_find hfound
    obtain ⟨t, hr⟩ := runs_utcnow hr
    obtain ⟨h₂, hle, hr⟩ := runs_flush (fun _ => rfl) hr
    obtain ⟨hle', rfl, he⟩ := hr
    cases he
    refine ⟨clientRecord data t c, rfl, .updated hread (R.trans hle hle') hfound, ?_⟩
    exact clientNames_view (R.prefix_of (R.trans hle hle')) (List.prefix_append _ _) hname

theorem upsertVersion_runs {clientId : Nat} {payload : AddressPayload} {a : Address}
    (hr : Runs keyLaws R (AddressRepository.upsertVersion clientId payload) h ws h' ws'
      (.value a)) :
    ∃ new, ws' = ws ++ new ∧ Versioned R clientId payload h ws h' new := by
  simp only [AddressRepository.upsertVersion, AddressRepository.getCurrentVersion,
    AddressRepository.closeVersion, AddressRepository.openVersion, Program.bind_eq] at hr
  obtain ⟨h₁, hread, _, hr⟩ := runs_select hr
  split at hr
  · rename_i habsent
    obtain ⟨t, hr⟩ := runs_utcnow hr
    obtain ⟨h₂, id, hle, _, ⟨_, hr⟩ | ⟨_, _, he, _⟩⟩ := runs_insert hr
    · obtain ⟨hle', rfl, _⟩ := hr
      exact ⟨_, rfl, .opened hread (R.trans hle hle') habsent⟩
    · cases he
  · rename_i v hfound
    split at hr
    · rename_i hdiffers
      obtain ⟨h₂, t, hclock, htime, hr⟩ := runs_clock hr
      obtain ⟨h₃, hexec, hr⟩ := runs_execute (fun _ => rfl) hr
      obtain ⟨h₄, id, hle, hnew, ⟨_, hr⟩ | ⟨_, _, he, _⟩⟩ := runs_insert hr
      · obtain ⟨hle', rfl, _⟩ := hr
        refine ⟨_, List.append_assoc _ _ _, ?_⟩
        exact .replaced hread hclock (R.trans hexec hle) hle' hfound
          (by simpa [AddressRepository.differsFrom] using hdiffers) htime hnew
      · cases he
    · rename_i hsame
      obtain ⟨hle, rfl, _⟩ := hr
      refine ⟨[], (List.append_nil _).symm, .kept hread hle hfound ?_⟩
      simpa [AddressRepository.differsFrom] using hsame

/-- The address is versioned for the client of the event. -/
theorem clientHandler_named {u : Unit}
    (hr : Runs keyLaws R (ClientUpsertedHandler.handle i) h ws h' ws' (.value u)) :
    ∃ (data : ClientUpsertedData) (clientId : Nat) (h₁ : History) (client address : List Change),
      i.data.clientUpserted = .ok data ∧ ClientWritten R data h ws h₁ client ∧
      Versioned R clientId data.address h₁ (ws ++ client) h' address ∧
      R.allows h h₁ ∧ R.allows h₁ h' ∧ ws' = ws ++ client ++ address ∧
      (clientId, data.clientUid.1) ∈ clientNames (engine.view h₁ (ws ++ client)) := by
  simp only [ClientUpsertedHandler.handle, Program.bind_eq] at hr
  obtain ⟨data, hdata, hr⟩ := runs_validate hr
  rcases hr.andThen with ⟨h₁, ws₁, client, hclient, hr⟩ | ⟨_, _, he, _⟩
  · obtain ⟨new, rfl, hwritten, hname⟩ := clientUpsert_runs hclient
    rcases hr.andThen with ⟨h₂, ws₂, a, haddress, hr⟩ | ⟨_, _, he, _⟩
    · obtain ⟨hle, rfl, _⟩ := hr
      obtain ⟨new', rfl, hversioned⟩ := upsertVersion_runs (haddress.extend hle)
      exact ⟨data, client.clientId, h₁, new, new', hdata, hwritten, hversioned, hclient.later,
        R.trans haddress.later hle, rfl, hname⟩
    · cases he
  · cases he

theorem clientHandler_runs {u : Unit}
    (hr : Runs keyLaws R (ClientUpsertedHandler.handle i) h ws h' ws' (.value u)) :
    ∃ (data : ClientUpsertedData) (clientId : Nat) (h₁ : History) (client address : List Change),
      i.data.clientUpserted = .ok data ∧ ClientWritten R data h ws h₁ client ∧
      Versioned R clientId data.address h₁ (ws ++ client) h' address ∧
      R.allows h h₁ ∧ R.allows h₁ h' ∧ ws' = ws ++ client ++ address := by
  obtain ⟨data, clientId, h₁, client, address, hdata, hclient, haddress, hle, hle', hws, _⟩ :=
    clientHandler_named hr
  exact ⟨data, clientId, h₁, client, address, hdata, hclient, haddress, hle, hle', hws⟩

end Runs

end EcommerceIntegration
