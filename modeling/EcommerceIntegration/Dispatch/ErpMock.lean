import EcommerceIntegration.Dispatch.Worker

/-!
# The ERP service

A request is suspended between its lookup of the key and the registration of the order;
in between, other requests run. Workers and service form one system: a request may reach
the service at any time after it was sent, and its answer may come too late or never.
-/

namespace EcommerceIntegration

set_option autoImplicit false

namespace ErpMock

def serverErrorCodes : List Nat := [500, 503]

structure ErpRecord where
  erpOrderId : String
  orderUid : String
  receivedAt : Time
  items : Nat
  totalAmount : Nat
  city : String
  deriving DecidableEq

structure ErpAck where
  erpOrderId : String
  duplicate : Bool
  deriving DecidableEq

/-- The two dictionaries of the service. -/
structure State where
  acknowledgedByKey : String → Option ErpRecord := fun _ => none
  erpIdByOrder : String → Option String := fun _ => none

/-- Where a request is suspended, or how it was answered; an error is a status code. -/
inductive Handling
  | sleeping
  | stalled (code : Nat)
  | answered (answer : Except Nat ErpAck)

/-- What the random numbers decide for a request after its first sleep. -/
inductive Draw
  | works (erpOrderId : String) (receivedAt : Time)
  | fails (code : Nat)
  | stalls (code : Nat)

/-- `receive_order` up to its first `await`. -/
def lookup (s : State) (key : String) : Handling :=
  if key = "" then .sleeping
  else
    match s.acknowledgedByKey key with
    | some record => .answered (.ok ⟨record.erpOrderId, true⟩)
    | none => .sleeping

def register (payload : OrderPayload) (erpOrderId : String) (receivedAt : Time) (s : State) :
    State × ErpRecord :=
  ({ s with erpIdByOrder := Function.update s.erpIdByOrder payload.order.orderUid erpOrderId },
    { erpOrderId
      orderUid := payload.order.orderUid
      receivedAt
      items := payload.items.length
      totalAmount := payload.order.totalAmount
      city := payload.shippingAddress.fields.city })

/-- `receive_order` from the end of its first sleep on. -/
def wake (key : String) (payload : OrderPayload) (s : State) : Draw → Option (State × Handling)
  | .works erpOrderId receivedAt =>
    let (s', record) := register payload erpOrderId receivedAt s
    let s'' :=
      if key = "" then s'
      else { s' with acknowledgedByKey := Function.update s'.acknowledgedByKey key (some record) }
    some (s'', .answered (.ok ⟨record.erpOrderId, false⟩))
  | .fails code => if code ∈ serverErrorCodes then some (s, .answered (.error code)) else none
  | .stalls code => if code ∈ serverErrorCodes then some (s, .stalled code) else none

/-- The answer as the client receives it; it reads the body of an order only. -/
def httpResult : Except Nat ErpAck → HttpResult
  | .ok ack => .response 201 "" (.ok ⟨ack.erpOrderId, ack.duplicate⟩)
  | .error code => .response code "ERP indisponivel (falha injetada)" (.ok ⟨"", false⟩)

end ErpMock

/-! ## Workers and service -/

/-- Requests are numbered as they were sent. `answers` records the successful answers
given for each key. -/
structure ErpSystem where
  dispatch : DispatchState
  server : ErpMock.State := {}
  handling : Nat → Option ErpMock.Handling := fun _ => none
  answers : List (String × ErpMock.ErpAck) := []

inductive ErpLabel
  /-- a step of the workers; it brings no answer of the service -/
  | worker (l : DispatchLabel)
  /-- the request comes to the service -/
  | receive (r : Nat)
  | wake (r : Nat) (draw : ErpMock.Draw)
  /-- a stalled request fails -/
  | fail (r : Nat)
  /-- the answer to the request comes back to its task -/
  | deliver (r : Nat)

namespace ErpSystem

/-- `httpx` reports no answer: the only results that do not come from the service. -/
def unanswered : DispatchLabel → Bool
  | .reply _ (.response ..) => false
  | _ => true

def request (s : ErpSystem) (r : Nat) : Option ErpRequest := s.dispatch.board.requests[r]?

def key (request : ErpRequest) : String := DispatchWorker.idempotencyKey request.item

/-- The request `r` is now at that point; a successful answer is given. -/
def handle (s : ErpSystem) (r : Nat) (key : String) (handling : ErpMock.Handling) : ErpSystem :=
  { s with
    handling := Function.update s.handling r (some handling)
    answers :=
      match handling with
      | .answered (.ok ack) => s.answers ++ [(key, ack)]
      | _ => s.answers }

def step (settings : Settings) (s : ErpSystem) : ErpLabel → Option ErpSystem
  | .worker l =>
    if unanswered l then (s.dispatch.step settings l).map fun dispatch => { s with dispatch }
    else none
  | .receive r =>
    match s.request r, s.handling r with
    | some request, none =>
      some (s.handle r (key request) (ErpMock.lookup s.server (key request)))
    | _, _ => none
  | .wake r draw =>
    match s.request r, s.handling r with
    | some request, some .sleeping =>
      (ErpMock.wake (key request) request.item.payload s.server draw).map fun (server, handling) =>
        { s.handle r (key request) handling with server }
    | _, _ => none
  | .fail r =>
    match s.request r, s.handling r with
    | some request, some (.stalled code) =>
      some (s.handle r (key request) (.answered (.error code)))
    | _, _ => none
  | .deliver r =>
    match s.request r, s.handling r with
    | some request, some (.answered answer) =>
      (s.dispatch.step settings (.reply request.task (ErpMock.httpResult answer))).map
        fun dispatch => { s with dispatch }
    | _, _ => none

def initial (clock : Time) : ErpSystem := { dispatch := DispatchState.initial clock }

def run (settings : Settings) (s : ErpSystem) (ls : List ErpLabel) : Option ErpSystem :=
  Transition.run (step settings) s ls

end ErpSystem

end EcommerceIntegration
