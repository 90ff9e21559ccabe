import EcommerceIntegration.Config
import EcommerceIntegration.Library.Decimal

/-!
# The client of the ERP

Every reaction of the ERP to the POST of an order ends in a response or in one of two
errors, or the body of the response cannot be read.
-/

namespace EcommerceIntegration

set_option autoImplicit false

structure ErpResponse where
  erpOrderId : String
  duplicate : Bool
  deriving DecidableEq

/-- What comes of a POST. The body is what `response.json()` and the two `get` make of it,
or the text of what they raise. -/
inductive HttpResult
  | response (statusCode : Nat) (text : String) (body : Except String ErpResponse)
  | timeout (text : String)
  | transportError (text : String)
  /-- the content of the answer is not encoded as its header says -/
  | decodingError (statusCode : Nat) (text : String)

inductive ErpError
  | temporary (message : String)
  | permanent (message : String)
  | other (message : String)

namespace ErpClient

def retryableStatusCodes : List Nat := [408, 425, 429, 500, 502, 503, 504]
def clientErrorThreshold : Nat := 400

def post : HttpResult → Except ErpError (Nat × String × Except String ErpResponse)
  | .response statusCode text body => .ok (statusCode, text, body)
  | .timeout text => .error (.temporary ("timeout ao chamar o ERP: " ++ text))
  | .transportError text => .error (.temporary ("falha de transporte: " ++ text))
  -- the client library has no `TransportError` for it
  | .decodingError _ text => .error (.other text)

def raiseForStatus (statusCode : Nat) (text : String) : Except ErpError Unit :=
  if statusCode ∈ retryableStatusCodes then
    .error (.temporary ("ERP respondeu " ++ toString statusCode))
  else if clientErrorThreshold ≤ statusCode then
    .error (.permanent ("ERP recusou (" ++ toString statusCode ++ "): " ++
      String.ofList (text.toList.take 200)))
  else .ok ()

def sendOrder (result : HttpResult) : Except ErpError ErpResponse := do
  let (statusCode, text, body) ← post result
  raiseForStatus statusCode text
  body.mapError .other

end ErpClient

/-! ## The backoff -/

/-- `2**attempt` has a float up to here. -/
def maxFloatExponent : Nat := 1023

/-- A product beyond the floats is infinite, and the minimum is the other number. -/
def backoffCeiling (attempt : Nat) (settings : Settings) : ℚ :=
  min settings.dispatchBackoffMaxSeconds (settings.dispatchBackoffBaseSeconds * 2 ^ attempt)

def backoffLimit (attempt : Nat) (settings : Settings) : ℚ :=
  max (backoffCeiling attempt settings) settings.dispatchBackoffBaseSeconds

/-- `random.uniform`; `u` is the random number from the unit interval. -/
def uniform (a b u : ℚ) : ℚ := a + (b - a) * u

/-- `none` is the `OverflowError` of a power that is too large for a float. -/
def backoffDelay (attempt : Nat) (settings : Settings) (u : ℚ) : Option ℚ :=
  if attempt ≤ maxFloatExponent then
    some (uniform settings.dispatchBackoffBaseSeconds (backoffLimit attempt settings) u)
  else none

/-- `timedelta(seconds=seconds)` in microseconds, to which it is rounded half to even. -/
def timedelta (seconds : ℚ) : Nat := Decimal.nearest (seconds * 1000000)

theorem timedelta_mono {a b : ℚ} (h : a ≤ b) : timedelta a ≤ timedelta b :=
  Decimal.nearest_mono (mul_le_mul_of_nonneg_right h (by norm_num))

theorem timedelta_pos_iff {seconds : ℚ} : 0 < timedelta seconds ↔ 1 / 2000000 < seconds := by
  rw [timedelta, Decimal.nearest_pos_iff]
  constructor <;> intro h <;> linarith

section Uniform
variable {a b u : ℚ}

theorem le_uniform (hab : a ≤ b) (hu : 0 ≤ u) : a ≤ uniform a b u :=
  le_add_of_nonneg_right (mul_nonneg (sub_nonneg.mpr hab) hu)

theorem uniform_le (hab : a ≤ b) (hu : u ≤ 1) : uniform a b u ≤ b := by
  have hle : (b - a) * u ≤ b - a := mul_le_of_le_one_right (sub_nonneg.mpr hab) hu
  unfold uniform
  linarith

@[simp] theorem uniform_zero : uniform a b 0 = a := by simp [uniform]

@[simp] theorem uniform_one : uniform a b 1 = b := by simp [uniform]

end Uniform

section BackoffDelay
variable {attempt : Nat} {settings : Settings} {u seconds : ℚ}

theorem base_le_backoffLimit :
    settings.dispatchBackoffBaseSeconds ≤ backoffLimit attempt settings := le_max_right _ _

theorem backoffDelay_bounds (h : backoffDelay attempt settings u = some seconds) (h0 : 0 ≤ u)
    (h1 : u ≤ 1) :
    settings.dispatchBackoffBaseSeconds ≤ seconds ∧ seconds ≤ backoffLimit attempt settings := by
  unfold backoffDelay at h
  split at h
  · obtain rfl := Option.some.inj h
    exact ⟨le_uniform base_le_backoffLimit h0, uniform_le base_le_backoffLimit h1⟩
  · cases h

end BackoffDelay

end EcommerceIntegration
