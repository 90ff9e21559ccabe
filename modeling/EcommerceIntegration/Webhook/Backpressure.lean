import EcommerceIntegration.Messaging.Streams
import EcommerceIntegration.Webhook.Buffer

/-!
# Backpressure of the API

The guard asks for the lag of the stream, once in every probe interval, and the API
answers 429 while it is not below the limit. The lag is the length of the stream.
-/

namespace EcommerceIntegration

set_option autoImplicit false

open RedisStreamPublisher

variable {α : Type}

structure BackpressureState where
  overloaded : Bool
  lag : Nat
  retryAfterSeconds : Nat

def minRetryAfterSeconds : Nat := 1
def maxRetryAfterSeconds : Nat := 30

/-- `lastProbeAt` is a time of the monotonic clock in microseconds. -/
structure BackpressureGuard where
  lastProbeAt : Nat := 0
  state : BackpressureState := ⟨false, 0, minRetryAfterSeconds⟩

namespace BackpressureGuard

def retryAfterFor (lag limit : Nat) : Nat :=
  min maxRetryAfterSeconds (max minRetryAfterSeconds (lag / max limit 1))

def probeIsDue (settings : Settings) (now : Nat) (guard : BackpressureGuard) : Bool :=
  decide (guard.lastProbeAt + settings.backpressureProbeMs * 1000 ≤ now)

def probe (settings : Settings) (now lag : Nat) : BackpressureGuard :=
  let limit := settings.backpressureMaxLag
  ⟨now, decide (limit ≤ lag), lag, retryAfterFor lag limit⟩

def evaluate (settings : Settings) (now lag : Nat) (guard : BackpressureGuard) :
    BackpressureGuard :=
  if probeIsDue settings now guard then probe settings now lag else guard

end BackpressureGuard

structure AcceptedResponse where
  statusCode : Nat
  retryAfter : Option Nat
  accepted : Nat
  buffered : Nat

/-- The events that the buffer took and whether it was full for the next one. -/
def submitAll (settings : Settings) :
    List α → EventBuffer.State α → Nat × Bool × EventBuffer.State α
  | [], buffer => (0, false, buffer)
  | event :: events, buffer =>
    match EventBuffer.submit settings event buffer with
    | .ok buffer =>
      let (accepted, full, buffer) := submitAll settings events buffer
      (accepted + 1, full, buffer)
    | .error _ => (0, true, buffer)

def ingestEvents (settings : Settings) (now lag : Nat) (events : List α)
    (guard : BackpressureGuard) (buffer : EventBuffer.State α) :
    AcceptedResponse × BackpressureGuard × EventBuffer.State α :=
  let guard := guard.evaluate settings now lag
  if guard.state.overloaded then
    (⟨429, some guard.state.retryAfterSeconds, 0, EventBuffer.depth buffer⟩, guard, buffer)
  else
    let (accepted, full, buffer) := submitAll settings events buffer
    (⟨if full then 429 else 202, if full then some minRetryAfterSeconds else none, accepted,
      EventBuffer.depth buffer⟩, guard, buffer)

/-- The lag is the number of published entries that are not acknowledged, and when there
is none the next probe lets the events in. -/
def MeasuresBacklog (settings : Settings) (s : Streams α) : Prop :=
  let lag := pendingLag (some s.stream.xlen)
  lag = s.stream.unacknowledged.length ∧
    (s.stream.unacknowledged = [] → 1 ≤ settings.backpressureMaxLag →
      ∀ now, (BackpressureGuard.probe settings now lag).state.overloaded = false)

theorem measuresBacklog_iff_none (settings : Settings) (s : Streams α) :
    MeasuresBacklog settings s ↔ ∀ id, ¬ s.stream.Acknowledged id := by
  rw [← ConsumerGroup.Stream.unacknowledged_length_iff]
  constructor
  · rintro ⟨hlag, _⟩
    exact hlag.symm
  · intro hlength
    refine ⟨hlength.symm, fun hnil hlimit now => ?_⟩
    have hzero : s.stream.xlen = 0 := by rw [← hlength, hnil, List.length_nil]
    simp only [BackpressureGuard.probe, pendingLag, hzero, decide_eq_false_iff_not]
    omega

/-- The lag measures the backlog exactly as long as nothing has been acknowledged. -/
theorem lag_measuresBacklog_iff {settings : Settings} {ls : List (StreamLabel α)} {s : Streams α}
    (hrun : Streams.run settings ls = some s) :
    MeasuresBacklog settings s ↔
      Transition.Along (Streams.step settings) (fun s l => ¬ Acknowledges s l) {} ls := by
  rw [measuresBacklog_iff_none]
  exact Streams.run_none_acknowledged (fun id => ConsumerGroup.Stream.not_acknowledged_empty id) hrun

/-- As soon as the stream is as long as the limit, whatever happens to it, every probe
turns the events away. -/
theorem ingestEvents_overloaded {settings : Settings} {ls : List (StreamLabel α)}
    {s t : Streams α} (hlong : settings.backpressureMaxLag ≤ s.stream.xlen)
    (hrun : Transition.run (Streams.step settings) s ls = some t) {now : Nat}
    {guard : BackpressureGuard} (hdue : guard.probeIsDue settings now = true) (events : List α)
    (buffer : EventBuffer.State α) :
    let lag := pendingLag (some t.stream.xlen)
    ingestEvents settings now lag events guard buffer =
      (⟨429, some (BackpressureGuard.retryAfterFor lag settings.backpressureMaxLag), 0,
        EventBuffer.depth buffer⟩, BackpressureGuard.probe settings now lag, buffer) := by
  have hlag : settings.backpressureMaxLag ≤ t.stream.xlen := hlong.trans (Streams.run_xlen hrun)
  simp [ingestEvents, BackpressureGuard.evaluate, hdue, BackpressureGuard.probe, pendingLag, hlag]

/-! ## One event, read and acknowledged -/

namespace Sample

def smallLimit : Settings := { backpressureMaxLag := 1 }

def consumed : List (StreamLabel String) := [.publishMany ["evt-00000001"], .read 0, .ack [0]]

def waiting : List (StreamLabel String) := [.publishMany ["evt-00000001"], .read 0]

end Sample

theorem lag_measuresBacklog_waiting :
    MeasuresBacklog Sample.smallLimit
      ((Streams.run Sample.smallLimit Sample.waiting).get (by decide)) :=
  (lag_measuresBacklog_iff (Option.some_get _).symm).mpr (by decide)

/-- Everything has been acknowledged and the next probe still reports an overload. -/
theorem lag_keepsConsumed : ¬ ∀ (settings : Settings) (ls : List (StreamLabel String)) s,
    Streams.run settings ls = some s → MeasuresBacklog settings s := by
  intro hall
  have hmeasures := hall Sample.smallLimit Sample.consumed _ (Option.some_get (by decide)).symm
  have hoverloaded := hmeasures.2 (by decide) (by decide) 0
  revert hoverloaded
  decide

end EcommerceIntegration
