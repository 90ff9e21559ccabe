import Mathlib.Data.Rat.Defs

/-!
# Settings

The fields that the modelled functions read. A negative number acts as zero does.
The seconds of the backoff are finite floats.
-/

namespace EcommerceIntegration

set_option autoImplicit false

structure Settings where
  bufferMaxBatch : Nat := 500
  bufferFlushMs : Nat := 5
  bufferQueueSize : Nat := 20000
  backpressureMaxLag : Nat := 100000
  backpressureProbeMs : Nat := 500
  streamMaxlen : Nat := 1000000
  consumerBatchSize : Nat := 500
  consumerIdleReclaimMs : Nat := 60000
  consumerMaxDelivery : Nat := 5
  dispatchBatchSize : Nat := 50
  dispatchMaxAttempts : Nat := 5
  dispatchBackoffBaseSeconds : ℚ := 1
  dispatchBackoffMaxSeconds : ℚ := 60

end EcommerceIntegration
