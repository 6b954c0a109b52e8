import Meshcast.ValidityTime

/-!
# Meshcast — protocol parameters
-/

namespace Meshcast

/-- The parameters of a node. Times are in milliseconds. -/
structure Config where
  helloInterval : Nat := 2000
  tcInterval : Nat := 5000
  neighborHoldTime : Nat := 6000
  topologyHoldTime : Nat := 15000
  /-- How long a handled message is remembered. -/
  duplicateHoldTime : Nat := 30000
  maintenanceInterval : Nat := 1000
  /-- For how many rounds of maintenance a member that left a group still gets its traffic. -/
  graceTicks : Nat := 3
  maxTtl : UInt8 := 255
deriving DecidableEq

namespace Config

def helloValidity (config : Config) : ValidityTime :=
  .ofMillis config.neighborHoldTime

def tcValidity (config : Config) : ValidityTime :=
  .ofMillis config.topologyHoldTime

end Config

end Meshcast
