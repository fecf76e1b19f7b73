/-! # The clock

Times and periods are in milliseconds. Nobody sleeps longer than thirty years, and a time that the
clock cannot count is put off to thirty years from now.
-/

namespace ServiceDirectory.Clock

def longestSleep : Nat := 30 * 365 * 24 * 60 * 60 * 1000

/-- The clock counts seconds in 63 bits, and at time zero it has counted some already. -/
def horizon : Nat := (Int64.maxValue.toInt.toNat - 3600) * 1000

def wake (now period : Nat) : Nat := now + min period longestSleep

/-- The time that lies a period after `start`, if the clock can count it. -/
def later? (start period : Nat) : Option Nat :=
  if start + period < horizon then some (start + period) else none

def later (now start period : Nat) : Nat := (later? start period).getD (now + longestSleep)

end ServiceDirectory.Clock
