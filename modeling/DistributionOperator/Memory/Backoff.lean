/-! How long to wait before a failed pass is tried again. The delays are those of the Fibonacci
numbers, from five seconds on and up to five minutes. -/

namespace DistributionOperator.Backoff

def firstDelay : Nat := 5

def longestDelay : Nat := 300

/-- So many steps along the sequence from two delays that follow each other. -/
def delayFrom : Nat → Nat → Nat → Nat
  | 0, _, current => current
  | n + 1, previous, current =>
    if longestDelay ≤ current then current
    else delayFrom n current (min (previous + current) longestDelay)

def delay (failures : UInt32) : Nat := delayFrom (failures.toNat - 1) 0 firstDelay

def more (failures : UInt32) : UInt32 :=
  if failures.toNat < 4294967295 then failures + 1 else failures

end DistributionOperator.Backoff
