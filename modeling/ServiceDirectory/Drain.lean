import ServiceDirectory.Clock

/-! # Draining

Tasks that are to end are waited for as long as a grace period lasts. Those that would need all of
it or more are called off, so that none runs afterwards.
-/

namespace ServiceDirectory

/-- A task that sleeps for some time, at the end of which it may break down. -/
structure Chore where
  sleep : Nat
  breaksDown : Bool
  deriving DecidableEq

structure DrainReport where
  drained : Bool
  elapsed : Nat
  completed : List Nat
  deriving DecidableEq

def Chore.duration (c : Chore) : Nat := Clock.wake 0 c.sleep

def Chore.isInTime (grace : Nat) (c : Chore) : Bool := c.duration < grace

def drain (grace : Nat) (chores : List Chore) : DrainReport :=
  let drained := chores.all (·.isInTime grace)
  { drained
    elapsed := if drained then (chores.map Chore.duration).foldl max 0 else grace
    completed := (chores.zipIdx.filter fun (c, _) => c.isInTime grace && !c.breaksDown).map (·.2) }

end ServiceDirectory
