import ServiceDirectory.Cluster
import ServiceDirectory.Config.Check
import ServiceDirectory.Node.Creation

/-! # The life of a node

A node that runs takes its address, starts, answers requests until it is told to end, and stops. It
is told so as soon as it is ready, or before.
-/

namespace ServiceDirectory

structure Circumstances where
  storeOffline : Bool
  endedBefore : Bool
  addressTaken : Bool
  deriving DecidableEq

structure LifeReport where
  description : String
  result : Option (Except Error Unit)
  wasReady : Bool
  isReady : Bool
  keysLeft : Nat

namespace Node

def standardTxnOps : Nat := 128

def takeAddress (c : Config) (addressTaken : Bool) : Except Error Unit := do
  let a ← c.server.address.mapError ConfigFault.toError
  if addressTaken then throw (.server ("failed to bind " ++ a.text))

def isReadyIn (c : Cluster) (member : Nat) : Bool :=
  (c.member? member).any (·.node.registry.ready)

def startAndStop (c : Cluster) (member : Nat) : Option (Except Error Unit) × Bool × Cluster :=
  let (task, c) := c.start member
  let c := c.rest
  match c.finished.find? (·.1 == task) with
  | some (_, .started result) =>
    let wasReady := isReadyIn c member
    (some result, wasReady, (c.stop member).2.rest)
  | _ => (none, false, c)

def run (c : Cluster) (member : Nat) (config : Config) (addressTaken : Bool) :
    Option (Except Error Unit) × Bool × Cluster :=
  match takeAddress config addressTaken with
  | .error e => (some (.error e), false, c)
  | .ok () => startAndStop c member

/-- The whole life of a node on an empty store. There is no report if the store breaks down. -/
def live (config : Config) (circumstances : Circumstances) : Except Error (Option LifeReport) := do
  let node ← create config .empty
  let store := { Store.empty standardTxnOps with available := !circumstances.storeOffline }
  let (member, c) := { Cluster.empty standardTxnOps with store }.join
    { node with shutdown := circumstances.endedBefore }
  let (result, wasReady, c) := run c member config circumstances.addressTaken
  return if c.store.broken then none
    else some ⟨node.description 0, result, wasReady, isReadyIn c member, c.store.entries.size⟩

end Node

end ServiceDirectory
