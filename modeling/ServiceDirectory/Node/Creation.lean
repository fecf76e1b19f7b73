import ServiceDirectory.Config
import ServiceDirectory.Node
import ServiceDirectory.Node.Storage
import ServiceDirectory.Table.Pair

/-! # Making and describing nodes

A node is made from its configuration and the tables that its database holds.
-/

namespace ServiceDirectory

namespace Config

def nodeSettings (c : Config) : NodeSettings where
  name := c.discovery.nodeName
  keyspace := .ofNamespace c.discovery.keyRoot
  pointerKey := c.pointerKey
  leaseTtl := c.lease.ttlSecs.toInt
  keepAlivePeriod := c.lease.keepAliveIntervalSecs.toNat * 1000
  syncPeriod := c.discovery.syncIntervalSecs.toNat * 1000
  backoff := c.remote.reconnect
  stopGrace := c.server.shutdownGraceMs.toNat

end Config

namespace Node

def create (c : Config) (tables : Tables) : Except Error Node :=
  if c.storage.canOpen then .ok (.init c.nodeSettings tables.localRows tables.globalRows)
  else .error (.storage .database)

/-! ## Descriptions -/

def flagText (b : Bool) : String := if b then "true" else "false"

def registryDescription (n : Node) : String :=
  "RegistryServicer \x7b namespace: " ++ Text.quoted n.keyspace.root ++ ", timers: " ++
    Text.natText n.registry.timers.size ++ ", ready: " ++ flagText n.registry.ready ++ " \x7d"

def leaseDescription (n : Node) : String :=
  let lease := match n.lease with
    | some id => "Some(" ++ Text.intText id ++ ")"
    | none => "None"
  "LeaseManager \x7b lease_id: " ++ lease ++ ", pointer_key: " ++
    Text.quoted n.settings.pointerKey ++ " \x7d"

def description (n : Node) (loops : Nat) : String :=
  "DiscoveryNode \x7b node: " ++ Text.quoted n.settings.name ++ ", namespace: " ++
    Text.quoted n.keyspace.root ++ ", tasks: " ++ Text.natText loops ++ " \x7d"

end Node

end ServiceDirectory
