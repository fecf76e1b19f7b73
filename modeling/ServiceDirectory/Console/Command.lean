import ServiceDirectory.Client
import ServiceDirectory.Cluster.Fault
import ServiceDirectory.Config
import ServiceDirectory.Service
import ServiceDirectory.Table.Pair

/-! # Commands

What an operator can tell a cluster to do. Nodes and open streams go by names.
-/

namespace ServiceDirectory

inductive LoopKind
  | watch | lease | sync
  deriving DecidableEq

inductive StoreCommand
  | seed (key value : Bytes) (lease : Option Int)
  | seedRow (keyspace : Keyspace) (row : Row) (lease : Option Int)
  | seedLease (ttl : Int)
  | revoke (lease : Int)
  | setAvailable (up : Bool)
  | pausePuts (paused : Bool)
  | addFault (fault : Fault)
  | calls
  | contents
  | knowsLease (lease : Int)
  | ask (q : Request)
  | getMany (keys : List Bytes)
  | putMany (kvs : List (Bytes × Bytes)) (lease : Option Int)
  | openWatch (name : String) (range : KeyRange) (start : Int)
  | pollWatch (name : String)
  | closeWatch (name : String)
  | openHeartbeat (name : String) (lease : Int)
  | sendHeartbeat (name : String) (lease : Int)
  | pollHeartbeat (name : String)

inductive NodeCommand
  | create (config : Config) (whole : Bool) (records : List Tables.Record)
  | letGo
  | acquireLease
  | leaseId
  | leaseChanges
  | run (loop : LoopKind)
  | cancel
  | loops
  | resync
  | importOnce
  | republish
  | synchronize
  | register (service : Except CodecError Service)
  | unregister (id : ServiceId)
  | keepAlive (id : ServiceId)
  | list (instanceName serviceType : Option String)
  | restore (kvs : List (Bytes × Bytes))
  | handleEvents (events : List Event)
  | disarmAll
  | setReady (ready : Bool)
  | request (q : RegistryRequest)
  | tables
  | putRow (name : TableName) (row : Row)
  | describe
  | start
  | stop

inductive Command
  | advance (ms : Nat)
  | store (c : StoreCommand)
  | node (name : String) (c : NodeCommand)

end ServiceDirectory
