import ServiceDirectory.Registry.Requests
import ServiceDirectory.Table.Pair

/-! # Replies to commands -/

namespace ServiceDirectory

structure Contents where
  entries : List KeyValue
  txnSizes : List Nat
  keepAlives : Nat
  watchers : Nat

def Contents.ofStore (s : Store) : Contents :=
  ⟨s.entries.values, s.txnSizes, s.keepAlives, s.watcherCount⟩

/-- What a look at a node shows. Parts that are not at hand are left out. -/
structure NodeDescription where
  registry : String
  lease : Option String
  node : Option String

inductive Reply
  | nothing
  | flag (b : Bool)
  | flags (bs : List Bool)
  | lease (id : Option Int)
  | leaseChanges (changed : Bool) (last : Int)
  | seeded (entry : Except Error (Bytes × Bytes))
  | calls (qs : List Request)
  | contents (c : Contents)
  | answer (q : Request) (a : q.Answer)
  | done (result : Except Error Unit)
  | found (result : Except Error Found)
  | batches (items : List (Except Error Batch)) (ended : Bool)
  | renewal (answer : Option (Except Error Renewal))
  | outcome (o : Outcome)
  | refused (e : Error)
  | success (result : Except Status Bool)
  | listed (result : Except Status (List ServiceInfo))
  | rows (result : Except Error (List (Row × Bool)))
  | count (result : Except Error Nat)
  | upserted (result : Except Error Upsert)
  | tables (t : Tables)
  | description (d : NodeDescription)

end ServiceDirectory
