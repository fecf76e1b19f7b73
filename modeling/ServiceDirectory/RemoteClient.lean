import ServiceDirectory.Config
import ServiceDirectory.Endpoint
import ServiceDirectory.Error

/-! # Clients of a remote store

A client is made for an endpoint, which has to be well formed, and connects when it is first used.
-/

namespace ServiceDirectory

structure RemoteClient where
  endpoint : Endpoint
  maxTxnOps : UInt64
  deriving DecidableEq

namespace RemoteClient

def connect (c : RemoteConfig) : Except Error RemoteClient :=
  match Endpoint.parse c.endpoint with
  | some endpoint => .ok ⟨endpoint, c.maxTxnOps⟩
  | none => .error (.remote (.invalidEndpoint c.endpoint))

def description (c : RemoteClient) : String :=
  "EtcdClient \x7b endpoint: " ++ c.endpoint.text ++ ", max_txn_ops: " ++
    Text.natText c.maxTxnOps.toNat ++ " \x7d"

end RemoteClient

/-- Why no connection comes about to an endpoint at which nobody listens. -/
def connectionFailure (endpoint : String) : RemoteError :=
  if (Endpoint.parse endpoint).isSome then .transport else .invalidEndpoint endpoint

end ServiceDirectory
