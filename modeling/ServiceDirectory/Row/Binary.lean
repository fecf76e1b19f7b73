import ServiceDirectory.Row

/-! # The binary form of ids and rows

A text is its length in eight bytes, lowest first, followed by its UTF-8 bytes. An id is its three
segments; a row is its id, host name, port in two bytes, ttl in four bytes and data. Reading takes
the form from the front and leaves the rest.
-/

namespace ServiceDirectory

namespace Bytes

def ofText (s : String) : Bytes := littleEndian 8 (utf8 s).length ++ utf8 s

def readNat (width : Nat) (b : Bytes) : Option (Nat × Bytes) :=
  (splitAt? width b).map fun (n, r) => (ofLittleEndian n, r)

def readText (b : Bytes) : Option (String × Bytes) := do
  let (n, b) ← readNat 8 b
  let (s, b) ← splitAt? n b
  return (← text? s, b)

end Bytes

open Bytes

namespace ServiceId

/-- The key under which a table keeps the row of this id. -/
def bytes (id : ServiceId) : Bytes :=
  ofText id.instanceName ++ ofText id.serviceType ++ ofText id.serviceName

def read (b : Bytes) : Option (ServiceId × Bytes) := do
  let (instanceName, b) ← readText b
  let (serviceType, b) ← readText b
  let (serviceName, b) ← readText b
  return ({ instanceName, serviceType, serviceName }, b)

end ServiceId

namespace Row

def bytes (r : Row) : Bytes :=
  r.id.bytes ++ ofText r.hostname ++ littleEndian 2 r.port.toNat ++ littleEndian 4 r.ttl.toNat ++
    ofText r.data

def read (b : Bytes) : Option (Row × Bytes) := do
  let (id, b) ← ServiceId.read b
  let (hostname, b) ← readText b
  let (port, b) ← readNat 2 b
  let (ttl, b) ← readNat 4 b
  let (data, b) ← readText b
  return ({ id, hostname, port := port.toUInt16, ttl := ttl.toUInt32, data }, b)

def ofBytes (b : Bytes) : Except StorageError Row :=
  match read b with
  | some (r, _) => .ok r
  | none => .error .malformedRow

end Row

end ServiceDirectory
