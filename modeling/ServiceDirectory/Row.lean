import ServiceDirectory.Bytes
import ServiceDirectory.Json.Reader
import ServiceDirectory.Service

/-! # Rows

A row is a registration as the tables keep it: its metadata is a JSON text. Two rows are the same
(`Row.same`) if their metadata is, however it is written; a text that cannot be read is compared as
it stands.
-/

namespace ServiceDirectory

structure Row where
  id : ServiceId
  hostname : String
  port : UInt16
  ttl : UInt32
  data : String
  deriving DecidableEq, Inhabited

def Json.Value.string? : Json.Value → Option String
  | .string s => some s
  | _ => none

/-- The metadata that a JSON text stands for: an object of strings. -/
def Metadata.parse (data : String) : Option Metadata := do
  let members ← Json.parseEntries data
  let entries ← members.mapM fun (k, v) => v.string?.map fun s => (k, s)
  return Dictionary.ofList entries

namespace Row

def metadata (r : Row) : Except CodecError Metadata :=
  match Metadata.parse r.data with
  | some m => .ok m
  | none => .error .json

def toService (r : Row) : Except CodecError Service := do
  Service.make r.id r.hostname r.port r.ttl (← r.metadata)

def same (a b : Row) : Bool :=
  a.id == b.id && a.hostname == b.hostname && a.port == b.port && a.ttl == b.ttl &&
    match Metadata.parse a.data, Metadata.parse b.data with
    | some m, some n => m == n
    | _, _ => a.data == b.data

def sameFound : Option Row → Option Row → Bool
  | some a, some b => a.same b
  | none, none => true
  | _, _ => false

end Row

def Service.toRow (s : Service) : Row :=
  ⟨s.id, s.hostname, s.port, s.ttl, Json.stringObjectText s.metadata⟩

end ServiceDirectory
