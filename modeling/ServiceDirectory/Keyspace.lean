import ServiceDirectory.Row
import ServiceDirectory.Text.Blank

/-! # Remote keys and values

Under a namespace, the registration of an id is kept at the key
`namespace/instance/type/name`. Its value is a JSON object of strings: the metadata together with
the fields `hostname`, `port` and `ttl`, in the order of the keys. Values of other writers are
accepted more leniently: a number may stand for itself, and metadata of any kind is kept as its JSON
text. What cannot be read is nobody's registration.
-/

namespace ServiceDirectory

def normalizeNamespace (s : String) : String :=
  String.ofList (s.toList.reverse.dropWhile (· == '/')).reverse

/-- The keys of the services under one namespace, which has no separator at its end. -/
structure Keyspace where
  root : String
  deriving DecidableEq, Inhabited

namespace Keyspace

def ofNamespace (s : String) : Keyspace := ⟨normalizeNamespace s⟩

def beginning (k : Keyspace) : Bytes := utf8 (k.root ++ "/")

def key (k : Keyspace) (id : ServiceId) : Bytes := utf8 (k.root ++ "/" ++ id.text)

def relative? (k : Keyspace) (key : List Char) : Option (List Char) :=
  match k.root.toList.isPrefixOf? key with
  | some ('/' :: r) => some r
  | _ => none

def idOfSegments? : List (List Char) → Option ServiceId
  | [a, b, c] => some ⟨String.ofList a, String.ofList b, String.ofList c⟩
  | _ => none

/-- The valid id that has this key. -/
def parseKey (k : Keyspace) (key : Bytes) : Option ServiceId := do
  let r ← k.relative? (← text? key).toList
  let id ← idOfSegments? (r.splitOn '/')
  if id.isValid then some id else none

/-- The fields of a remote value. The three fixed ones win over metadata of the same name. -/
def fields (r : Row) (m : Metadata) : Dictionary String String :=
  ((m.insert "hostname" r.hostname).insert "port" (Text.natText r.port.toNat)).insert "ttl"
    (Text.natText r.ttl.toNat)

def encodeValue (r : Row) : Except CodecError Bytes := do
  return utf8 (Json.stringObjectText (fields r (← r.metadata)))

def encode (k : Keyspace) (r : Row) : Except CodecError (Bytes × Bytes) := do
  return (k.key r.id, ← encodeValue r)

/-- A whole number below the bound, as a JSON number or as text between blanks. -/
def naturalBelow? (bound : Nat) : Json.Value → Option Nat
  | .number (.whole n) => if 0 ≤ n ∧ n < bound then some n.toNat else none
  | .string s => Text.natBelow? bound (Text.trimChars s.toList)
  | _ => none

/-- Metadata is text; any other value counts as its JSON text. -/
def metadataText : Json.Value → String
  | .string s => s
  | v => v.text

def decodeValue (id : ServiceId) (value : Bytes) : Option Row := do
  let object := Dictionary.ofList (← Json.parseEntries (← text? value))
  let hostname ← (← object.find? "hostname").string?
  let port ← naturalBelow? UInt16.size (← object.find? "port")
  let ttl ← naturalBelow? UInt32.size (← object.find? "ttl")
  let metadata := (object.filter fun k _ => !reservedKeys.contains k).mapValues metadataText
  return ⟨id, hostname, port.toUInt16, ttl.toUInt32, Json.stringObjectText metadata⟩

/-- The row that a remote key and value stand for. -/
def decode (k : Keyspace) (key value : Bytes) : Option Row := do
  decodeValue (← k.parseKey key) value

end Keyspace

end ServiceDirectory
