import ServiceDirectory.Config
import ServiceDirectory.Config.Setting

/-! # Configurations from settings

Each section is a table, or a list that holds its fields in their order; a field that is not there
has its standard value, and unknown ones do not matter. How a leaf is read is up to the `Reading`:
the strict one takes each leaf for what it is, the lenient one converts.
-/

namespace ServiceDirectory

structure Reading where
  whole : (least greatest : Int) → Setting → Option Int
  flag : Setting → Option Bool
  text : Setting → Option String
  /-- A list may be longer than its section has fields. -/
  longLists : Bool

namespace Reading

def within (least greatest n : Int) : Option Int :=
  if least ≤ n ∧ n ≤ greatest then some n else none

def strict : Reading where
  whole least greatest
    | .whole n => within least greatest n
    | _ => none
  flag
    | .flag b => some b
    | _ => none
  text
    | .text s => some s
    | _ => none
  longLists := false

def answer? (s : String) : Option Bool :=
  let s := s.toLower
  if ["true", "on", "yes"].contains s then some true
  else if ["false", "off", "no"].contains s then some false
  else none

/-- The bounds of the 64-bit type that a number is converted to on its way: signed if it may be
negative. -/
def wide (least : Int) : Int × Int :=
  if least < 0 then (Int64.minValue.toInt, Int64.maxValue.toInt)
  else (0, UInt64.size - 1)

/-- A fraction goes to the nearest whole number of 64 bits, a word for yes is one, and a text may
hold a number. -/
def wholeLeniently (least greatest : Int) (v : Setting) : Option Int :=
  let bounds := wide least
  let n := match v with
    | .whole n => some n
    | .real x => some (x.toInt bounds.1 bounds.2)
    | .flag b => some b.toInt
    | .text s => match answer? s with
      | some b => some b.toInt
      | none =>
        if least < 0 then Text.intOfChars? s.toList else (Text.natOfChars? s.toList).map Int.ofNat
    | _ => none
  n.bind (within least greatest)

def flagLeniently : Setting → Option Bool
  | .flag b => some b
  | .whole n => some (n != 0)
  | .real x => some !x.isZero
  | .text s => if s = "1" then some true else if s = "0" then some false else answer? s
  | _ => none

/-- Numbers are written out in full, without an exponent; a tie goes up. -/
def plainLayout : Decimal.Layout := ⟨-400, 400, false, .up⟩

def textLeniently : Setting → Option String
  | .text s => some s
  | .flag b => some (if b then "true" else "false")
  | .whole n => some (Text.intText n)
  | .real x => some (plainLayout.text x)
  | _ => none

def lenient : Reading where
  whole := wholeLeniently
  flag := flagLeniently
  text := textLeniently
  longLists := true

/-! ## Fields -/

variable (r : Reading)

def fields? (names : List String) : Setting → Option (List (Option Setting))
  | .table entries => some (names.map fun k => Setting.settingAt? k entries)
  | .list items =>
    if names.length < items.length && !r.longLists then none
    else some (names.mapIdx fun i _ => items[i]?)
  | _ => none

section

variable {α : Type}

def field (read : Setting → Option α) (standard : α) : Option Setting → Option α
  | none => some standard
  | some v => read v

end

def natural (size : Nat) (v : Setting) : Option Nat := (r.whole 0 (size - 1) v).map Int.toNat

def uint64 (v : Setting) : Option UInt64 := (r.natural UInt64.size v).map Nat.toUInt64

def uint16 (v : Setting) : Option UInt16 := (r.natural UInt16.size v).map Nat.toUInt16

def int64 (v : Setting) : Option Int64 :=
  (r.whole Int64.minValue.toInt Int64.maxValue.toInt v).map Int64.ofInt

def optionalText : Setting → Option (Option String)
  | .unset => some none
  | v => (r.text v).map some

/-! ## Sections -/

def server (v : Setting) : Option ServerConfig := do
  let d := ServerConfig.standard
  match ← r.fields? ["bind_address", "shutdown_grace_ms", "enable_compression"] v with
  | [address, grace, compression] =>
    return ⟨← field r.text d.bindAddress address, ← field r.uint64 d.shutdownGraceMs grace,
      ← field r.flag d.enableCompression compression⟩
  | _ => none

def backoff (v : Setting) : Option Backoff := do
  let d := Backoff.standard
  match ← r.fields? ["base_delay_ms", "max_delay_ms"] v with
  | [base, max] => return ⟨← field r.uint64 d.baseMs base, ← field r.uint64 d.maxMs max⟩
  | _ => none

def remote (v : Setting) : Option RemoteConfig := do
  let d := RemoteConfig.standard
  match ← r.fields? ["host", "port", "connect_timeout_ms", "request_timeout_ms", "max_txn_ops",
    "reconnect"] v with
  | [host, port, connectTimeout, requestTimeout, maxTxnOps, reconnect] =>
    return ⟨← field r.text d.host host, ← field r.uint16 d.port port,
      ← field r.uint64 d.connectTimeoutMs connectTimeout,
      ← field r.uint64 d.requestTimeoutMs requestTimeout, ← field r.uint64 d.maxTxnOps maxTxnOps,
      ← field r.backoff d.reconnect reconnect⟩
  | _ => none

def lease (v : Setting) : Option LeaseConfig := do
  let d := LeaseConfig.standard
  match ← r.fields? ["ttl_secs", "keep_alive_interval_secs", "namespace"] v with
  | [ttl, interval, root] =>
    return ⟨← field r.int64 d.ttlSecs ttl, ← field r.uint64 d.keepAliveIntervalSecs interval,
      ← field r.text d.keyRoot root⟩
  | _ => none

def discovery (nodeName : String) (v : Setting) : Option DiscoveryConfig := do
  let d := DiscoveryConfig.standard nodeName
  match ← r.fields? ["namespace", "node_service_name", "sync_interval_secs"] v with
  | [root, name, interval] =>
    return ⟨← field r.text d.keyRoot root, ← field r.text d.nodeName name,
      ← field r.uint64 d.syncIntervalSecs interval⟩
  | _ => none

def storage (v : Setting) : Option StorageConfig := do
  match ← r.fields? ["db_path"] v with
  | [path] => return ⟨← field r.optionalText none path⟩
  | _ => none

/-- The configuration that settings stand for. The node has the given name if it is given none
there. -/
def config (nodeName : String) (v : Setting) : Option Config := do
  match ← r.fields? ["server", "remote", "lease", "discovery", "storage"] v with
  | [server, remote, lease, discovery, storage] =>
    return ⟨← field r.server .standard server, ← field r.remote .standard remote,
      ← field r.lease .standard lease,
      ← field (r.discovery nodeName) (.standard nodeName) discovery,
      ← field r.storage .standard storage⟩
  | _ => none

end Reading

def Config.ofJson (nodeName : String) (v : Json.Value) : Option Config :=
  Reading.strict.config nodeName (.ofJson v)

end ServiceDirectory
