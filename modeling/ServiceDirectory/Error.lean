import ServiceDirectory.Text.Digits

/-! # Errors

Errors are grouped by what failed: the remote store, the row tables, the reading and writing of
services, the configuration, the registry's listener. Each constructor is a cause, and `message` is
its wording. `isUnavailable` tells the errors that are waited out from those that are not.
-/

namespace ServiceDirectory

inductive StatusCode
  | ok | cancelled | unknown | invalidArgument | deadlineExceeded | notFound | alreadyExists
  | permissionDenied | resourceExhausted | failedPrecondition | aborted | outOfRange
  | unimplemented | internal | unavailable | dataLoss | unauthenticated
  deriving DecidableEq

namespace StatusCode

def all : List StatusCode :=
  [ok, cancelled, unknown, invalidArgument, deadlineExceeded, notFound, alreadyExists,
    permissionDenied, resourceExhausted, failedPrecondition, aborted, outOfRange, unimplemented,
    internal, unavailable, dataLoss, unauthenticated]

/-- A number that names no code counts as `unknown`. -/
def ofInt (n : Int) : StatusCode :=
  if n < 0 then unknown else all.getD n.toNat unknown

end StatusCode

inductive StreamKind
  | keepAlive | watch
  | other (name : String)
  deriving DecidableEq

def StreamKind.name : StreamKind → String
  | keepAlive => "lease keep-alive"
  | watch => "watch"
  | other name => name

inductive RemoteError
  | unavailable (reason : String)
  /-- Any other status than unavailability. -/
  | status (code : StatusCode) (text : String)
  | transport
  | invalidEndpoint (text : String)
  | streamClosed (stream : StreamKind)
  | watchCanceled (reason : String) (compactRevision : Int)
  deriving DecidableEq

namespace RemoteError

def message : RemoteError → String
  | unavailable reason => "Remote store unavailable: " ++ reason
  | status _ text => text
  | transport => "transport error"
  | invalidEndpoint text => "Invalid URI format: " ++ text
  | streamClosed stream => stream.name ++ " stream closed by remote store"
  | watchCanceled reason n =>
    "Watch canceled (compact_revision: " ++ Text.intText n ++ "): " ++ reason

/-- The status unavailable is a case of its own. -/
def ofStatus (code : StatusCode) (text : String) : RemoteError :=
  if code = .unavailable then unavailable text else status code text

end RemoteError

inductive StorageError
  | database
  | malformedRow
  | transaction (reason : String)
  deriving DecidableEq

def StorageError.message : StorageError → String
  | database => "database error"
  | malformedRow => "malformed row"
  | transaction reason => "Transaction failed: " ++ reason

inductive Field
  | instanceName | serviceType | serviceName | serviceId | hostname | port | ttl | metadata
  deriving DecidableEq

def Field.name : Field → String
  | instanceName => "instance"
  | serviceType => "service_type"
  | serviceName => "service_name"
  | serviceId => "service_id"
  | hostname => "hostname"
  | port => "port"
  | ttl => "ttl"
  | metadata => "metadata"

inductive FieldFault
  | missing
  | empty
  | containsSeparator (value : String)
  | notPositive
  | tooWide (n : Nat)
  | emptyKey
  | duplicateKey (key : String)
  | unexpected (value : String)
  | other (reason : String)
  deriving DecidableEq

def FieldFault.message : FieldFault → String
  | missing => "missing"
  | empty => "must not be empty"
  | containsSeparator value => "`" ++ value ++ "` must not contain `/`"
  | notPositive => "must be greater than 0"
  | tooWide n => Text.natText n ++ " does not fit in 16 bits"
  | emptyKey => "keys must not be empty"
  | duplicateKey key => "duplicate key `" ++ key ++ "`"
  | unexpected value => "unexpected value " ++ value
  | other reason => reason

inductive CodecError
  | json
  | malformedKey (key : String)
  | invalidField (field : Field) (fault : FieldFault)
  | reservedMetadataKey (key : String)
  deriving DecidableEq

def CodecError.message : CodecError → String
  | json => "malformed JSON"
  | malformedKey key => "Malformed service key: " ++ key
  | invalidField field fault => "Invalid " ++ field.name ++ ": " ++ fault.message
  | reservedMetadataKey key => "Metadata key `" ++ key ++ "` is reserved"

inductive Error
  | remote (e : RemoteError)
  | storage (e : StorageError)
  | codec (e : CodecError)
  | config (reason : String)
  | server (reason : String)
  | fatal (reason : String)
  deriving DecidableEq

namespace Error

def message : Error → String
  | remote e => e.message
  | storage e => e.message
  | codec e => e.message
  | config reason => reason
  | server reason => "Registry server failed: " ++ reason
  | fatal reason => "Fatal error: " ++ reason

/-- The remote store cannot be reached for now: worth waiting for. -/
def isUnavailable : Error → Bool
  | remote (.unavailable _) => true
  | _ => false

def isStreamClosed : Error → Bool
  | remote (.streamClosed _) => true
  | _ => false

def unavailable (reason : String) : Error := .remote (.unavailable reason)

def ofStatus (code : StatusCode) (text : String) : Error := .remote (.ofStatus code text)

def invalidField (field : Field) (fault : FieldFault) : Error := .codec (.invalidField field fault)

end Error

end ServiceDirectory
