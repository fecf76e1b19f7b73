import ServiceDirectory.Dictionary
import ServiceDirectory.Store.Batch
import ServiceDirectory.Store.Event

/-! # Reading and writing many keys

Many keys are read or written by transactions that are made one after the other, each of a limited
size. The first one that fails ends the whole; those before it stay in effect.
-/

namespace ServiceDirectory

def getOps (keys : List Bytes) : List TxnOp := keys.map .get

def putOps (kvs : List (Bytes × Bytes)) (lease : Option Int) : List TxnOp :=
  kvs.map fun e => .put e.1 e.2 lease

abbrev Found := Dictionary Bytes Bytes

def addFound (found : Found) (replies : List TxnReply) : Found :=
  replies.foldl (fun found r => match r with
    | .got (some kv) => found.insert kv.key kv.value
    | _ => found) found

section

variable {σ : Type} (txn : σ → List TxnOp → Except Error (List TxnReply) × σ)

def readBatches : List (List TxnOp) → Found → σ → Except Error Found × σ
  | [], found, s => (.ok found, s)
  | ops :: r, found, s => match txn s ops with
    | (.ok replies, s) => readBatches r (addFound found replies) s
    | (.error e, s) => (.error e, s)

def writeBatches : List (List TxnOp) → σ → Except Error Unit × σ
  | [], s => (.ok (), s)
  | ops :: r, s => match txn s ops with
    | (.ok _, s) => writeBatches r s
    | (.error e, s) => (.error e, s)

/-- The values of the keys that are there, by transactions of at most `max` operations. -/
def getMany (max : Nat) (keys : List Bytes) (s : σ) : Except Error Found × σ :=
  readBatches txn (batched (getOps keys) max) Dictionary.empty s

/-- Writes the values under a lease, by transactions of at most `max` operations. -/
def putMany (max : Nat) (kvs : List (Bytes × Bytes)) (lease : Option Int) (s : σ) :
    Except Error Unit × σ :=
  writeBatches txn (batched (putOps kvs lease) max) s

end

end ServiceDirectory
