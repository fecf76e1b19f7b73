import ServiceDirectory.Proofs.Dictionary
import ServiceDirectory.Store.Request

/-! # Operations and events

A request that may change the store consists of operations on keys, and what it leaves under a key
is decided by its operations on that key. Events tell of a change once more: the values that a store
holds can be replayed from them, and so can the revisions.
-/

namespace ServiceDirectory

abbrev StoredValues := Dictionary Bytes Bytes

abbrev Records := Dictionary Bytes (Bytes × Bytes × Int)

/-! ## Events -/

namespace Event

def apply (d : StoredValues) : Event → StoredValues
  | .put key value _ => d.insert key value
  | .delete key _ => d.erase key

def record (d : Records) : Event → Records
  | .put key value revision => d.insert key (key, value, revision)
  | .delete key _ => d.erase key

theorem mapValues_record (d : Records) (e : Event) :
    (e.record d).mapValues (·.2.1) = e.apply (d.mapValues (·.2.1)) := by
  cases e with
  | put key value revision => exact Dictionary.mapValues_insert ..
  | delete key revision => exact Dictionary.mapValues_erase ..

end Event

def replay (events : List Event) (d : StoredValues) : StoredValues := events.foldl Event.apply d

@[simp] theorem replay_nil (d : StoredValues) : replay [] d = d := rfl

theorem replay_append (a b : List Event) (d : StoredValues) :
    replay (a ++ b) d = replay b (replay a d) := List.foldl_append

def recount (events : List Event) (d : Records) : Records := events.foldl Event.record d

theorem recount_append (a b : List Event) (d : Records) :
    recount (a ++ b) d = recount b (recount a d) := List.foldl_append

theorem recount_deletes (keys : List Bytes) (revision : Int) (d : Records) :
    recount (keys.map (.delete · revision)) d = keys.foldl Dictionary.erase d := List.foldl_map

theorem mapValues_recount (events : List Event) (d : Records) :
    (recount events d).mapValues (·.2.1) = replay events (d.mapValues (·.2.1)) := by
  induction events generalizing d with
  | nil => rfl
  | cons e events ih => exact (ih _).trans (congrArg (replay events) (e.mapValues_record d))

theorem find?_recount_keyed {events : List Event} {d : Records}
    (h : ∀ key r, d.find? key = some r → r.1 = key) {key : Bytes} {r : Bytes × Bytes × Int}
    (hf : (recount events d).find? key = some r) : r.1 = key := by
  induction events generalizing d with
  | nil => exact h key r hf
  | cons e events ih =>
    refine ih (fun key r hf => ?_) hf
    cases e with
    | put key' value revision =>
      rw [Event.record, Dictionary.find?_insert] at hf
      split at hf
      · next hk => rw [hk, ← Option.some.inj hf]
      · exact h key r hf
    | delete key' revision =>
      rw [Event.record, Dictionary.find?_erase] at hf
      split at hf
      · cases hf
      · exact h key r hf

/-! ## Operations -/

namespace TxnOp

def key : TxnOp → Bytes
  | get key | put key _ _ | delete key => key

/-- The operation may change what is under the key. -/
def Writes (key : Bytes) : TxnOp → Prop
  | get _ => False
  | put k _ _ | delete k => k = key

theorem not_writes_of_key_ne {op : TxnOp} {key : Bytes} (h : op.key ≠ key) : ¬ op.Writes key := by
  cases op with
  | get k => exact id
  | put k value lease => exact h
  | delete k => exact h

def apply (d : StoredValues) : TxnOp → StoredValues
  | get _ => d
  | put key value _ => d.insert key value
  | delete key => d.erase key

theorem find?_foldl_apply_of_ne (ops : List TxnOp) (d : StoredValues) {key : Bytes}
    (h : ∀ op ∈ ops, op.key ≠ key) : (ops.foldl apply d).find? key = d.find? key := by
  induction ops generalizing d with
  | nil => rfl
  | cons op ops ih =>
    rw [List.foldl_cons, ih _ fun op hop => h op (.tail _ hop)]
    have hne := (h op (.head _)).symm
    cases op with
    | get _ => rfl
    | put _ value lease => exact (Dictionary.find?_insert _ _ _ _).trans (if_neg hne)
    | delete _ => exact (Dictionary.find?_erase _ _ _).trans (if_neg hne)

/-- Operations that all leave the same under a key leave that, if there is one. -/
theorem find?_foldl_apply (ops : List TxnOp) (d : StoredValues) {key : Bytes} {left : Option Bytes}
    (h : ∀ op ∈ ops, op.key = key → ∀ d : StoredValues, (apply d op).find? key = left)
    (hex : ∃ op ∈ ops, op.key = key) : (ops.foldl apply d).find? key = left := by
  induction ops generalizing d with
  | nil => simp at hex
  | cons op ops ih =>
    rw [List.foldl_cons]
    by_cases hmore : ∃ op ∈ ops, op.key = key
    · exact ih _ (fun op hop => h op (.tail _ hop)) hmore
    · have hop : op.key = key := by simpa [hmore] using hex
      rw [find?_foldl_apply_of_ne ops _ fun op hop hk => hmore ⟨op, hop, hk⟩]
      exact h op (.head _) hop d

def enter (revision : Int) (d : Dictionary Bytes KeyValue) :
    TxnOp → Dictionary Bytes KeyValue
  | get _ => d
  | put key value lease => d.insert key ⟨key, value, revision, lease.getD 0⟩
  | delete key => d.erase key

variable {revision : Int} {d : Dictionary Bytes KeyValue} {ops : List TxnOp} {key : Bytes}

theorem mapValues_foldl_enter {β : Type} {f : KeyValue → β}
    {g : Dictionary Bytes β → TxnOp → Dictionary Bytes β}
    (h : ∀ d op, (op.enter revision d).mapValues f = g (d.mapValues f) op) (ops : List TxnOp)
    (d : Dictionary Bytes KeyValue) :
    (ops.foldl (enter revision) d).mapValues f = ops.foldl g (d.mapValues f) := by
  induction ops generalizing d with
  | nil => rfl
  | cons op ops ih => exact (ih _).trans (congrArg (ops.foldl g) (h d op))

theorem values_enter (d : Dictionary Bytes KeyValue) (op : TxnOp) :
    (op.enter revision d).mapValues (·.value) = op.apply (d.mapValues (·.value)) := by
  cases op with
  | get key => rfl
  | put key value lease => exact Dictionary.mapValues_insert ..
  | delete key => exact Dictionary.mapValues_erase ..

theorem find?_foldl_enter (h : ∀ op ∈ ops, ¬ op.Writes key) :
    (ops.foldl (enter revision) d).find? key = d.find? key := by
  induction ops generalizing d with
  | nil => rfl
  | cons op ops ih =>
    rw [List.foldl_cons, ih fun op hop => h op (.tail _ hop)]
    have hne := h op (.head _)
    cases op with
    | get _ => rfl
    | put _ value lease => exact (Dictionary.find?_insert ..).trans (if_neg (Ne.symm hne))
    | delete _ => exact (Dictionary.find?_erase ..).trans (if_neg (Ne.symm hne))

theorem put_mem_of_find?_foldl_enter {kv : KeyValue}
    (h : (ops.foldl (enter revision) d).find? key = some kv) : d.find? key = some kv ∨
      ∃ value lease, .put key value lease ∈ ops ∧ kv.lease = lease.getD 0 := by
  induction ops generalizing d with
  | nil => exact .inl h
  | cons op ops ih =>
    rcases ih h with hf | ⟨value, lease, hop, hl⟩
    · cases op with
      | get key' => exact .inl hf
      | put key' value lease =>
        rw [enter, Dictionary.find?_insert] at hf
        split at hf
        · next hk =>
          cases hf
          exact .inr ⟨value, lease, hk ▸ .head _, rfl⟩
        · exact .inl hf
      | delete key' =>
        rw [enter, Dictionary.find?_erase] at hf
        split at hf
        · cases hf
        · exact .inl hf
    · exact .inr ⟨value, lease, .tail _ hop, hl⟩

/-- The operation takes effect: it is a put, or it deletes a key that is there. In a transaction
it is enough to look at the keys before it, as they stay the same up to the first operation that
takes effect. -/
def Changes (s : Store) : TxnOp → Prop
  | get _ => False
  | put _ _ _ => True
  | delete key => s.entries.contains key = true

end TxnOp

/-! ## Requests -/

namespace Request

/-- The operations of which a request consists, if it may change the store. -/
def operations : Request → List TxnOp
  | put key value lease => [.put key value lease]
  | delete key => [.delete key]
  | txn ops => ops
  | _ => []

def succeeds : (q : Request) → q.Answer → Bool
  | put _ _ _, a => Except.toBool (ε := Error) (α := Unit) a
  | delete _, a => Except.toBool (ε := Error) (α := Unit) a
  | txn _, a => Except.toBool (ε := Error) (α := List TxnReply) a
  | _, _ => true

theorem succeeds_of_refused? {e : Error} {q : Request} {a : q.Answer} (h : q.refused? e = some a)
    (hq : q.operations ≠ []) : q.succeeds a = false := by
  cases q <;> first | exact absurd rfl hq | (cases h; rfl)

def stream? : Request → Option Nat
  | sendKeepAlive stream _ => some stream
  | nextRenewal stream => some stream
  | _ => none

def feed? : Request → Option Nat
  | nextBatch feed => some feed
  | closeWatch feed => some feed
  | _ => none

end Request

end ServiceDirectory
