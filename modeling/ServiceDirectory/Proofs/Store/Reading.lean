import ServiceDirectory.Proofs.Store.Bindings

/-! # Reading many keys

Transactions that only read leave a store as it is, but for the record of their sizes, and answer
with what is there. What is found batch by batch is the values of all keys that were read
(`IsRead.add`); of the keys of a lease it is what the lease holds (`IsRead.eq_boundTo`).
-/

namespace ServiceDirectory.Store

variable {s : Store} {now : Nat} {lease : Int} {keys batch : List Bytes} {found : Found}

def boundTo (s : Store) (lease : Int) : StoredValues :=
  (s.entries.filter fun _ kv => kv.lease == lease).mapValues (·.value)

def IsRead (s : Store) (keys : List Bytes) (found : Found) : Prop :=
  ∀ key, found.find? key = if key ∈ keys then s.value? key else none

def gotAll (s : Store) (keys : List Bytes) : List TxnReply :=
  keys.map fun key => .got (s.entries.find? key)

theorem applyOps_gets (revision : Int) (st : Store × List Event) (keys : List Bytes) :
    applyOps revision st (getOps keys) = (st, st.1.gotAll keys) := by
  induction keys with
  | nil => rfl
  | cons key keys ih =>
    have happly : applyOps revision st (getOps (key :: keys)) =
        ((applyOps revision st (getOps keys)).1,
          .got (st.1.entries.find? key) :: (applyOps revision st (getOps keys)).2) := rfl
    rw [happly, ih]
    rfl

theorem checkLeases_gets (s : Store) (keys : List Bytes) :
    s.checkLeases (getOps keys) = .ok () := by
  induction keys with
  | nil => rfl
  | cons key keys ih => exact ih

theorem txn_gets (h : s.expired now = []) (keys : List Bytes) : s.txn now (getOps keys) =
    (.ok (s.gotAll keys), { s with txnSizes := s.txnSizes ++ [keys.length] }) := by
  have hlen : (getOps keys).length = keys.length := List.length_map _
  simp only [txn, touch_eq_self h, checkLeases_gets, applyOps_gets, hlen]
  rfl

theorem ask?_gets (ha : s.available = true) (hp : s.putsPaused = false) (h : s.expired now = [])
    (hlen : keys.length ≤ s.maxTxnOps) : s.ask? now (.txn (getOps keys)) =
      some (.ok (s.gotAll keys), { s with txnSizes := s.txnSizes ++ [keys.length] }) := by
  have hserve : s.serve now (.txn (getOps keys)) = some (s.txn now (getOps keys)) := by
    simp only [serve, hp, Bool.and_false, Bool.false_eq_true, ↓reduceIte]
    rfl
  rw [ask?_eq_serve ha fun ops hops => ?_]
  · exact hserve.trans (congrArg some (txn_gets h keys))
  · cases hops
    rwa [getOps, List.length_map]

theorem isRead_nil (s : Store) : s.IsRead [] Dictionary.empty := by
  intro key
  simp

theorem find?_addFound (hk : s.IsKeyed) (batch : List Bytes) (found : Found) (key : Bytes) :
    (addFound found (s.gotAll batch)).find? key =
      if key ∈ batch then (s.value? key).or (found.find? key) else found.find? key := by
  induction batch generalizing found with
  | nil => rfl
  | cons k batch ih =>
    have hstep : addFound found (s.gotAll (k :: batch)) =
        addFound (addFound found [.got (s.entries.find? k)]) (s.gotAll batch) := rfl
    rw [hstep, ih]
    cases hf : s.entries.find? k with
    | none =>
      have hone : addFound found [.got none] = found := rfl
      rw [hone]
      by_cases hkey : key = k
      · subst hkey
        simp [value?, hf]
      · simp [hkey]
    | some kv =>
      have hone : addFound found [.got (some kv)] = found.insert kv.key kv.value := rfl
      rw [hone, hk k kv hf, Dictionary.find?_insert]
      by_cases hkey : key = k
      · subst hkey
        simp [value?, hf]
      · simp [hkey]

theorem IsRead.add (h : s.IsRead keys found) (hk : s.IsKeyed) (batch : List Bytes) :
    s.IsRead (keys ++ batch) (addFound found (s.gotAll batch)) := by
  intro key
  rw [find?_addFound hk, h key]
  by_cases hb : key ∈ batch <;> by_cases hkeys : key ∈ keys <;> simp [hb, hkeys]

theorem IsRead.eq_boundTo
    (h : s.IsRead (s.entries.filter fun _ kv => kv.lease == lease).keys found) :
    found = s.boundTo lease := by
  apply Dictionary.ext_find?
  intro key
  rw [h key, boundTo, Dictionary.find?_mapValues, Dictionary.find?_filter]
  by_cases hb : s.Binds lease key
  · obtain ⟨kv, hkv, rfl⟩ := hb
    rw [if_pos (mem_boundKeys_iff.2 ⟨kv, hkv, rfl⟩)]
    simp [value?, hkv]
  · rw [if_neg fun hm => hb (mem_boundKeys_iff.1 hm)]
    cases hf : s.entries.find? key with
    | none => rfl
    | some kv =>
      have hne : kv.lease ≠ lease := fun heq => hb ⟨kv, hf, heq⟩
      simp [hne]

end ServiceDirectory.Store
