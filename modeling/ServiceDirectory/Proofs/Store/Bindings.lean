import ServiceDirectory.Proofs.Store.Bound
import ServiceDirectory.Store.Many

/-! # What keys are bound to

The bindings of a store are the value and the lease of each key. What operations do to them is told
operation by operation (`Performs.bindings`), and puts under a lease that is there take place
(`IsAlive.txn_puts`).
-/

namespace ServiceDirectory

abbrev Bindings := Dictionary Bytes (Bytes × Int)

namespace Bindings

variable (d : Bindings) (lease : Int)

def putAll (puts : List (Bytes × Bytes)) : Bindings :=
  puts.foldl (fun d e => d.insert e.1 (e.2, lease)) d

theorem putAll_append (a b : List (Bytes × Bytes)) :
    d.putAll lease (a ++ b) = (d.putAll lease a).putAll lease b := List.foldl_append

theorem find?_putAll (puts : List (Bytes × Bytes)) (key : Bytes) : (d.putAll lease puts).find? key =
    ((Dictionary.lastFor key puts).map (·, lease)).or (d.find? key) := by
  have h : d.putAll lease puts =
      (puts.map fun e => (e.1, (e.2, lease))).foldl (fun d e => d.insert e.1 e.2) d := by
    rw [List.foldl_map]
    rfl
  rw [h, Dictionary.find?_foldl_insert, Dictionary.lastFor, Dictionary.lastFor, ← List.map_reverse,
    List.find?_map, Option.map_map, Option.map_map]
  rfl

end Bindings

def TxnOp.bind (d : Bindings) : TxnOp → Bindings
  | .get _ => d
  | .put key value lease => d.insert key (value, lease.getD 0)
  | .delete key => d.erase key

theorem TxnOp.foldl_bind_putOps (d : Bindings) (puts : List (Bytes × Bytes)) (lease : Option Int) :
    (putOps puts lease).foldl TxnOp.bind d = d.putAll (lease.getD 0) puts := List.foldl_map

namespace Store

variable {s s' : Store} {now : Nat} {lease : Int} {key : Bytes}

def bindings (s : Store) : Bindings := s.entries.mapValues fun kv => (kv.value, kv.lease)

theorem find?_contents (s : Store) (key : Bytes) :
    s.contents.find? key = (s.bindings.find? key).map (·.1) := by
  rw [contents, bindings, Dictionary.find?_mapValues, Dictionary.find?_mapValues, Option.map_map]
  rfl

theorem binds_iff : s.Binds lease key ↔ ∃ value, s.bindings.find? key = some (value, lease) := by
  rw [bindings, Dictionary.find?_mapValues]
  constructor
  · rintro ⟨kv, hf, rfl⟩
    exact ⟨kv.value, by rw [hf]; rfl⟩
  · rintro ⟨value, hf⟩
    obtain ⟨kv, hkv, heq⟩ := Option.map_eq_some_iff.1 hf
    exact ⟨kv, hkv, (Prod.mk.inj heq).2⟩

/-! ## Leases that are due -/

theorem IsAlive.of_expired (h : s.IsAlive now lease) {later : Nat}
    (hq : (s.touch now).expired later = []) : (s.touch now).IsAlive later lease := by
  obtain ⟨l, hl, -⟩ := h.touch
  exact ⟨l, hl, expired_eq_nil_iff.1 hq lease l hl⟩

theorem find?_contents_touch {value : Bytes} (h : (s.touch now).contents.find? key = some value) :
    s.contents.find? key = some value := by
  rw [contents, Dictionary.find?_mapValues, find?_entries_touch] at h
  obtain ⟨kv, hkv, rfl⟩ := Option.map_eq_some_iff.1 h
  rw [contents, Dictionary.find?_mapValues, (Option.filter_eq_some_iff.1 hkv).1]
  rfl

/-! ## The terms on which a store serves -/

/-- Leases and limits are as before. -/
structure SameTerms (s s' : Store) : Prop where
  leases : s'.leases = s.leases
  available : s'.available = s.available
  putsPaused : s'.putsPaused = s.putsPaused
  maxTxnOps : s'.maxTxnOps = s.maxTxnOps

theorem SameTerms.trans {s'' : Store} (h : s.SameTerms s') (h' : s'.SameTerms s'') :
    s.SameTerms s'' :=
  ⟨h'.leases.trans h.leases, h'.available.trans h.available, h'.putsPaused.trans h.putsPaused,
    h'.maxTxnOps.trans h.maxTxnOps⟩

theorem SameTerms.expired_eq (h : s.SameTerms s') (now : Nat) : s'.expired now = s.expired now := by
  rw [expired, expired, h.leases]

theorem Performs.sameTerms {ops : List TxnOp} (h : s.Performs ops s') : s.SameTerms s' := by
  obtain ⟨_, _, _, _, rfl⟩ := h.exists_eq
  exact ⟨rfl, rfl, rfl, rfl⟩

theorem entries_write (s : Store) (key value : Bytes) (bound : Option Int) :
    (s.write key value bound).entries =
        s.entries.insert key ⟨key, value, s.revision + 1, bound.getD 0⟩ ∧
      (s.write key value bound).leases = s.leases ∧
      (s.write key value bound).broken = s.broken := by
  have hp := s.performs_write key value bound
  refine ⟨hp.entries, ?_⟩
  obtain ⟨_, _, _, _, heq⟩ := hp.exists_eq
  rw [heq]
  exact ⟨rfl, rfl⟩

theorem touch_settings (s : Store) (now : Nat) : (s.touch now).available = s.available ∧
    (s.touch now).putsPaused = s.putsPaused ∧ (s.touch now).maxTxnOps = s.maxTxnOps := by
  obtain ⟨_, _, _, _, _, h⟩ := exists_touch_eq s now
  rw [h]
  exact ⟨rfl, rfl, rfl⟩

/-! ## Puts -/

theorem bindings_enter {revision : Int} (d : Dictionary Bytes KeyValue) (op : TxnOp) :
    (op.enter revision d).mapValues (fun kv => (kv.value, kv.lease)) =
      op.bind (d.mapValues fun kv => (kv.value, kv.lease)) := by
  cases op with
  | get key => rfl
  | put key value lease => exact Dictionary.mapValues_insert ..
  | delete key => exact Dictionary.mapValues_erase ..

theorem Performs.bindings {ops : List TxnOp} (h : s.Performs ops s') :
    s'.bindings = ops.foldl TxnOp.bind s.bindings := by
  rw [Store.bindings, h.entries, TxnOp.mapValues_foldl_enter bindings_enter, Store.bindings]

theorem exists_txn_eq_ok {ops : List TxnOp} (hc : (s.touch now).checkLeases ops = .ok ()) :
    ∃ replies s', s.txn now ops = (.ok replies, s') ∧
      s'.bindings = ops.foldl TxnOp.bind (s.touch now).bindings ∧ (s.touch now).SameTerms s' := by
  have htried : (s.touch now).SameTerms (s.tried now ops) := ⟨rfl, rfl, rfl, rfl⟩
  have hp := (performs_carryOut (s.tried now ops) ops).1
  exact ⟨_, _, txn_of_ok hc, hp.bindings, htried.trans hp.sameTerms⟩

theorem checkLeases_puts {lease : Option Int} (h : s.checkLease lease = .ok ())
    (puts : List (Bytes × Bytes)) :
    s.checkLeases (putOps puts lease) = .ok () := by
  induction puts with
  | nil => rfl
  | cons e puts ih =>
    simp only [putOps, List.map_cons, checkLeases, h]
    exact ih

theorem IsAlive.checkLease (h : s.IsAlive now lease) :
    (s.touch now).checkLease (some lease) = .ok () := by
  obtain ⟨l, hl, -⟩ := h.touch
  simp [Store.checkLease, Dictionary.contains, hl]

theorem IsAlive.txn_puts (h : s.IsAlive now lease) (puts : List (Bytes × Bytes)) :
    ∃ replies s', s.txn now (putOps puts (some lease)) = (.ok replies, s') ∧
      s'.bindings = (s.touch now).bindings.putAll lease puts ∧
      (s.touch now).SameTerms s' := by
  obtain ⟨replies, s', htxn, hb, ht⟩ := exists_txn_eq_ok (checkLeases_puts h.checkLease puts)
  exact ⟨replies, s', htxn, hb.trans (TxnOp.foldl_bind_putOps _ puts _), ht⟩

end Store

/-! ## Batches -/

section

variable {α β : Type}

theorem batchesOf_map (f : α → β) (size fuel : Nat) (l : List α) :
    batchesOf size fuel (l.map f) = (batchesOf size fuel l).map (List.map f) := by
  induction fuel generalizing l with
  | zero => rfl
  | succ fuel ih =>
    cases l with
    | nil => rfl
    | cons x l =>
      have hd : (((x :: l).map f).drop size) = ((x :: l).drop size).map f := List.map_drop.symm
      have ht : (((x :: l).map f).take size) = ((x :: l).take size).map f := List.map_take.symm
      simp only [List.map_cons] at hd ht
      simp only [batchesOf, List.map_cons, hd, ht, ih]

theorem flatten_batchesOf {size fuel : Nat} (hs : 0 < size) {l : List α} (hl : l.length ≤ fuel) :
    (batchesOf size fuel l).flatten = l := by
  induction fuel generalizing l with
  | zero => rw [List.length_eq_zero_iff.1 (Nat.le_zero.1 hl)]; rfl
  | succ fuel ih =>
    cases l with
    | nil => rfl
    | cons x l =>
      have hd : ((x :: l).drop size).length ≤ fuel := by
        rw [List.length_drop]
        simp only [List.length_cons] at hl ⊢
        omega
      rw [batchesOf, List.flatten_cons, ih hd, List.take_append_drop]

theorem exists_batchesOf_eq_cons {size fuel : Nat} (hs : 0 < size) {l : List α} (hne : l ≠ [])
    (hl : l.length ≤ fuel) : ∃ batch rest, batchesOf size fuel l = batch :: rest ∧ batch ≠ [] := by
  cases l with
  | nil => exact absurd rfl hne
  | cons x l =>
    cases fuel with
    | zero => exact absurd hl (Nat.not_succ_le_zero _)
    | succ fuel =>
      refine ⟨_, _, rfl, fun htake => ?_⟩
      rw [List.take_eq_nil_iff] at htake
      simp only [reduceCtorEq, or_false] at htake
      omega

theorem length_le_of_mem_batchesOf {size fuel : Nat} {l batch : List α}
    (h : batch ∈ batchesOf size fuel l) : batch.length ≤ size := by
  induction fuel generalizing l with
  | zero => cases h
  | succ fuel ih =>
    cases l with
    | nil => cases h
    | cons x l =>
      rcases List.mem_cons.1 h with rfl | h
      · exact List.length_take_le _ _
      · exact ih h

end

end ServiceDirectory
