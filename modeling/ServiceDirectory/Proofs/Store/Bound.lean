import ServiceDirectory.Proofs.Store.Log

/-! # Keys bound to a lease

While a lease lasts, the keys bound to it are changed by writes of these keys alone: what has to go
goes with other leases, and reading or renewing moves nothing.
-/

namespace ServiceDirectory

namespace Store

variable {s s' : Store} {now : Nat} {lease : Int} {key : Bytes} {q : Request} {a : q.Answer}

def IsAlive (s : Store) (now : Nat) (lease : Int) : Prop :=
  ∃ l, s.leases.find? lease = some l ∧ now < l.expiresAt

instance (s : Store) (lease : Int) (key : Bytes) : Decidable (s.Binds lease key) :=
  decidable_of_iff ((s.entries.find? key).any fun kv => kv.lease = lease) (by
    simp [Binds, Option.any_eq_true])

instance (s : Store) (now : Nat) (lease : Int) : Decidable (s.IsAlive now lease) :=
  decidable_of_iff ((s.leases.find? lease).any fun l => now < l.expiresAt) (by
    simp [IsAlive, Option.any_eq_true])

theorem binds_congr (h : s'.entries.find? key = s.entries.find? key) :
    s'.Binds lease key ↔ s.Binds lease key := by rw [Binds, Binds, h]

theorem IsAlive.touch (h : s.IsAlive now lease) : (s.touch now).IsAlive now lease := by
  obtain ⟨l, hl, hlt⟩ := h
  exact ⟨l, by simp [find?_leases_touch, hl, hlt], hlt⟩

theorem IsAlive.touch_binds (h : s.IsAlive now lease) (key : Bytes) :
    (s.touch now).Binds lease key ↔ s.Binds lease key := by
  have hlease : lease ∉ s.expired now := fun hm => by
    obtain ⟨l, hl, hlt⟩ := h
    obtain ⟨l', hl', hle⟩ := mem_expired_iff.1 hm
    cases hl.symm.trans hl'
    omega
  simp only [Binds, find?_entries_touch, Option.filter_eq_some_iff, decide_eq_true_eq]
  constructor
  · rintro ⟨kv, ⟨hf, -⟩, hl⟩
    exact ⟨kv, hf, hl⟩
  · rintro ⟨kv, hf, rfl⟩
    exact ⟨kv, ⟨hf, hlease⟩, rfl⟩

/-! ## Requests -/

/-- The key is left as it is, or as it is once the leases that are due are dropped. -/
def Leaves (now : Nat) (key : Bytes) (s s' : Store) : Prop :=
  s'.entries.find? key = s.entries.find? key ∨
    s'.entries.find? key = (s.touch now).entries.find? key

theorem keys_notMem_subjects (q : Request) (s : Store) : .keys ∉ q.subjects s := by
  simp [Request.subjects]

theorem Rests.leaves {xs : List Subject} (h : Rests now xs s s') (hx : .keys ∉ xs) (key : Bytes) :
    s.Leaves now key s' :=
  h.imp (fun h => by rw [(h.kept hx).entries]) fun h => by rw [(h.kept hx).entries]

/-- A request leaves alone the keys that no operation of it writes. -/
theorem leaves_serve (hs : s.serve now q = some (a, s'))
    (hne : ∀ op ∈ q.operations, ¬ op.Writes key) : s.Leaves now key s' := by
  cases served_of_serve hs with
  | rests _ h => exact h.leaves (keys_notMem_subjects q s) key
  | refused _ h => exact Rests.leaves (.inr h) (by simp) key
  | done _ _ h hp =>
    refine .inr ?_
    rw [hp.entries, TxnOp.find?_foldl_enter hne, (h.kept (by simp)).entries]

theorem leaves_serve_of_fails (hs : s.serve now q = some (a, s')) (hf : q.succeeds a = false)
    (key : Bytes) : s.Leaves now key s' := by
  cases served_of_serve hs with
  | rests _ h => exact h.leaves (keys_notMem_subjects q s) key
  | refused _ h => exact Rests.leaves (.inr h) (by simp) key
  | done hok => exact absurd hok (by simp [hf])

theorem IsAlive.binds_of_leaves (h : s.IsAlive now lease) (hl : s.Leaves now key s') :
    s'.Binds lease key ↔ s.Binds lease key := by
  rcases hl with hl | hl
  · exact binds_congr hl
  · exact (binds_congr hl).trans (h.touch_binds key)

theorem contents_of_succeeds (hs : s.serve now q = some (a, s')) (hok : q.succeeds a = true)
    (hq : q.operations ≠ []) :
    s'.contents = q.operations.foldl TxnOp.apply (s.touch now).contents := by
  cases served_of_serve hs with
  | rests hnil => exact absurd hnil hq
  | refused hf => exact absurd hok (by simp [hf])
  | done _ _ h hp =>
    rw [contents, hp.entries, TxnOp.mapValues_foldl_enter TxnOp.values_enter,
      (h.kept (by simp)).entries, contents]

/-! ## Requests that may be refused -/

theorem ask?_cases (h : s.ask? now q = some (a, s')) :
    s.serve now q = some (a, s') ∨ s' = s ∧ ∃ e, q.refused? e = some a := by
  unfold ask? at h
  split at h
  · next e _ =>
    obtain ⟨a', ha, he⟩ := Option.map_eq_some_iff.1 h
    cases he
    exact .inr ⟨rfl, e, ha⟩
  · exact .inl h

theorem ask?_eq_serve (h : s.available = true)
    (hq : ∀ ops, q = .txn ops → ops.length ≤ s.maxTxnOps) : s.ask? now q = s.serve now q := by
  cases q with
  | txn ops => simp [ask?, accept, h, (hq ops rfl).not_gt]
  | _ => simp [ask?, accept, h]

theorem ask?_of_offline (h : s.available = false) (hq : q.isCall = true) :
    s.ask? now q = (q.refused? offline).map fun a => (a, s) := by
  simp [ask?, accept, h, hq]

theorem IsAlive.ask?_binds (h : s.IsAlive now lease) (hs : s.ask? now q = some (a, s'))
    (hne : ∀ op ∈ q.operations, op.key ≠ key) : s'.Binds lease key ↔ s.Binds lease key := by
  rcases ask?_cases hs with hs | ⟨rfl, -⟩
  · exact h.binds_of_leaves (leaves_serve hs fun op hop => TxnOp.not_writes_of_key_ne (hne op hop))
  · rfl

theorem IsAlive.ask?_binds_of_fails (h : s.IsAlive now lease) (hs : s.ask? now q = some (a, s'))
    (hf : q.succeeds a = false) (key : Bytes) : s'.Binds lease key ↔ s.Binds lease key := by
  rcases ask?_cases hs with hs | ⟨rfl, -⟩
  · exact h.binds_of_leaves (leaves_serve_of_fails hs hf key)
  · rfl

theorem contents_of_ask? (hs : s.ask? now q = some (a, s')) (hok : q.succeeds a = true)
    (hq : q.operations ≠ []) :
    s'.contents = q.operations.foldl TxnOp.apply (s.touch now).contents := by
  rcases ask?_cases hs with hs | ⟨rfl, e, he⟩
  · exact contents_of_succeeds hs hok hq
  · rw [Request.succeeds_of_refused? he hq] at hok
    cases hok

theorem IsAlive.setAvailable_binds (h : s.IsAlive now lease) (up : Bool) (key : Bytes) :
    (s.setAvailable now up).Binds lease key ↔ s.Binds lease key :=
  h.binds_of_leaves ((rests_setAvailable s now up).leaves (by simp) key)

theorem Binds.find?_contents_ne (h : s.Binds lease key) : s.contents.find? key ≠ none := by
  obtain ⟨kv, hf, -⟩ := h
  rw [contents, Dictionary.find?_mapValues, hf]
  exact Option.some_ne_none _

end Store

end ServiceDirectory
