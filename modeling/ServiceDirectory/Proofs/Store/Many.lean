import ServiceDirectory.Proofs.Store.Reading

/-! # Writing and reading many keys

Transactions that take place as a whole or not at all are made one after the other, each of at most
so many operations. Up to the first one that fails the pairs are written as if one by one, and
nothing of that one and those behind it is (`putMany_writes`). Reading many keys of a store that
stays as it is finds the values of all of them (`getMany_reads`). Transactions on a store are of
that kind (`Store.isAtomic_transact`, `Store.readsAs_transact`), and single puts come to the same
(`Store.bindings_putEach`).
-/

namespace ServiceDirectory

section

variable {σ : Type} {txn : σ → List TxnOp → Except Error (List TxnReply) × σ} {view : σ → Bindings}
  {max : Nat} {kvs : List (Bytes × Bytes)} {lease : Option Int} {s s' : σ}

/-- A transaction changes what keys are bound to by all its operations, or fails and changes
nothing. It may fail at any time. -/
structure IsAtomic (txn : σ → List TxnOp → Except Error (List TxnReply) × σ)
    (view : σ → Bindings) : Prop where
  ok : ∀ s ops replies s', txn s ops = (.ok replies, s') → view s' = ops.foldl TxnOp.bind (view s)
  error : ∀ s ops e s', txn s ops = (.error e, s') → view s' = view s

def recorded (txn : σ → List TxnOp → Except Error (List TxnReply) × σ)
    (st : σ × List (List TxnOp)) (ops : List TxnOp) :
    Except Error (List TxnReply) × σ × List (List TxnOp) :=
  ((txn st.1 ops).1, (txn st.1 ops).2, st.2 ++ [ops])

theorem ne_nil_of_mem_batchesOf {α : Type} {size fuel : Nat} (hs : 0 < size) {l batch : List α}
    (h : batch ∈ batchesOf size fuel l) : batch ≠ [] := by
  induction fuel generalizing l with
  | zero => cases h
  | succ fuel ih =>
    cases l with
    | nil => cases h
    | cons x l =>
      rcases List.mem_cons.1 h with rfl | h
      · exact fun hnil => by simp [Nat.ne_of_gt hs] at hnil
      · exact ih h

/-! ## Writing -/

/-- Batches are written up to the first transaction that fails. -/
theorem exists_writeBatches (h : IsAtomic txn view) (lease : Option Int)
    (batches : List (List (Bytes × Bytes))) (s : σ) (sent : List (List TxnOp)) :
    ∃ result s' count,
      writeBatches (recorded txn) (batches.map (putOps · lease)) (s, sent) =
        (result, s', sent ++ (batches.take count).map (putOps · lease)) ∧
      writeBatches txn (batches.map (putOps · lease)) s = (result, s') ∧
      (result = .ok () → batches.length ≤ count ∧
        view s' = (view s).putAll (lease.getD 0) batches.flatten) ∧
      ∀ e, result = .error e → ∃ written, count = written + 1 ∧ written < batches.length ∧
        view s' = (view s).putAll (lease.getD 0) (batches.take written).flatten := by
  induction batches generalizing s sent with
  | nil => exact ⟨.ok (), s, 0, by simp [writeBatches], rfl, fun _ => ⟨le_rfl, rfl⟩, nofun⟩
  | cons batch batches ih =>
    cases htxn : txn s (putOps batch lease) with
    | mk reply s₁ =>
      have hrecord : recorded txn (s, sent) (putOps batch lease) =
          (reply, s₁, sent ++ [putOps batch lease]) := by rw [recorded, htxn]
      cases reply with
      | error e =>
        refine ⟨.error e, s₁, 1, ?_, ?_, nofun, fun _ _ => ⟨0, rfl, Nat.succ_pos _, ?_⟩⟩
        · simp [writeBatches, hrecord]
        · simp [writeBatches, htxn]
        · exact h.error _ _ _ _ htxn
      | ok replies =>
        obtain ⟨result, s', count, hsent, hwrite, hok, herror⟩ :=
          ih s₁ (sent ++ [putOps batch lease])
        have hview : view s₁ = (view s).putAll (lease.getD 0) batch :=
          (h.ok _ _ _ _ htxn).trans (TxnOp.foldl_bind_putOps _ _ _)
        refine ⟨result, s', count + 1, ?_, ?_, fun hr => ?_, fun e he => ?_⟩
        · simp [writeBatches, hrecord, hsent]
        · simp [writeBatches, htxn, hwrite]
        · obtain ⟨hcount, hs'⟩ := hok hr
          refine ⟨Nat.succ_le_succ hcount, ?_⟩
          rw [hs', hview, List.flatten_cons, Bindings.putAll_append]
        · obtain ⟨written, rfl, hlt, hs'⟩ := herror e he
          refine ⟨written + 1, rfl, Nat.succ_lt_succ hlt, ?_⟩
          rw [hs', hview, List.take_succ_cons, List.flatten_cons, Bindings.putAll_append]

/-- The transactions that a write of many pairs sends, and what it leaves. -/
structure WritesMany (view : σ → Bindings) (max : Nat) (kvs : List (Bytes × Bytes))
    (lease : Option Int) (s : σ) (result : Except Error Unit) (s' : σ)
    (sent : List (List TxnOp)) : Prop where
  fits : ∀ ops ∈ sent, ops ≠ [] ∧ ops.length ≤ max
  inOrder : sent.flatten <+: putOps kvs lease
  ok : result = .ok () → sent.flatten = putOps kvs lease ∧
    view s' = (view s).putAll (lease.getD 0) kvs
  error : ∀ e, result = .error e → ∃ before failing written rest, sent = before ++ [failing] ∧
    kvs = written ++ rest ∧ before.flatten = putOps written lease ∧
    view s' = (view s).putAll (lease.getD 0) written

theorem flatten_map_putOps (batches : List (List (Bytes × Bytes))) (lease : Option Int) :
    (batches.map (putOps · lease)).flatten = putOps batches.flatten lease := by
  rw [putOps, List.map_flatten]
  rfl

theorem batched_putOps (max : Nat) (kvs : List (Bytes × Bytes)) (lease : Option Int) :
    batched (putOps kvs lease) max =
      (batchesOf (Nat.max max 1) kvs.length kvs).map (putOps · lease) := by
  have hlen : (putOps kvs lease).length = kvs.length := List.length_map _
  rw [batched, hlen, putOps, batchesOf_map]
  rfl

theorem putMany_writes (h : IsAtomic txn view) (hmax : 1 ≤ max) (kvs : List (Bytes × Bytes))
    (lease : Option Int) (s : σ) : ∃ result s' sent,
      putMany txn max kvs lease s = (result, s') ∧
      putMany (recorded txn) max kvs lease (s, []) = (result, s', sent) ∧
      WritesMany view max kvs lease s result s' sent := by
  have hsize : Nat.max max 1 = max := Nat.max_eq_left hmax
  have hflat := flatten_batchesOf (l := kvs) hmax le_rfl
  simp only [putMany, batched_putOps, hsize]
  generalize hbatches : batchesOf max kvs.length kvs = batches at hflat
  obtain ⟨result, s', count, hsent, hwrite, hok, herror⟩ :=
    exists_writeBatches h lease batches s []
  refine ⟨result, s', _, hwrite, hsent, ⟨fun ops hops => ?_, ?_, fun hr => ?_, fun e he => ?_⟩⟩
  · obtain ⟨batch, hbatch, rfl⟩ := List.mem_map.1 hops
    have hmem : batch ∈ batchesOf max kvs.length kvs := hbatches ▸ List.mem_of_mem_take hbatch
    constructor
    · exact fun hnil => ne_nil_of_mem_batchesOf hmax hmem (List.map_eq_nil_iff.1 hnil)
    · rw [putOps, List.length_map]
      exact length_le_of_mem_batchesOf hmem
  · rw [List.nil_append, flatten_map_putOps, ← hflat, putOps, putOps]
    nth_rewrite 2 [← List.take_append_drop count batches]
    rw [List.flatten_append, List.map_append]
    exact List.prefix_append _ _
  · obtain ⟨hcount, hs'⟩ := hok hr
    rw [List.nil_append, flatten_map_putOps, List.take_of_length_le hcount, hflat]
    exact ⟨rfl, hflat ▸ hs'⟩
  · obtain ⟨written, rfl, hlt, hs'⟩ := herror e he
    refine ⟨(batches.take written).map (putOps · lease), putOps batches[written] lease,
      (batches.take written).flatten, (batches.drop written).flatten, ?_, ?_,
      flatten_map_putOps _ _, hs'⟩
    · rw [List.nil_append, List.take_succ_eq_append_getElem hlt, List.map_append]
      rfl
    · rw [← List.flatten_append, List.take_append_drop, hflat]

/-! ## Reading -/

/-- As long as the store is in one of these states, transactions of at most `max` operations that
only read are answered from these contents, and leave it in such a state. -/
def ReadsAs (txn : σ → List TxnOp → Except Error (List TxnReply) × σ) (max : Nat)
    (contents : Store) (state : σ → Prop) : Prop :=
  ∀ s keys, state s → keys.length ≤ max →
    ∃ s', state s' ∧ txn s (getOps keys) = (.ok (contents.gotAll keys), s')

variable {contents : Store} {state : σ → Prop}

theorem exists_readBatches (h : ReadsAs txn max contents state) (hk : contents.IsKeyed)
    {batches : List (List Bytes)} (hlen : ∀ batch ∈ batches, batch.length ≤ max)
    {keys : List Bytes} {found : Found} (hfound : contents.IsRead keys found) (hs : state s) :
    ∃ found' s', readBatches txn (batches.map getOps) found s = (.ok found', s') ∧ state s' ∧
      contents.IsRead (keys ++ batches.flatten) found' := by
  induction batches generalizing keys found s with
  | nil => exact ⟨found, s, rfl, hs, by simpa using hfound⟩
  | cons batch batches ih =>
    obtain ⟨s₁, hs₁, htxn⟩ := h s batch hs (hlen batch (.head _))
    obtain ⟨found', s', hread, hs', hfound'⟩ :=
      ih (fun b hb => hlen b (.tail _ hb)) (hfound.add hk batch) hs₁
    refine ⟨found', s', ?_, hs', ?_⟩
    · simp [readBatches, htxn, hread]
    · rwa [List.flatten_cons, ← List.append_assoc]

theorem getMany_reads (h : ReadsAs txn max contents state) (hk : contents.IsKeyed) (hmax : 1 ≤ max)
    (keys : List Bytes) (hs : state s) : ∃ found s',
      getMany txn max keys s = (.ok found, s') ∧ state s' ∧ contents.IsRead keys found := by
  have hlen : (getOps keys).length = keys.length := List.length_map _
  have hsize : Nat.max max 1 = max := Nat.max_eq_left hmax
  rw [getMany, batched, hlen, getOps, batchesOf_map, hsize]
  have hnone : contents.IsRead [] Dictionary.empty := contents.isRead_nil
  obtain ⟨found, s', hread, hs', hfound⟩ :=
    exists_readBatches h hk (fun _ hb => length_le_of_mem_batchesOf hb) hnone hs
  refine ⟨found, s', hread, hs', ?_⟩
  rwa [List.nil_append, flatten_batchesOf hmax le_rfl] at hfound

end

/-! ## Transactions on a store -/

namespace Store

variable {s s' : Store} {now : Nat} {lease : Option Int} {ops : List TxnOp}

theorem touch_of_leases (h : s'.leases = (s.touch now).leases) : s'.touch now = s' := by
  refine touch_eq_self ?_
  rw [expired, h]
  exact expired_touch s now

def counting (s : Store) (size : Nat) : Store := { s with txnSizes := s.txnSizes ++ [size] }

theorem touch_counting (s : Store) (now size : Nat) :
    ((s.touch now).counting size).touch now = (s.touch now).counting size :=
  touch_of_leases (s := s) rfl

theorem transact_cases (s : Store) (now : Nat) (ops : List TxnOp) :
    (∃ e, s.transact now ops = (.error e, s)) ∨ s.transact now ops = s.txn now ops := by
  unfold transact
  cases s.accept (.txn ops) with
  | error e => exact .inl ⟨e, rfl⟩
  | ok _ => exact .inr rfl

theorem transact_eq_txn (ha : s.available = true) (hlen : ops.length ≤ s.maxTxnOps) :
    s.transact now ops = s.txn now ops := by
  have haccept : s.accept (.txn ops) = .ok () := by
    simp [accept, ha, Nat.not_lt.2 hlen]
  rw [transact, haccept]

theorem txn_eq_error {e : Error} (hc : (s.touch now).checkLeases ops = .error e) :
    s.txn now ops = (.error e, (s.touch now).counting ops.length) := by
  have hleases : ((s.touch now).counting ops.length).leases = (s.touch now).leases := rfl
  have hc' := (checkLeases_congr hleases ops).trans hc
  rw [counting] at hc' ⊢
  simp only [txn, hc']

theorem isAtomic_transact (now : Nat) :
    IsAtomic (transact now) fun s => (s.touch now).bindings where
  ok s ops replies s' h := by
    rcases transact_cases s now ops with ⟨e, he⟩ | htxn
    · cases h.symm.trans he
    · rw [htxn] at h
      cases hc : (s.touch now).checkLeases ops with
      | error e => cases h.symm.trans (txn_eq_error hc)
      | ok _ =>
        obtain ⟨_, s₁, hok, hb, ht⟩ := exists_txn_eq_ok hc
        cases h.symm.trans hok
        rw [touch_of_leases ht.leases, hb]
  error s ops e s' h := by
    rcases transact_cases s now ops with ⟨e, he⟩ | htxn
    · cases h.symm.trans he
      rfl
    · rw [htxn] at h
      cases hc : (s.touch now).checkLeases ops with
      | error e =>
        cases h.symm.trans (txn_eq_error hc)
        simp only [touch_counting]
        rfl
      | ok _ =>
        obtain ⟨_, _, hok, -⟩ := exists_txn_eq_ok hc
        cases h.symm.trans hok

/-- Transactions that only read leave a store that can be reached as it is, but for the record of
their sizes and the leases that are due. -/
theorem readsAs_transact (now : Nat) (s : Store) :
    ReadsAs (transact now) s.maxTxnOps (s.touch now) fun s' =>
      s'.available = true ∧ s'.maxTxnOps = s.maxTxnOps ∧
        (s'.touch now).entries = (s.touch now).entries := by
  rintro s' keys ⟨ha, hmax, he⟩ hlen
  have hexp := expired_touch s' now
  have htxn : s'.txn now (getOps keys) = (s'.touch now).txn now (getOps keys) := by
    rw [txn, txn, touch_eq_self hexp]
  refine ⟨(s'.touch now).counting keys.length, ?_, ?_⟩
  · obtain ⟨hava, -, hmax'⟩ := touch_settings s' now
    exact ⟨hava.trans ha, hmax'.trans hmax, (congrArg entries (touch_counting s' now _)).trans he⟩
  · have hgot : (s'.touch now).gotAll keys = (s.touch now).gotAll keys := by
      rw [gotAll, gotAll, he]
    have hgets : (getOps keys).length ≤ s'.maxTxnOps :=
      (List.length_map _).trans_le (hlen.trans_eq hmax.symm)
    rw [transact_eq_txn ha hgets, htxn, txn_gets hexp, hgot]
    rfl

/-! ### Single puts -/

def putEach (s : Store) (now : Nat) (kvs : List (Bytes × Bytes)) (lease : Option Int) : Store :=
  kvs.foldl (fun s e => (s.put now e.1 e.2 lease).2) s

theorem put_eq_ok (hc : (s.touch now).checkLease lease = .ok ()) (key value : Bytes) :
    s.put now key value lease = (.ok (), (s.touch now).write key value lease) := by
  simp only [put, hc]

theorem checkLease_congr (h : s'.leases = s.leases) (lease : Option Int) :
    s'.checkLease lease = s.checkLease lease := by
  cases lease with
  | none => rfl
  | some id => rw [checkLease, checkLease, h]

theorem bindings_putEach (hc : (s.touch now).checkLease lease = .ok ())
    (kvs : List (Bytes × Bytes)) : ((s.putEach now kvs lease).touch now).bindings =
      (s.touch now).bindings.putAll (lease.getD 0) kvs := by
  induction kvs generalizing s with
  | nil => rfl
  | cons e kvs ih =>
    obtain ⟨hentries, hleases, -⟩ := (s.touch now).entries_write e.1 e.2 lease
    have htouch := touch_of_leases hleases
    have hput : s.putEach now (e :: kvs) lease =
        ((s.touch now).write e.1 e.2 lease).putEach now kvs lease := by
      rw [putEach, List.foldl_cons, put_eq_ok hc]
      rfl
    have hbindings : ((s.touch now).write e.1 e.2 lease).bindings =
        (s.touch now).bindings.insert e.1 (e.2, lease.getD 0) := by
      rw [bindings, hentries, Dictionary.mapValues_insert]
      rfl
    rw [hput, ih (by rw [htouch, checkLease_congr hleases]; exact hc), htouch, hbindings]
    rfl

/-! ### Many puts -/

theorem exists_writeBatches_ok {batches : List (List (Bytes × Bytes))}
    (hlen : ∀ batch ∈ batches, batch.length ≤ s.maxTxnOps) (ha : s.available = true)
    (hc : (s.touch now).checkLease lease = .ok ()) :
    ∃ s', writeBatches (transact now) (batches.map (putOps · lease)) s = (.ok (), s') := by
  induction batches generalizing s with
  | nil => exact ⟨s, rfl⟩
  | cons batch batches ih =>
    obtain ⟨replies, s₁, htxn, -, ht⟩ := exists_txn_eq_ok (checkLeases_puts hc batch)
    obtain ⟨hava, -, hmax⟩ := touch_settings s now
    have hlen₁ : (putOps batch lease).length ≤ s.maxTxnOps :=
      (List.length_map _).trans_le (hlen batch (.head _))
    obtain ⟨s', hrest⟩ := ih (s := s₁)
      (fun b hb => (hlen b (.tail _ hb)).trans_eq (ht.maxTxnOps.trans hmax).symm)
      (ht.available.trans (hava.trans ha))
      (by rw [touch_of_leases ht.leases, checkLease_congr ht.leases]; exact hc)
    refine ⟨s', ?_⟩
    simp [writeBatches, transact_eq_txn ha hlen₁, htxn, hrest]

theorem putMany_transact (now : Nat) (hmax : 1 ≤ s.maxTxnOps) (kvs : List (Bytes × Bytes))
    (lease : Option Int) : ∃ result s' sent,
      putMany (transact now) s.maxTxnOps kvs lease s = (result, s') ∧
      putMany (recorded (transact now)) s.maxTxnOps kvs lease (s, []) = (result, s', sent) ∧
      WritesMany (fun s => (s.touch now).bindings) s.maxTxnOps kvs lease s result s' sent ∧
      (s.available = true → (s.touch now).checkLease lease = .ok () → result = .ok () ∧
        (s'.touch now).bindings = ((s.putEach now kvs lease).touch now).bindings) := by
  obtain ⟨result, s', sent, hput, hsent, hw⟩ :=
    putMany_writes (isAtomic_transact now) hmax kvs lease s
  refine ⟨result, s', sent, hput, hsent, hw, fun ha hc => ?_⟩
  have hsize : Nat.max s.maxTxnOps 1 = s.maxTxnOps := Nat.max_eq_left hmax
  have hlen : ∀ batch ∈ batchesOf s.maxTxnOps kvs.length kvs, batch.length ≤ s.maxTxnOps :=
    fun _ hb => length_le_of_mem_batchesOf hb
  obtain ⟨_, hok⟩ := exists_writeBatches_ok hlen ha hc
  rw [putMany, batched_putOps, hsize] at hput
  cases hput.symm.trans hok
  exact ⟨rfl, by rw [(hw.ok rfl).2, bindings_putEach hc]⟩

end Store

end ServiceDirectory
