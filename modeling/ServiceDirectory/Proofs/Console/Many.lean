import ServiceDirectory.Console
import ServiceDirectory.Proofs.Store.Many

/-! # Many keys at a console

An operator reads many keys at once, and has a caller write many, transaction by transaction
(`Cluster.exists_writes`). Both do what reading and writing many keys does with any store, if there
is room for a batch; if there is none, the console answers that the command broke down and does
nothing (`manyKeys_of_room`).
-/

namespace ServiceDirectory

open Relation

namespace Store

theorem putsPaused_transact (s : Store) (now : Nat) (ops : List TxnOp) :
    (s.transact now ops).2.putsPaused = s.putsPaused := by
  obtain ⟨-, hputs, -⟩ := touch_settings s now
  rcases transact_cases s now ops with ⟨e, he⟩ | htxn
  · rw [he]
  · rw [htxn]
    cases hc : (s.touch now).checkLeases ops with
    | error e => rw [txn_eq_error hc]; exact hputs
    | ok _ =>
      obtain ⟨_, _, hok, -, ht⟩ := exists_txn_eq_ok hc
      rw [hok]
      exact ht.putsPaused.trans hputs

end Store

namespace Cluster

variable {c c' : Cluster} {id : Nat}

def CallerGoes (id : Nat) (c c' : Cluster) : Prop :=
  ∃ r ∈ c.callers, r.id = id ∧ c.stepCaller? r = some c'

theorem mem_setCaller {r : RunningCaller} (hr : r ∈ c.callers) (hid : r.id = id) (caller : Caller)
    (admitted : Bool) : ⟨id, caller, admitted⟩ ∈ (c.setCaller id caller admitted).callers := by
  refine List.mem_map.2 ⟨r, hr, ?_⟩
  rw [if_pos (beq_iff_eq.2 hid), ← hid]

theorem mem_answerCaller (c : Cluster) (id : Nat) (outcome : CallerOutcome) :
    (id, outcome) ∈ (c.answerCaller id outcome).answered :=
  List.mem_append_right _ (List.mem_singleton_self _)

theorem exists_transacts (hputs : c.store.putsPaused = false) {ops : List TxnOp}
    {batches : List (List TxnOp)} (hr : ⟨id, .many (ops :: batches), false⟩ ∈ c.callers) :
    ∃ c', ReflTransGen (CallerGoes id) c c' ∧ c'.now = c.now ∧
      c'.store = (c.store.transact c.now ops).2 ∧
      match (c.store.transact c.now ops).1 with
      | .error e => (id, .written (.error e)) ∈ c'.answered
      | .ok _ => ⟨id, .many batches, false⟩ ∈ c'.callers := by
  unfold Store.transact
  cases haccept : c.store.accept (.txn ops) with
  | error e =>
    have hrefuse : c.stepCaller? ⟨id, .many (ops :: batches), false⟩ =
        some (c.answerCaller id (.written (.error e))) := by
      simp [stepCaller?, haccept]
    exact ⟨_, .single ⟨_, hr, rfl, hrefuse⟩, rfl, rfl, mem_answerCaller _ _ _⟩
  | ok _ =>
    have hadmit : c.stepCaller? ⟨id, .many (ops :: batches), false⟩ =
        some (c.setCaller id (.many (ops :: batches)) true) := by
      simp [stepCaller?, haccept]
    have hr₁ := mem_setCaller hr rfl (.many (ops :: batches)) true
    have hfirst : ReflTransGen (CallerGoes id) c (c.setCaller id (.many (ops :: batches)) true) :=
      .single ⟨_, hr, rfl, hadmit⟩
    cases htxn : c.store.txn c.now ops with
    | mk reply s₁ =>
      cases reply with
      | error e =>
        have hstep : (c.setCaller id (.many (ops :: batches)) true).stepCaller?
            ⟨id, .many (ops :: batches), true⟩ =
              some ({ c.setCaller id (.many (ops :: batches)) true with
                store := s₁ }.answerCaller id (.written (.error e))) := by
          simp [stepCaller?, setCaller, hputs, htxn]
        exact ⟨_, hfirst.tail ⟨_, hr₁, rfl, hstep⟩, rfl, rfl, mem_answerCaller _ _ _⟩
      | ok replies =>
        have hstep : (c.setCaller id (.many (ops :: batches)) true).stepCaller?
            ⟨id, .many (ops :: batches), true⟩ =
              some ({ c.setCaller id (.many (ops :: batches)) true with
                store := s₁ }.setCaller id (.many batches) false) := by
          simp [stepCaller?, setCaller, hputs, htxn]
        exact ⟨_, hfirst.tail ⟨_, hr₁, rfl, hstep⟩, rfl, rfl, mem_setCaller hr₁ rfl _ _⟩

theorem exists_writes (hputs : c.store.putsPaused = false) {batches : List (List TxnOp)}
    (hr : ⟨id, .many batches, false⟩ ∈ c.callers) {result : Except Error Unit} {s : Store}
    (h : writeBatches (Store.transact c.now) batches c.store = (result, s)) :
    ∃ c', ReflTransGen (CallerGoes id) c c' ∧ c'.store = s ∧
      (id, .written result) ∈ c'.answered := by
  induction batches generalizing c with
  | nil =>
    cases h
    exact ⟨_, .single ⟨_, hr, rfl, rfl⟩, rfl, mem_answerCaller _ _ _⟩
  | cons ops batches ih =>
    obtain ⟨c₁, hgoes, hnow, hstore, hmade⟩ := exists_transacts hputs hr
    have hpaused := Store.putsPaused_transact c.store c.now ops
    simp only [writeBatches] at h
    cases htransact : c.store.transact c.now ops with
    | mk reply s₁ =>
      rw [htransact] at hstore hmade hpaused
      rw [htransact] at h
      cases reply with
      | error e =>
        cases h
        exact ⟨c₁, hgoes, hstore, hmade⟩
      | ok replies =>
        obtain ⟨c', hgoes', hrest⟩ :=
          ih (hstore ▸ hpaused.trans hputs) hmade (hnow ▸ hstore ▸ h)
        exact ⟨c', hgoes.trans hgoes', hrest⟩

end Cluster

namespace Console

/-- Reading these keys finds the values of all that are there, and leaves the store as it is. -/
def Reads (c : Console) (keys : List Bytes) : Prop := ∃ found s,
  c.getMany keys = (.reply (.found (.ok found)), c.setStore s) ∧
    (s.touch c.now).bindings = (c.store.touch c.now).bindings ∧
    (c.store.touch c.now).IsRead keys found

/-- Writing these pairs is left to a caller, who can go on until it is answered. They are written in
order, up to the first transaction that fails. None fails if the store can be reached and the lease
is there, and then the pairs are bound as by single puts. -/
def Writes (c : Console) (kvs : List (Bytes × Bytes)) (lease : Option Int) : Prop :=
  ∃ id c' cluster result sent, c.putMany kvs lease = (.await id false, c') ∧
    ReflTransGen (Cluster.CallerGoes id) c'.cluster cluster ∧
    (id, .written result) ∈ cluster.answered ∧
    ServiceDirectory.putMany (recorded (Store.transact c.now)) c.maxTxnOps kvs lease
      (c.store, []) = (result, cluster.store, sent) ∧
    WritesMany (fun s => (s.touch c.now).bindings) c.maxTxnOps kvs lease c.store result
      cluster.store sent ∧
    (c.store.available = true → (c.store.touch c.now).checkLease lease = .ok () →
      result = .ok () ∧ (cluster.store.touch c.now).bindings =
        ((c.store.putEach c.now kvs lease).touch c.now).bindings)

variable (c : Console)

theorem reads_of_room (hmax : 1 ≤ c.maxTxnOps) (hroom : hasRoom c.maxTxnOps = true)
    (hk : c.store.IsKeyed) (ha : c.store.available = true) (keys : List Bytes) : c.Reads keys := by
  have hk' : (c.store.touch c.now).IsKeyed := (Store.follows_touch c.store c.now).keyed hk
  obtain ⟨found, s, hget, ⟨-, -, hentries⟩, hfound⟩ :=
    getMany_reads (Store.readsAs_transact c.now c.store) hk' hmax keys ⟨ha, rfl, rfl⟩
  refine ⟨found, s, ?_, by rw [Store.bindings, hentries]; rfl, hfound⟩
  rw [getMany, if_pos hroom]
  simp only [maxTxnOps, hget]

theorem writes_of_room (hmax : 1 ≤ c.maxTxnOps) (hroom : hasRoom c.maxTxnOps = true)
    (hputs : c.store.putsPaused = false) (kvs : List (Bytes × Bytes)) (lease : Option Int) :
    c.Writes kvs lease := by
  obtain ⟨result, s, sent, hput, hsent, hwrites, hok⟩ :=
    Store.putMany_transact c.now hmax kvs lease
  let called := (c.cluster.call (.many (batched (putOps kvs lease) c.maxTxnOps))).2
  have hcaller : ⟨c.cluster.next, .many (batched (putOps kvs lease) c.maxTxnOps), false⟩ ∈
      called.callers := List.mem_append_right _ (List.mem_singleton_self _)
  obtain ⟨cluster, hgoes, rfl, hanswer⟩ := Cluster.exists_writes (c := called) hputs hcaller hput
  refine ⟨c.cluster.next, c.setCluster called, cluster, result, sent, ?_, hgoes, hanswer, hsent,
    hwrites, hok⟩
  rw [putMany, if_pos hroom]
  rfl

/-- Without room for a batch the console breaks down, whatever is to be read or written. -/
theorem crashes_of_not_room (hroom : hasRoom c.maxTxnOps = false) (keys : List Bytes)
    (kvs : List (Bytes × Bytes)) (lease : Option Int) :
    c.getMany keys = (.reply (.outcome .crashed), c) ∧
      c.putMany kvs lease = (.reply (.outcome .crashed), c) := by
  rw [getMany, putMany, hroom]
  exact ⟨rfl, rfl⟩

end Console

/-- Reading and writing many keys is as reading and writing them one by one, with any store whose
transactions take place as a whole or fail. A console does just that if there is room for a batch,
and if there is none breaks down. -/
theorem manyKeys_of_room (c : Console) (hmax : 1 ≤ c.maxTxnOps) :
    (∀ (σ : Type) (txn : σ → List TxnOp → Except Error (List TxnReply) × σ) (view : σ → Bindings),
      IsAtomic txn view → ∀ max, 1 ≤ max → ∀ kvs lease s, ∃ result s' sent,
        putMany txn max kvs lease s = (result, s') ∧
        putMany (recorded txn) max kvs lease (s, []) = (result, s', sent) ∧
        WritesMany view max kvs lease s result s' sent) ∧
    (∀ (σ : Type) (txn : σ → List TxnOp → Except Error (List TxnReply) × σ) (contents : Store)
      (state : σ → Prop), contents.IsKeyed → ∀ max, 1 ≤ max → ReadsAs txn max contents state →
        ∀ keys s, state s → ∃ found s', getMany txn max keys s = (.ok found, s') ∧ state s' ∧
          contents.IsRead keys found) ∧
    (hasRoom c.maxTxnOps = true →
      (c.store.IsKeyed → c.store.available = true → ∀ keys, c.Reads keys) ∧
      (c.store.putsPaused = false → ∀ kvs lease, c.Writes kvs lease)) ∧
    (hasRoom c.maxTxnOps = false → ∀ keys kvs lease,
      c.getMany keys = (.reply (.outcome .crashed), c) ∧
      c.putMany kvs lease = (.reply (.outcome .crashed), c)) :=
  ⟨fun _ _ _ h _ hmax kvs lease s => putMany_writes h hmax kvs lease s,
    fun _ _ _ _ hk _ hmax h keys _ hs => getMany_reads h hk hmax keys hs,
    fun hroom => ⟨c.reads_of_room hmax hroom, c.writes_of_room hmax hroom⟩,
    c.crashes_of_not_room⟩

/-! The second transaction of a store fails; three pairs with a repeated key are written in two. -/

def flaky (s : Nat × Bindings) (ops : List TxnOp) :
    Except Error (List TxnReply) × Nat × Bindings :=
  if s.1 = 1 then (.error Store.offline, 2, s.2)
  else (.ok [], s.1 + 1, ops.foldl TxnOp.bind s.2)

theorem isAtomic_flaky : IsAtomic flaky Prod.snd where
  ok s ops replies s' h := by
    unfold flaky at h
    split at h <;> cases h
    rfl
  error s ops e s' h := by
    unfold flaky at h
    split at h <;> cases h
    rfl

def threePairs : List (Bytes × Bytes) :=
  [(utf8 "b", utf8 "1"), (utf8 "a", utf8 "2"), (utf8 "b", utf8 "3")]

theorem manyKeys_of_room_threePairs : 1 ≤ (Console.empty 2).maxTxnOps ∧
    hasRoom (Console.empty 2).maxTxnOps = true ∧ IsAtomic flaky Prod.snd ∧
    (∃ e d sent, putMany (recorded flaky) 2 threePairs (some 7) ((0, .empty), []) =
        (.error e, (2, d), sent) ∧ sent.map List.length = [2, 1] ∧
      d = Dictionary.ofList [(utf8 "a", (utf8 "2", 7)), (utf8 "b", (utf8 "1", 7))] ∧
      WritesMany Prod.snd 2 threePairs (some 7) (0, Dictionary.empty) (.error e) (2, d) sent) ∧
    (Console.empty 2).Reads [utf8 "a", utf8 "a", utf8 "b"] ∧
    (Console.empty 2).Writes threePairs none ∧
    (Console.empty (2 ^ 64 - 1)).putMany threePairs none =
      (.reply (.outcome .crashed), Console.empty (2 ^ 64 - 1)) := by
  obtain ⟨hwrites, -, hroom, -⟩ := manyKeys_of_room (Console.empty 2) (by decide)
  obtain ⟨-, -, -, hcrash⟩ := manyKeys_of_room (Console.empty (2 ^ 64 - 1)) (by decide)
  obtain ⟨hreads, hwritten⟩ := hroom (by decide)
  obtain ⟨result, s', sent, -, hsent, hmany⟩ :=
    hwrites _ flaky Prod.snd isAtomic_flaky 2 (by decide) threePairs (some 7) (0, .empty)
  cases hsent
  exact ⟨by decide, by decide, isAtomic_flaky, ⟨_, _, _, rfl, by decide, by decide +kernel, hmany⟩,
    hreads (Store.isKeyed_empty 2) rfl _, hwritten rfl _ _, (hcrash (by decide) [] _ _).2⟩

/-- Not every size of a batch is served: the console has no room for the largest ones. -/
theorem not_forall_written : ¬ ∀ (max : Nat) (kvs : List (Bytes × Bytes)), 1 ≤ max →
    ∃ report c, (Console.empty max).execute (.store (.putMany kvs none)) = .ok (report, c) ∧
      c.store.bindings = Bindings.putAll Dictionary.empty 0 kvs := by
  intro h
  obtain ⟨report, c, hexec, hbindings⟩ := h (2 ^ 64 - 1) [(utf8 "a", utf8 "1")] (by decide)
  obtain ⟨report', c', hexec', hentries⟩ : ∃ report c,
      (Console.empty (2 ^ 64 - 1)).execute (.store (.putMany [(utf8 "a", utf8 "1")] none)) =
        .ok (report, c) ∧ c.store.entries = Dictionary.empty := ⟨_, _, rfl, rfl⟩
  obtain ⟨-, rfl⟩ := Prod.mk.inj (Except.ok.inj (hexec.symm.trans hexec'))
  rw [Store.bindings, hentries] at hbindings
  exact absurd hbindings (by decide +kernel)

end ServiceDirectory
