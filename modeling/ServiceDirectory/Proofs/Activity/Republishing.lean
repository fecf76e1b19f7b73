import ServiceDirectory.Proofs.Activity.Alone
import ServiceDirectory.Proofs.Keyspace.RoundTrip

/-! # Republishing alone

A node that hosts rows as they are registered or restored writes, when it republishes alone, exactly
those with which its table of all services does not agree (`staleIds_eq`, `republishOps_eq`). It
gets all locks at once, and under a lease that lasts the writes take place in batches
(`proceeds_locking`, `proceeds_writing`).
-/

namespace ServiceDirectory

open Activity

/-! ## Rows that are hosted -/

/-- A row as a registration makes it, or as it is restored from the remote store. -/
inductive Row.IsHosted : Row → Prop
  | registered {id : ServiceId} {hostname : String} {port : UInt16} {ttl : UInt32} {m : Metadata}
      {service : Service} : Service.make id hostname port ttl m = .ok service →
      IsHosted service.toRow
  | restored {k : Keyspace} {key value : Bytes} {row : Row} : k.decode key value = some row →
      IsHosted row

theorem Row.IsHosted.isFaithful {row : Row} (h : row.IsHosted) : row.IsFaithful := by
  cases h with
  | registered h => exact Service.isFaithful_toRow h
  | restored h => exact Keyspace.decode_isFaithful h

theorem Row.IsHosted.isValid {row : Row} (h : row.IsHosted) : row.id.isValid = true := by
  cases h with
  | registered h => exact Service.isValid_of_make h
  | restored h => exact (Keyspace.decode_eq_some_iff.1 h).1

structure Registry.IsHosted (r : Registry) : Prop where
  wellFormed : r.rows.IsWellFormed
  row : ∀ id row, r.rows.row? id = some row → row.IsHosted

namespace Registry

variable {r : Registry}

theorem isHosted_empty : empty.IsHosted := ⟨Table.isWellFormed_empty, fun _ _ h => by cases h⟩

theorem IsHosted.isProper (h : r.IsHosted) : r.IsProper where
  rows := ⟨h.wellFormed, fun id row hr => (h.row id row hr).isFaithful.isCanonical⟩
  valid id row hr := Table.row?_id hr ▸ (h.row id row hr).isValid

theorem IsHosted.write {r' : Registry} (h : r.IsHosted) {row : Row} (hrow : row.IsHosted)
    (hs : row.IsStorable) (hr : r'.rows = r.rows.write row) : r'.IsHosted where
  wellFormed := hr ▸ h.wellFormed.write hs
  row id row' hf := by
    rw [hr, h.wellFormed.row?_write hs] at hf
    split at hf
    · exact Option.some.inj hf ▸ hrow
    · exact h.row id row' hf

theorem IsHosted.register (h : r.IsHosted) (now : Nat) {row : Row} (hrow : row.IsHosted)
    (hs : row.IsStorable) : ∃ outcome r', r.register now row = .ok (outcome, r') ∧ r'.IsHosted := by
  obtain ⟨outcome, hr, -⟩ := h.isProper.register_eq now ⟨hs, hrow.isFaithful.isCanonical⟩
  exact ⟨outcome, _, hr, h.write hrow hs rfl⟩

theorem isHosted_restore (r : Registry) (now : Nat) {rows : List Row}
    (hrows : ∀ row ∈ rows, row.IsHosted ∧ row.IsStorable) :
    ∃ count r', r.restore now rows = .ok (count, r') ∧ r'.IsHosted := by
  let P : List Row → Registry → Prop := fun rows r =>
    r.IsHosted ∧ ∀ row ∈ rows, row.IsHosted ∧ row.IsStorable
  have hstep : ∀ row rows r, P (row :: rows) r →
      ∃ outcome r', r.register now row = .ok (outcome, r') ∧ P rows r' := by
    rintro row rows r ⟨hr, hrows⟩
    obtain ⟨hrow, hs⟩ := hrows row (.head _)
    obtain ⟨outcome, r', hr', h'⟩ := hr.register now hrow hs
    exact ⟨outcome, r', hr', h', fun row hrow => hrows row (.tail _ hrow)⟩
  have hstart : P rows { r with rows := Table.empty } :=
    ⟨⟨Table.isWellFormed_empty, fun _ _ h => by cases h⟩, hrows⟩
  obtain ⟨r', hr', h', -⟩ := exists_restore now hstep hstart
  exact ⟨rows.length, r', hr', h'⟩

end Registry

/-! ## What is stale -/

section

variable {ε α β : Type}

theorem filterM_eq_ok {p : α → Except ε Bool} {q : α → Bool} {l : List α}
    (h : ∀ x ∈ l, p x = .ok (q x)) : l.filterM p = .ok (l.filter q) := by
  have haux : ∀ (l acc : List α), (∀ x ∈ l, p x = .ok (q x)) →
      l.filterAuxM p acc = .ok ((l.filter q).reverse ++ acc) := by
    intro l
    induction l with
    | nil => exact fun acc _ => rfl
    | cons x l ih =>
      intro acc hl
      have hx := hl x (.head _)
      rw [List.filterAuxM, hx, ok_bind, ih _ fun y hy => hl y (.tail _ hy)]
      cases hq : q x with
      | true => simp [hq]
      | false => simp [hq]
  rw [List.filterM, haux l [] h]
  simp

theorem mapM_eq_ok {f : α → Except ε β} {g : α → β} {l : List α} (h : ∀ x ∈ l, f x = .ok (g x)) :
    l.mapM f = .ok (l.map g) := by
  induction l with
  | nil => rfl
  | cons x l ih => rw [List.mapM_cons, h x (.head _), ih fun y hy => h y (.tail _ hy)]; rfl

end

variable {me now : Nat} {n n' : Node} {s s' : Store} {lease : Int} {o : Outcome}

def Node.hostedRows (n : Node) : List Row :=
  match n.registry.rows.all with
  | .ok rows => rows
  | .error _ => []

/-- How many hosted rows the rows that are given do not have. -/
def Node.missing (n : Node) (rows : ServiceId → Option Row) : Nat :=
  n.hostedRows.countP fun row => !Row.sameFound (rows row.id) (some row)

theorem mem_hostedRows_iff (h : n.registry.IsProper) {row : Row} :
    row ∈ n.hostedRows ↔ n.row? row.id = some row := by
  obtain ⟨rows, hall, hmem, -⟩ := h.rows.wellFormed.all_eq
  rw [Node.hostedRows, hall]
  exact hmem row

theorem staleIds_eq (h : n.registry.IsProper) (hg : n.globalRows.IsWellFormed) :
    ∃ ids, staleIds n = .ok ids ∧ ids.Nodup ∧ ids.length = n.missing n.globalRows.row? ∧
      ∀ id, id ∈ ids ↔ ∃ row, n.row? id = some row ∧
        Row.sameFound (n.globalRows.row? id) (some row) = false := by
  obtain ⟨rows, hall, hmem, hne⟩ := h.rows.wellFormed.all_eq
  have hstale : (rows.filterM fun r => do
      return !Row.sameFound (← n.globalRows.find r.id) (some r)) =
      .ok (rows.filter fun r => !Row.sameFound (n.globalRows.row? r.id) (some r)) := by
    refine filterM_eq_ok fun row hrow => ?_
    rw [hg.find_eq (h.rows.wellFormed.isStorable ((hmem row).1 hrow)).id]
    rfl
  refine ⟨_, by rw [staleIds, hall, ok_bind, hstale]; rfl, ?_, ?_, fun id => ?_⟩
  · refine (List.mergeSort_perm _ _).nodup_iff.2 ?_
    rw [List.Nodup, List.pairwise_map]
    exact hne.filter _
  · rw [(List.mergeSort_perm _ _).length_eq, List.length_map, Node.missing, Node.hostedRows, hall,
      List.countP_eq_length_filter]
  · rw [(List.mergeSort_perm _ _).mem_iff, List.mem_map]
    constructor
    · rintro ⟨row, hrow, rfl⟩
      obtain ⟨hrow, hs⟩ := List.mem_filter.1 hrow
      exact ⟨row, (hmem row).1 hrow, by simpa using hs⟩
    · rintro ⟨row, hrow, hs⟩
      obtain rfl := Table.row?_id hrow
      exact ⟨row, List.mem_filter.2 ⟨(hmem row).2 hrow, by simpa using hs⟩, rfl⟩

def Node.putsOf (n : Node) (ids : List ServiceId) : List (Bytes × Bytes) :=
  ids.filterMap fun id => (n.row? id).map fun row => (n.keyspace.key id, Keyspace.valueOf row)

theorem republishOps_eq (h : n.registry.IsProper) {ids : List ServiceId}
    (hids : ∀ id ∈ ids, id.IsStorable) (lease : Int) :
    republishOps n lease ids = .ok (putOps (n.putsOf ids) (some lease)) := by
  rw [republishOps, mapM_eq_ok (g := fun id => (n.row? id).map fun row =>
    TxnOp.put (n.keyspace.key id) (Keyspace.valueOf row) (some lease))]
  · simp [Node.putsOf, putOps, List.map_filterMap, List.filterMap_map, Function.comp_def]
  · intro id hid
    rw [h.rows.wellFormed.find_eq (hids id hid)]
    cases hr : n.registry.rows.row? id with
    | none => simp [Except.mapError, Node.row?, hr]
    | some r => simp [Except.mapError, Node.row?, hr, h.encode_eq n.keyspace hr]

/-! ## The second part of a cycle -/

/-- The second part of a cycle whose first part did so. -/
def Activity.writeBack (imported : Option Summary) (stage : RepublishStage) : Activity :=
  .syncing (.republishing imported stage)

variable {imported : Option Summary} {stage stage' : RepublishStage}

theorem step_writeBack (me now maxTxnOps : Nat) (n : Node) (imported : Option Summary)
    (stage : RepublishStage) : (writeBack imported stage).step me now maxTxnOps n =
      (republishStep me maxTxnOps n stage).within (writeBack imported) fun n result =>
        .done n (.synced ⟨imported, orSkipped result⟩) := by
  simp only [writeBack, Activity.step, syncStep]
  exact Progress.within_within ..

/-- The part gets from one stage to the other, so that what comes of the one comes of the other. -/
def Proceeds (me now : Nat) (imported : Option Summary) (stage : RepublishStage) (n : Node)
    (s : Store) (stage' : RepublishStage) (n' : Node) (s' : Store) : Prop :=
  ∀ {o : Outcome} {nodeEnd : Node} {storeEnd : Store},
    (writeBack imported stage').Alone me now n' s' o nodeEnd storeEnd →
    (writeBack imported stage).Alone me now n s o nodeEnd storeEnd

theorem proceeds_of_move (h : republishStep me s.maxTxnOps n stage = .move n' stage') :
    Proceeds me now imported stage n s stage' n' s :=
  fun hrest => .move (by rw [step_writeBack, h]; rfl) hrest

theorem alone_done (result : RepublishResult)
    (h : republishStep me s.maxTxnOps n stage = .done n' result) :
    (writeBack imported stage).Alone me now n s (.synced ⟨imported, orSkipped result⟩) n' s :=
  .done (by rw [step_writeBack, h]; rfl)

/-! ### Locks -/

/-- The task has the locks of these ids, and nobody has or awaits any other. -/
structure Node.HasLocks (n : Node) (me : Nat) (held : List ServiceId) : Prop where
  sound : n.locks.Sound
  order : ∀ id, n.locks.order id = if id ∈ held then [me] else []

theorem Node.HasLocks.claim {held : List ServiceId} {id : ServiceId} (h : n.HasLocks me held)
    (hid : id ∉ held) : (n.claimRow me id).HasLocks me (held ++ [id]) := by
  have hnot : me ∉ n.locks.order id := by
    rw [h.order, if_neg hid]
    exact List.not_mem_nil
  refine ⟨h.sound.claim hnot, fun id' => ?_⟩
  change (n.locks.claim me id).order id' = _
  rw [RowLocks.order_claim hnot, h.order, h.order]
  by_cases hid' : id' = id
  · simp [hid', hid]
  · simp [hid']

theorem Node.HasLocks.ownsRow {held : List ServiceId} {id : ServiceId} (h : n.HasLocks me held)
    (hid : id ∈ held) : n.ownsRow me id = true := by
  refine h.sound.owns_iff.2 ?_
  rw [h.order, if_pos hid]
  rfl

theorem Node.HasLocks.take {held : List ServiceId} (h : n.HasLocks me held) (id : ServiceId) :
    (n.takeRow me id).HasLocks me held :=
  ⟨h.sound.take me id, fun id' => (RowLocks.order_take _ _ _ _).trans (h.order id')⟩

theorem proceeds_locking (now : Nat) (s : Store) (imported : Option Summary) (lease : Int)
    {todo held : List ServiceId} (h : n.HasLocks me held) (hnodup : (held ++ todo).Nodup) :
    ∃ locks, Node.HasLocks { n with locks } me (held ++ todo) ∧
      Proceeds me now imported (.locking lease todo held) n s (.reading lease (held ++ todo))
        { n with locks } s := by
  induction todo generalizing n held with
  | nil =>
    rw [List.append_nil]
    exact ⟨n.locks, h, proceeds_of_move rfl⟩
  | cons id todo ih =>
    have hid : id ∉ held := fun hm =>
      List.disjoint_of_nodup_append hnodup hm (.head _)
    have hclaimed := h.claim hid
    have htake : republishStep me s.maxTxnOps (n.claimRow me id) (.queued lease id todo held) =
        .move ((n.claimRow me id).takeRow me id) (.locking lease todo (held ++ [id])) := by
      rw [republishStep, hclaimed.ownsRow (by simp), if_pos rfl]
    have happend : held ++ id :: todo = held ++ [id] ++ todo := by simp
    rw [happend] at hnodup ⊢
    obtain ⟨locks, hlocks, hrest⟩ := ih (hclaimed.take id) hnodup
    exact ⟨locks, hlocks, fun hend =>
      proceeds_of_move rfl (proceeds_of_move htake (hrest hend))⟩

theorem Node.HasLocks.release {held : List ServiceId} (h : n.HasLocks me held) (hn : n.IsSound) :
    ∃ locks, held.foldl (fun n id => n.releaseRow me id) n = { n with locks } ∧
      Node.HasLocks { n with locks } me [] := by
  obtain ⟨hsound, horder⟩ := hn.locks.releaseAll me held
  refine ⟨_, n.releaseRow_foldl me held, hsound, fun id => ?_⟩
  rw [if_neg List.not_mem_nil]
  refine (horder id).trans ?_
  rw [h.order]
  split <;> simp

/-! ### Writes -/

/-- A store that can be reached, on which no lease is due. -/
structure Store.Serving (s : Store) (now : Nat) : Prop where
  available : s.available = true
  putsPaused : s.putsPaused = false
  expired : s.expired now = []

theorem Store.Serving.of_sameTerms (h : s.Serving now) (ht : s.SameTerms s') : s'.Serving now :=
  ⟨ht.available.trans h.available, ht.putsPaused.trans h.putsPaused,
    (ht.expired_eq now).trans h.expired⟩

theorem Store.IsAlive.of_sameTerms (h : s.IsAlive now lease) (ht : s.SameTerms s') :
    s'.IsAlive now lease := by
  obtain ⟨l, hl, hlt⟩ := h
  exact ⟨l, ht.leases ▸ hl, hlt⟩

theorem ask?_puts (hs : s.Serving now) (hl : s.IsAlive now lease) {puts : List (Bytes × Bytes)}
    (hlen : puts.length ≤ s.maxTxnOps) : ∃ replies s',
      s.ask? now (.txn (putOps puts (some lease))) = some (.ok replies, s') ∧
      s'.bindings = s.bindings.putAll lease puts ∧ s.SameTerms s' ∧ s.Follows s' := by
  obtain ⟨replies, s', htxn, hb, ht⟩ := hl.txn_puts puts
  rw [Store.touch_eq_self hs.expired] at hb ht
  have hserve : s.serve now (.txn (putOps puts (some lease))) = some (.ok replies, s') := by
    simp only [Store.serve, hs.putsPaused, Bool.and_false, Bool.false_eq_true, ↓reduceIte]
    exact congrArg some htxn
  refine ⟨replies, s', ?_, hb, ht, Store.follows_serve hserve⟩
  rw [Store.ask?_eq_serve hs.available fun ops hops => ?_]
  · exact hserve
  · cases hops
    rwa [putOps, List.length_map]

theorem proceeds_writing (me : Nat) (n : Node) (imported : Option Summary) (count : Nat)
    (held : List ServiceId) (batches : List (List (Bytes × Bytes))) (hs : s.Serving now)
    (hl : s.IsAlive now lease) (hlen : ∀ batch ∈ batches, batch.length ≤ s.maxTxnOps) :
    ∃ s', s'.bindings = s.bindings.putAll lease batches.flatten ∧ s.SameTerms s' ∧ s.Follows s' ∧
      Proceeds me now imported (.writing (batches.map (putOps · (some lease))) count held) n s
        (.finishing (.ok (some count)) held) n s' := by
  induction batches generalizing s with
  | nil => exact ⟨s, rfl, ⟨rfl, rfl, rfl, rfl⟩, .refl s, proceeds_of_move rfl⟩
  | cons batch batches ih =>
    obtain ⟨replies, s₁, hask, hb, ht, hf⟩ := ask?_puts hs hl (hlen batch (.head _))
    obtain ⟨s₂, hb₂, ht₂, hf₂, hrest⟩ := ih (hs.of_sameTerms ht) (hl.of_sameTerms ht)
      fun b hm => ht.maxTxnOps ▸ hlen b (.tail _ hm)
    refine ⟨s₂, ?_, ht.trans ht₂, hf.trans hf₂, fun hend => ?_⟩
    · rw [hb₂, hb, List.flatten_cons, Bindings.putAll_append]
    · exact .ask (step_writeBack me now s.maxTxnOps n imported _) hask (hrest hend)

theorem alone_writing_refused (me now : Nat) (n : Node) (imported : Option Summary) (count : Nat)
    (held : List ServiceId) {ops : List TxnOp} (batches : List (List TxnOp))
    (ha : s.available = true) (hlen : s.maxTxnOps < ops.length) : ∃ n',
      (writeBack imported (.writing (ops :: batches) count held)).Alone me now n s
        (.synced ⟨imported, none⟩) n' s := by
  have hrefused : s.ask? now (.txn ops) = some (.error Store.tooManyOps, s) := by
    simp only [Store.ask?, Store.accept, ha, hlen, Bool.not_true, Bool.and_false,
      Bool.false_eq_true, ↓reduceIte]
    rfl
  exact ⟨_, .ask (step_writeBack me now s.maxTxnOps n imported _) hrefused
    (alone_done (.error Store.tooManyOps) rfl)⟩

/-! ### The whole part -/

/-- Nothing is under way on the node, its hosted rows came from registering or restoring, and it has
this lease. -/
structure Node.AtRest (n : Node) (lease : Int) : Prop where
  hosted : n.registry.IsHosted
  globalRows : n.globalRows.IsWellFormed
  locks : n.locks.Sound
  idle : ∀ id, n.locks.order id = []
  lease : n.lease = some lease

namespace Node.AtRest

theorem isSound (h : n.AtRest lease) : n.IsSound :=
  ⟨h.locks, h.hosted.isProper, Option.isSome_iff_exists.2 ⟨lease, h.lease⟩⟩

theorem hasLocks (h : n.AtRest lease) (me : Nat) : n.HasLocks me [] :=
  ⟨h.locks, fun id => by rw [h.idle, if_neg List.not_mem_nil]⟩

theorem of_hasLocks (h : n.AtRest lease) {locks : RowLocks}
    (hlocks : Node.HasLocks { n with locks } me []) : Node.AtRest { n with locks } lease :=
  ⟨h.hosted, h.globalRows, hlocks.sound,
    fun id => (hlocks.order id).trans (if_neg List.not_mem_nil), h.lease⟩

theorem row_of_mem (h : n.AtRest lease) {ids : List ServiceId} (hids : staleIds n = .ok ids)
    {id : ServiceId} (hid : id ∈ ids) : ∃ row, n.row? id = some row ∧ row.IsHosted := by
  obtain ⟨ids', hids', -, -, hmem⟩ := staleIds_eq h.hosted.isProper h.globalRows
  cases hids.symm.trans hids'
  obtain ⟨row, hrow, -⟩ := (hmem id).1 hid
  exact ⟨row, hrow, h.hosted.row id row hrow⟩

theorem length_putsOf (h : n.AtRest lease) {ids : List ServiceId} (hids : staleIds n = .ok ids) :
    (n.putsOf ids).length = ids.length := by
  have hrow : ∀ id ∈ ids, ∃ row, n.row? id = some row ∧ row.IsHosted :=
    fun _ hid => h.row_of_mem hids hid
  clear hids
  induction ids with
  | nil => rfl
  | cons id ids ih =>
    obtain ⟨row, hfound, -⟩ := hrow id (.head _)
    have hrest := ih fun id hid => hrow id (.tail _ hid)
    rw [Node.putsOf] at hrest ⊢
    rw [List.filterMap_cons_some (by rw [hfound]; rfl), List.length_cons, List.length_cons, hrest]

end Node.AtRest

theorem proceeds_start (me now : Nat) (s : Store) (imported : Option Summary) (h : n.AtRest lease)
    {ids : List ServiceId} (hids : staleIds n = .ok ids) (hne : ids ≠ []) :
    ∃ locks, Node.HasLocks { n with locks } me ids ∧ Proceeds me now imported .start n s
      (.reading lease ids) { n with locks } s := by
  have hnodup := (staleIds_spec h.hosted.isProper hids).1
  obtain ⟨locks, hlocks, hrest⟩ := proceeds_locking now s imported lease (h.hasLocks me) hnodup
  refine ⟨locks, hlocks, fun hend => proceeds_of_move ?_ (hrest hend)⟩
  cases ids with
  | nil => exact absurd rfl hne
  | cons id ids => simp only [republishStep, h.lease, hids]

theorem republishStep_reading (me maxTxnOps : Nat) (h : n.AtRest lease) {ids : List ServiceId}
    (hids : staleIds n = .ok ids) (hne : ids ≠ []) (locks : RowLocks) :
    republishStep me maxTxnOps { n with locks } (.reading lease ids) =
      if hasRoom maxTxnOps then .move { n with locks } (.writing
        ((batchesOf (max maxTxnOps 1) ids.length (n.putsOf ids)).map (putOps · (some lease)))
        ids.length ids)
      else .crash := by
  have hst := (staleIds_spec h.hosted.isProper hids).2
  have hlen := h.length_putsOf hids
  have hops : republishOps { n with locks } lease ids =
      .ok (putOps (n.putsOf ids) (some lease)) := republishOps_eq h.hosted.isProper hst lease
  have hlen' : (putOps (n.putsOf ids) (some lease)).length = ids.length := by
    rw [putOps, List.length_map, hlen]
  have hbatched : batched (putOps (n.putsOf ids) (some lease)) maxTxnOps =
      (batchesOf (max maxTxnOps 1) ids.length (n.putsOf ids)).map (putOps · (some lease)) := by
    rw [batched, hlen', putOps, batchesOf_map]
    rfl
  simp only [republishStep, hops]
  cases hputs : putOps (n.putsOf ids) (some lease) with
  | nil =>
    rw [hputs] at hlen'
    exact absurd (List.length_eq_zero_iff.1 hlen'.symm) hne
  | cons op ops => simp only [← hputs, hbatched, hlen']

theorem writeBack_nothing (h : n.AtRest lease) (hids : staleIds n = .ok []) :
    (writeBack imported .start).Alone me now n s (.synced ⟨imported, some 0⟩) n s :=
  alone_done (.ok (some 0)) (by simp only [republishStep, h.lease, hids])

/-- A size of batches for which there is no room is met only if there is something to do. -/
theorem writeBack_crash (h : n.AtRest lease) {ids : List ServiceId} (hids : staleIds n = .ok ids)
    (hne : ids ≠ []) (hroom : hasRoom s.maxTxnOps = false) : ∃ n',
      (writeBack imported .start).Alone me now n s .crashed n' s := by
  obtain ⟨locks, -, hrest⟩ := proceeds_start me now s imported h hids hne
  refine ⟨_, hrest (.crash ?_)⟩
  rw [step_writeBack, republishStep_reading _ _ h hids hne, hroom]
  rfl

/-- The hosted rows with which the table does not agree are written under the lease. -/
theorem writeBack_puts (h : n.AtRest lease) {ids : List ServiceId} (hids : staleIds n = .ok ids)
    (hne : ids ≠ []) (hroom : hasRoom s.maxTxnOps = true) (hmax : 1 ≤ s.maxTxnOps)
    (hs : s.Serving now) (hl : s.IsAlive now lease) : ∃ locks s',
      (writeBack imported .start).Alone me now n s (.synced ⟨imported, some ids.length⟩)
        { n with locks } s' ∧
      Node.AtRest { n with locks } lease ∧
      s'.bindings = s.bindings.putAll lease (n.putsOf ids) ∧ s.SameTerms s' ∧ s.Follows s' := by
  obtain ⟨locks, hlocks, hstart⟩ := proceeds_start me now s imported h hids hne
  have hread := republishStep_reading me s.maxTxnOps h hids hne locks
  rw [if_pos hroom] at hread
  obtain ⟨s', hb, ht, hf, hwrite⟩ := proceeds_writing me { n with locks } imported ids.length ids
    (batchesOf (max s.maxTxnOps 1) ids.length (n.putsOf ids)) hs hl fun batch hbatch =>
      (length_le_of_mem_batchesOf hbatch).trans (by rw [Nat.max_eq_left hmax])
  rw [flatten_batchesOf (by omega) (h.length_putsOf hids).le] at hb
  have hsound : Node.IsSound { n with locks } :=
    ⟨hlocks.sound, h.isSound.registry, h.isSound.lease⟩
  obtain ⟨locks', hrelease, hfree⟩ := hlocks.release hsound
  have hdone : republishStep me s'.maxTxnOps { n with locks } (.finishing (.ok (some ids.length))
      ids) = .done { n with locks := locks' } (.ok (some ids.length)) := by
    rw [republishStep, hrelease]
  have hend : (writeBack imported (.finishing (.ok (some ids.length)) ids)).Alone me now
      { n with locks } s' (.synced ⟨imported, some ids.length⟩) { n with locks := locks' } s' :=
    alone_done _ hdone
  exact ⟨locks', s', hstart (proceeds_of_move hread (hwrite hend)), h.of_hasLocks hfree, hb, ht, hf⟩

theorem writeBack_refused (h : n.AtRest lease) {ids : List ServiceId} (hids : staleIds n = .ok ids)
    (hne : ids ≠ []) (hmax : s.maxTxnOps = 0) (hs : s.Serving now) : ∃ n',
      (writeBack imported .start).Alone me now n s (.synced ⟨imported, none⟩) n' s := by
  obtain ⟨locks, -, hstart⟩ := proceeds_start me now s imported h hids hne
  have hread := republishStep_reading me s.maxTxnOps h hids hne locks
  have hroom : hasRoom s.maxTxnOps = true := by rw [hmax]; decide
  rw [if_pos hroom] at hread
  have hputs : n.putsOf ids ≠ [] := fun hnil => by
    have hlen := h.length_putsOf hids
    rw [hnil] at hlen
    exact hne (List.length_eq_zero_iff.1 hlen.symm)
  obtain ⟨batch, rest, hbatches, hbatch⟩ := exists_batchesOf_eq_cons
    (Nat.lt_of_lt_of_le Nat.one_pos (Nat.le_max_right s.maxTxnOps 1)) hputs
    (h.length_putsOf hids).le
  rw [hbatches, List.map_cons] at hread
  have hlen : s.maxTxnOps < (putOps batch (some lease)).length := by
    rw [hmax, putOps, List.length_map]
    exact List.length_pos_iff.2 hbatch
  obtain ⟨n', hrest⟩ := alone_writing_refused me now { n with locks } imported ids.length ids _
    hs.available hlen
  exact ⟨n', hstart (proceeds_of_move hread hrest)⟩

end ServiceDirectory
