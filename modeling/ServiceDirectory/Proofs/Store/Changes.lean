import ServiceDirectory.Proofs.Store.Operations

/-! # Changes of keys

A store changes by operations that take effect together (`Performs`) and by the ends of leases
(`Drops`). In each of them the events of the next revision account for the new entries (`Change`);
what changes nothing has no events and no revision.
-/

namespace ServiceDirectory

def TookEffect (r : TxnReply) : Prop := r = .put ∨ r = .deleted 1

namespace Store

variable {s s' t : Store} {now : Nat} {id : Int} {key : Bytes}

def contents (s : Store) : StoredValues := s.entries.mapValues (·.value)

def records (s : Store) : Records := s.entries.mapValues fun kv => (kv.key, kv.value, kv.revision)

def Binds (s : Store) (lease : Int) (key : Bytes) : Prop :=
  ∃ kv, s.entries.find? key = some kv ∧ kv.lease = lease

structure Kept (s s' : Store) : Prop where
  entries : s'.entries = s.entries
  revision : s'.revision = s.revision
  history : s'.history = s.history

theorem Kept.refl (s : Store) : s.Kept s := ⟨rfl, rfl, rfl⟩

theorem Kept.trans {s'' : Store} (h : s.Kept s') (h' : s'.Kept s'') : s.Kept s'' :=
  ⟨h'.entries.trans h.entries, h'.revision.trans h.revision, h'.history.trans h.history⟩

/-! ## Changes of keys -/

/-- Events of the next revision that account for new entries. -/
structure Change (s : Store) (entries : Dictionary Bytes KeyValue) (events : List Event) :
    Prop where
  ne_nil : events ≠ []
  dated : ∀ e ∈ events, e.revision = s.revision + 1
  records : records { s with entries } = recount events s.records

def commit (s : Store) (entries : Dictionary Bytes KeyValue) (events : List Event) : Store :=
  { s with
    revision := s.revision + 1
    entries
    history := s.history ++ events
    feeds := s.feeds.map (Feed.deliver (s.revision + 1) events) }

theorem publish_eq_commit (s : Store) (entries : Dictionary Bytes KeyValue) {events : List Event}
    (h : events ≠ []) :
    publish { s with revision := s.revision + 1, entries } events = s.commit entries events :=
  if_neg (by simpa using h)

/-- Operations take effect in one change, or have nothing to change. -/
inductive Performs (s : Store) (ops : List TxnOp) : Store → Prop
  | nothing : (∀ op ∈ ops, ¬ op.Changes s) → Performs s ops s
  | commit {events : List Event} : (∃ op ∈ ops, op.Changes s) →
      s.Change (ops.foldl (TxnOp.enter (s.revision + 1)) s.entries) events →
      Performs s ops (s.commit (ops.foldl (TxnOp.enter (s.revision + 1)) s.entries) events)

theorem enter_of_not_changes {op : TxnOp} (h : ¬ op.Changes s) (revision : Int) :
    op.enter revision s.entries = s.entries := by
  cases op with
  | get key => rfl
  | put key value lease => exact absurd trivial h
  | delete key => exact Dictionary.erase_of_not_contains h

theorem foldl_enter_of_not_changes {ops : List TxnOp} (h : ∀ op ∈ ops, ¬ op.Changes s)
    (revision : Int) : ops.foldl (TxnOp.enter revision) s.entries = s.entries := by
  induction ops with
  | nil => rfl
  | cons op ops ih =>
    rw [List.foldl_cons, enter_of_not_changes (h op (.head _))]
    exact ih fun op hop => h op (.tail _ hop)

theorem Performs.entries {ops : List TxnOp} (h : s.Performs ops s') :
    s'.entries = ops.foldl (TxnOp.enter (s.revision + 1)) s.entries := by
  cases h with
  | nothing h => exact (foldl_enter_of_not_changes h _).symm
  | commit _ _ => rfl

theorem Performs.exists_eq {ops : List TxnOp} (h : s.Performs ops s') :
    ∃ revision entries history feeds, s' = { s with revision, entries, history, feeds } := by
  cases h <;> exact ⟨_, _, _, _, rfl⟩

theorem performs_write (s : Store) (key value : Bytes) (lease : Option Int) :
    s.Performs [.put key value lease] (s.write key value lease) := by
  have heq : s.write key value lease = s.commit
      ([.put key value lease].foldl (TxnOp.enter (s.revision + 1)) s.entries)
      [.put key value (s.revision + 1)] := publish_eq_commit s _ (List.cons_ne_nil _ _)
  rw [heq]
  refine .commit ⟨_, .head _, trivial⟩ ⟨List.cons_ne_nil _ _, ?_, Dictionary.mapValues_insert ..⟩
  intro e he
  rw [List.mem_singleton.1 he]
  rfl

theorem put_cases (s : Store) (now : Nat) (key value : Bytes) (lease : Option Int) :
    (∃ e, s.put now key value lease = (.error e, s.touch now)) ∨
      (s.touch now).checkLease lease = .ok () ∧
        s.put now key value lease = (.ok (), (s.touch now).write key value lease) := by
  unfold put
  cases h : (s.touch now).checkLease lease with
  | error e => exact .inl ⟨e, by simp only [h]⟩
  | ok u => exact .inr ⟨rfl, by simp only [h]⟩

theorem performs_delete (s : Store) (now : Nat) (key : Bytes) :
    (s.touch now).Performs [.delete key] (s.delete now key) := by
  unfold delete
  generalize s.touch now = s
  simp only
  split
  · next hc =>
    rw [publish_eq_commit s _ (List.cons_ne_nil _ _)]
    refine .commit ⟨_, .head _, hc⟩ ⟨List.cons_ne_nil _ _, ?_, Dictionary.mapValues_erase ..⟩
    intro e he
    rw [List.mem_singleton.1 he]
    rfl
  · next hc => exact .nothing fun op hop => List.mem_singleton.1 hop ▸ hc

/-! ## Transactions -/

/-- An operation within a transaction adds its event if it takes effect, and tells so. -/
theorem applyOp_cases (revision : Int) (st : Store × List Event) (op : TxnOp) :
    (op.Changes st.1 ∧ TookEffect (applyOp revision st op).2 ∧ ∃ e : Event,
      e.revision = revision ∧ (applyOp revision st op).1.1.records = e.record st.1.records ∧
      (applyOp revision st op).1 =
        ({ st.1 with entries := op.enter revision st.1.entries }, st.2 ++ [e])) ∨
    (¬ op.Changes st.1 ∧ ¬ TookEffect (applyOp revision st op).2 ∧
      (applyOp revision st op).1 = st) := by
  cases op with
  | get key => exact .inr ⟨id, by simp [TookEffect, applyOp], rfl⟩
  | put key value lease =>
    exact .inl ⟨trivial, .inl rfl, .put key value revision, rfl, Dictionary.mapValues_insert ..,
      rfl⟩
  | delete key =>
    simp only [applyOp]
    split
    · next hc =>
      exact .inl ⟨hc, .inr rfl, .delete key revision, rfl, Dictionary.mapValues_erase .., rfl⟩
    · next hc => exact .inr ⟨hc, by simp [TookEffect], rfl⟩

structure Applied (revision : Int) (st : Store × List Event) (ops : List TxnOp)
    (out : (Store × List Event) × List TxnReply) (events : List Event) : Prop where
  store : out.1.1 = { st.1 with entries := ops.foldl (TxnOp.enter revision) st.1.entries }
  told : out.1.2 = st.2 ++ events
  dated : ∀ e ∈ events, e.revision = revision
  records : out.1.1.records = recount events st.1.records
  ne_nil : events ≠ [] ↔ ∃ op ∈ ops, op.Changes st.1
  replies : (∃ op ∈ ops, op.Changes st.1) ↔ ∃ r ∈ out.2, TookEffect r

theorem exists_applied (revision : Int) (st : Store × List Event) (ops : List TxnOp) :
    ∃ events, Applied revision st ops (applyOps revision st ops) events := by
  induction ops generalizing st with
  | nil => exact ⟨[], rfl, (List.append_nil _).symm, nofun, rfl, by simp, by simp [applyOps]⟩
  | cons op ops ih =>
    obtain ⟨events, h⟩ := ih (applyOp revision st op).1
    have hcons : applyOps revision st (op :: ops) =
        ((applyOps revision (applyOp revision st op).1 ops).1, (applyOp revision st op).2 ::
          (applyOps revision (applyOp revision st op).1 ops).2) := rfl
    rcases applyOp_cases revision st op with ⟨hop, hr, e, hdate, hrec, heq⟩ | ⟨hop, hr, heq⟩
    · have hsome : ∃ op' ∈ op :: ops, op'.Changes st.1 := ⟨op, .head _, hop⟩
      refine ⟨e :: events, ?_, ?_, ?_, ?_, iff_of_true (List.cons_ne_nil _ _) hsome,
        iff_of_true hsome ⟨_, .head _, hr⟩⟩
      · rw [hcons, h.store, heq]
        rfl
      · rw [hcons, h.told, heq, List.append_assoc]
        rfl
      · exact List.forall_mem_cons.2 ⟨hdate, h.dated⟩
      · rw [hcons, h.records, hrec]
        rfl
    · -- nothing has changed, so the other operations find the store as it was
      have hsome : (∃ op' ∈ op :: ops, op'.Changes st.1) ↔ ∃ op' ∈ ops, op'.Changes st.1 := by
        simp [hop]
      rw [hcons]
      rw [heq] at h ⊢
      refine ⟨events, ?_, h.told, h.dated, h.records, h.ne_nil.trans hsome.symm, ?_⟩
      · rw [h.store, List.foldl_cons, enter_of_not_changes hop]
      · rw [hsome, h.replies]
        simp [hr]

theorem checkLeases_congr (h : s'.leases = s.leases) (ops : List TxnOp) :
    s'.checkLeases ops = s.checkLeases ops := by
  induction ops with
  | nil => rfl
  | cons op ops ih =>
    cases op with
    | get key => exact ih
    | put key value lease => simp only [checkLeases, ih, checkLease, h]
    | delete key => exact ih

def tried (s : Store) (now : Nat) (ops : List TxnOp) : Store :=
  { s.touch now with txnSizes := (s.touch now).txnSizes ++ [ops.length] }

theorem checkLeases_tried (s : Store) (now : Nat) (ops : List TxnOp) :
    (s.tried now ops).checkLeases ops = (s.touch now).checkLeases ops :=
  checkLeases_congr (by rfl) ops

def carryOut (s : Store) (ops : List TxnOp) : List TxnReply × Store :=
  let out := applyOps (s.revision + 1) (s, []) ops
  (out.2, publish (if out.1.2.isEmpty then out.1.1
    else { out.1.1 with revision := s.revision + 1 }) out.1.2)

theorem txn_eq (s : Store) (now : Nat) (ops : List TxnOp) : s.txn now ops =
    match (s.tried now ops).checkLeases ops with
    | .error e => (.error e, s.tried now ops)
    | .ok () => (.ok ((s.tried now ops).carryOut ops).1, ((s.tried now ops).carryOut ops).2) := rfl

theorem performs_carryOut (s : Store) (ops : List TxnOp) : s.Performs ops (s.carryOut ops).2 ∧
    ((∃ op ∈ ops, op.Changes s) ↔ ∃ r ∈ (s.carryOut ops).1, TookEffect r) := by
  obtain ⟨events, ha⟩ := exists_applied (s.revision + 1) (s, []) ops
  refine ⟨?_, ha.replies⟩
  have htold : (applyOps (s.revision + 1) (s, []) ops).1.2 = events := ha.told
  have hrec := ha.records
  rw [ha.store] at hrec
  simp only [carryOut, htold, ha.store, List.isEmpty_iff]
  by_cases hnil : events = []
  · have hno : ∀ op ∈ ops, ¬ op.Changes s := fun op hop hc => ha.ne_nil.2 ⟨op, hop, hc⟩ hnil
    rw [if_pos hnil, hnil, foldl_enter_of_not_changes hno]
    exact .nothing hno
  · rw [if_neg hnil, publish_eq_commit s _ hnil]
    exact .commit (ha.ne_nil.1 hnil) ⟨hnil, ha.dated, hrec⟩

theorem txn_of_ok {ops : List TxnOp} (h : (s.touch now).checkLeases ops = .ok ()) :
    s.txn now ops =
      (.ok ((s.tried now ops).carryOut ops).1, ((s.tried now ops).carryOut ops).2) := by
  rw [txn_eq, checkLeases_tried, h]

theorem txn_of_error {ops : List TxnOp} {e : Error} (h : (s.touch now).checkLeases ops = .error e) :
    s.txn now ops = (.error e, s.tried now ops) := by
  rw [txn_eq, checkLeases_tried, h]

/-! ## The end of a lease -/

theorem mem_boundKeys_iff :
    key ∈ (s.entries.filter fun _ kv => kv.lease == id).keys ↔ s.Binds id key := by
  rw [Dictionary.mem_keys_iff]
  simp [Binds, Dictionary.find?_filter, Option.filter_eq_some_iff]

/-- The lease is gone, and its keys are still there. -/
def release (s : Store) (id : Int) : Store := { s with leases := s.leases.erase id }

/-- What comes of the end of a lease. -/
inductive Drops (s : Store) (id : Int) : Store → Prop
  | absent : s.leases.contains id = false → Drops s id s
  | unbound : s.leases.contains id = true → (∀ key, ¬ s.Binds id key) → Drops s id (s.release id)
  | bound {events : List Event} : s.leases.contains id = true → (∃ key, s.Binds id key) →
      (s.release id).Change (s.entries.filter fun _ kv => kv.lease != id) events →
      Drops s id ((s.release id).commit (s.entries.filter fun _ kv => kv.lease != id) events)

theorem records_unbound (s : Store) (id revision : Int) :
    records { s with entries := s.entries.filter fun _ kv => kv.lease != id } =
      recount ((s.entries.filter fun _ kv => kv.lease == id).keys.map (.delete · revision))
        s.records := by
  refine Dictionary.ext_find? fun key => ?_
  rw [recount_deletes, Dictionary.find?_foldl_erase]
  simp only [mem_boundKeys_iff, Dictionary.find?_mapValues, Dictionary.find?_filter, records, Binds]
  cases s.entries.find? key with
  | none => simp
  | some kv => by_cases hl : kv.lease = id <;> simp [Option.filter, hl]

theorem drops_dropLease (s : Store) (id : Int) : s.Drops id (s.dropLease id) := by
  unfold dropLease
  split
  · next hc => exact .absent (by simpa using hc)
  · next hc =>
    have hc : s.leases.contains id = true := by simpa using hc
    simp only
    split
    · next hsize =>
      refine .unbound hc fun key hkey => ?_
      have hm := mem_boundKeys_iff.2 hkey
      rw [Dictionary.keys, List.eq_nil_of_length_eq_zero hsize] at hm
      cases hm
    · next hsize =>
      have hne : (s.entries.filter fun _ kv => kv.lease == id).keys ≠ [] := fun hnil =>
        hsize (by rw [← Dictionary.length_keys, hnil]; rfl)
      obtain ⟨key, hkey⟩ := List.exists_mem_of_ne_nil _ hne
      have hevents : (s.entries.filter fun _ kv => kv.lease == id).keys.map
          (Event.delete · (s.revision + 1)) ≠ [] := mt List.map_eq_nil_iff.1 hne
      have hdated : ∀ e ∈ (s.entries.filter fun _ kv => kv.lease == id).keys.map
          (Event.delete · (s.revision + 1)), e.revision = s.revision + 1 := by
        intro e he
        obtain ⟨_, -, rfl⟩ := List.mem_map.1 he
        rfl
      have hd := Drops.bound hc ⟨key, mem_boundKeys_iff.1 hkey⟩
        ⟨hevents, hdated, records_unbound s id _⟩
      rw [← publish_eq_commit (s.release id) _ hevents] at hd
      exact hd

theorem find?_leases_dropLease (s : Store) (id id' : Int) :
    (s.dropLease id).leases.find? id' = if id' = id then none else s.leases.find? id' := by
  have hd := s.drops_dropLease id
  generalize s.dropLease id = s' at hd
  cases hd with
  | absent hc =>
    split
    · next hid => simpa [Dictionary.contains, hid] using hc
    · rfl
  | unbound _ _ => exact Dictionary.find?_erase ..
  | bound _ _ _ => exact Dictionary.find?_erase ..

theorem find?_entries_dropLease (s : Store) (id : Int) (key : Bytes) :
    (s.dropLease id).entries.find? key =
      (s.entries.find? key).filter fun kv => !(s.leases.contains id && kv.lease == id) := by
  have hd := s.drops_dropLease id
  generalize s.dropLease id = s' at hd
  cases hd with
  | absent hc => cases s.entries.find? key <;> simp [Option.filter, hc]
  | unbound hc hno =>
    cases hf : s.entries.find? key with
    | none => exact hf
    | some kv =>
      have hne : kv.lease ≠ id := fun hid => hno key ⟨kv, hf, hid⟩
      simpa [Option.filter, hne, release] using hf
  | bound hc _ _ =>
    simp only [hc, Bool.true_and]
    exact Dictionary.find?_filter ..

theorem exists_dropLease_eq (s : Store) (id : Int) : ∃ revision entries leases history feeds,
    s.dropLease id = { s with revision, entries, leases, history, feeds } := by
  have hd := s.drops_dropLease id
  generalize s.dropLease id = s' at hd
  cases hd <;> exact ⟨_, _, _, _, _, rfl⟩

/-! ## Leases that are due -/

theorem mem_expired_iff :
    id ∈ s.expired now ↔ ∃ l, s.leases.find? id = some l ∧ l.expiresAt ≤ now := by
  rw [expired, Dictionary.mem_keys_iff]
  simp [Dictionary.find?_filter, Option.filter_eq_some_iff]

theorem expired_eq_nil_iff :
    s.expired now = [] ↔ ∀ id l, s.leases.find? id = some l → now < l.expiresAt := by
  rw [List.eq_nil_iff_forall_not_mem]
  simp only [mem_expired_iff, not_exists, not_and, not_le]

theorem touch_eq_self (h : s.expired now = []) : s.touch now = s := by rw [touch, h]; rfl

theorem find?_leases_foldl_dropLease (ids : List Int) (s : Store) (id : Int) :
    (ids.foldl dropLease s).leases.find? id = if id ∈ ids then none else s.leases.find? id := by
  induction ids generalizing s with
  | nil => simp
  | cons id' ids ih =>
    rw [List.foldl_cons, ih, find?_leases_dropLease]
    by_cases hid : id = id' <;> simp [hid]

theorem find?_leases_touch (s : Store) (now : Nat) (id : Int) :
    (s.touch now).leases.find? id = (s.leases.find? id).filter (now < ·.expiresAt) := by
  rw [touch, find?_leases_foldl_dropLease]
  by_cases h : id ∈ s.expired now
  · obtain ⟨l, hl, hle⟩ := mem_expired_iff.1 h
    simp [h, hl, Option.filter, Nat.not_lt.2 hle]
  · rw [if_neg h]
    cases hl : s.leases.find? id with
    | none => rfl
    | some l =>
      have hlt : now < l.expiresAt := Nat.lt_of_not_le fun hle => h (mem_expired_iff.2 ⟨l, hl, hle⟩)
      simp [Option.filter, hlt]

theorem expired_touch (s : Store) (now : Nat) : (s.touch now).expired now = [] := by
  rw [expired_eq_nil_iff]
  intro id l hl
  rw [find?_leases_touch, Option.filter_eq_some_iff] at hl
  simpa using hl.2

theorem find?_entries_foldl_dropLease (ids : List Int) (s : Store) (key : Bytes) :
    (ids.foldl dropLease s).entries.find? key =
      (s.entries.find? key).filter fun kv =>
        !(ids.contains kv.lease && s.leases.contains kv.lease) := by
  induction ids generalizing s with
  | nil => cases hf : s.entries.find? key <;> simp [Option.filter, hf]
  | cons id ids ih =>
    rw [List.foldl_cons, ih, find?_entries_dropLease]
    cases hf : s.entries.find? key with
    | none => rfl
    | some kv =>
      have hleft : (s.dropLease id).leases.contains kv.lease =
          (kv.lease != id && s.leases.contains kv.lease) := by
        rw [Dictionary.contains, find?_leases_dropLease]
        by_cases hid : kv.lease = id <;> simp [hid, Dictionary.contains]
      by_cases hid : kv.lease = id
      · rw [hid] at hleft
        cases hc : s.leases.contains id <;> simp [Option.filter, hleft, hid, hc]
      · simp [Option.filter, hleft, hid]

/-- The keys that are bound to a lease that is due are gone. -/
theorem find?_entries_touch (s : Store) (now : Nat) (key : Bytes) :
    (s.touch now).entries.find? key =
      (s.entries.find? key).filter fun kv => kv.lease ∉ s.expired now := by
  rw [touch, find?_entries_foldl_dropLease]
  congr 1
  funext kv
  by_cases h : kv.lease ∈ s.expired now
  · obtain ⟨l, hl, -⟩ := mem_expired_iff.1 h
    simp [h, Dictionary.contains, hl]
  · simp [h]

theorem exists_touch_eq (s : Store) (now : Nat) : ∃ revision entries leases history feeds,
    s.touch now = { s with revision, entries, leases, history, feeds } := by
  unfold touch
  induction s.expired now generalizing s with
  | nil => exact ⟨s.revision, s.entries, s.leases, s.history, s.feeds, rfl⟩
  | cons id ids ih =>
    obtain ⟨_, _, _, _, _, h⟩ := exists_dropLease_eq s id
    obtain ⟨_, _, _, _, _, h'⟩ := ih (s.dropLease id)
    exact ⟨_, _, _, _, _, by rw [List.foldl_cons, h', h]⟩

end Store

end ServiceDirectory
