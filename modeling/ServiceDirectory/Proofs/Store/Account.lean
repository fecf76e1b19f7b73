import ServiceDirectory.Proofs.Store.Bound

/-! # The account of the store

Each change of a store, be it an operation that takes effect or the end of a lease with its keys,
raises the revision by one and records its events there; what is not a change moves neither keys nor
revision nor log (`Advances`). So a store that is used from the start, with leases that it knows,
can be accounted for by its log: counting all events again gives the present keys with their values
and revisions, and the events of one revision come from one change (`accounts_of_reachable`).
-/

namespace ServiceDirectory

namespace Request

def fails : (q : Request) → q.Answer → Bool
  | get _, .error _ | getRange _, .error _ | put _ _ _, .error _ | delete _, .error _
  | txn _, .error _ | grant _, .error _ | leaseStatus _, .error _ | openKeepAlive _, .error _
  | openWatch _ _, .error _ | sendKeepAlive _ _, .error _ | nextRenewal _, .error _
  | nextBatch _, .error _ => true
  | _, _ => false

end Request

namespace Store

variable {s s' t : Store} {now : Nat} {changes : Prop} {x : Subject} {xs : List Subject}

/-! ## Changes -/

/-- One step of the account: if there is a change, it is made at the next revision and recorded
there; otherwise all is kept. -/
inductive Advances (changes : Prop) (s s' : Store) : Prop
  | keeps : ¬ changes → s.Kept s' → Advances changes s s'
  | commits (events : List Event) : changes → events ≠ [] →
      (∀ e ∈ events, e.revision = s'.revision) → s'.revision = s.revision + 1 →
      s'.history = s.history ++ events → s'.records = recount events s.records →
      Advances changes s s'

theorem Advances.kept (h : s.Advances changes s') (hc : ¬ changes) : s.Kept s' := by
  cases h with
  | keeps _ hk => exact hk
  | commits _ hp => exact absurd hp hc

theorem Kept.records (h : s.Kept s') : s'.records = s.records := by
  rw [Store.records, h.entries, Store.records]

theorem Kept.changes_iff (h : s.Kept s') (op : TxnOp) : op.Changes s' ↔ op.Changes s := by
  cases op with
  | delete key => rw [TxnOp.Changes, h.entries, TxnOp.Changes]
  | _ => exact .rfl

theorem Change.advances {entries : Dictionary Bytes KeyValue} {events : List Event}
    (h : t.Change entries events) (hk : s.Kept t) (hc : changes) :
    s.Advances changes (t.commit entries events) := by
  refine .commits events hc h.ne_nil h.dated ?_ ?_ ?_
  · exact congrArg (· + 1) hk.revision
  · exact congrArg (· ++ events) hk.history
  · exact h.records.trans (congrArg (recount events) hk.records)

theorem Performs.advances {ops : List TxnOp} (h : t.Performs ops s') (hk : s.Kept t)
    (hiff : changes ↔ ∃ op ∈ ops, op.Changes t) : s.Advances changes s' := by
  cases h with
  | nothing hno =>
    refine .keeps (fun hc => ?_) hk
    obtain ⟨op, hop, hc⟩ := hiff.1 hc
    exact hno op hop hc
  | commit hc hchange => exact hchange.advances hk (hiff.2 hc)

/-- The end of a lease is a change if keys are bound to it. -/
theorem advances_dropLease (s : Store) (id : Int) :
    s.Advances (s.leases.contains id = true ∧ ∃ key, s.Binds id key) (s.dropLease id) := by
  have hd := s.drops_dropLease id
  generalize s.dropLease id = s' at hd
  have hrelease : s.Kept (s.release id) := ⟨rfl, rfl, rfl⟩
  cases hd with
  | absent hc => exact .keeps (fun h => by simp [hc] at h) (.refl s)
  | unbound _ hno => exact .keeps (fun ⟨_, key, hkey⟩ => hno key hkey) hrelease
  | bound hc hbound hchange => exact hchange.advances hrelease ⟨hc, hbound⟩

/-! ## Requests -/

/-- A request changes keys after the leases that are due have ended, or nothing. -/
structure Answers (now : Nat) (s : Store) (q : Request) (a : q.Answer) (s' : Store) : Prop where
  advances : (s.touch now).Advances (q.Changes (s.touch now) a) s' ∨
    ¬ q.Changes (s.touch now) a ∧ s.Kept s'
  failure : q.fails a = true → (s.touch now).Kept s' ∨ s.Kept s'

theorem not_changes_of_fails {q : Request} {a : q.Answer} (h : q.fails a = true) :
    ¬ q.Changes s a := by
  rintro ⟨hs, op, hop, -⟩
  cases q with
  | put key value lease => cases a with
    | error e => cases hs
    | ok u => cases h
  | delete key => cases a with
    | error e => cases hs
    | ok u => cases h
  | txn ops => cases a with
    | error e => cases hs
    | ok replies => cases h
  | _ => cases hop

theorem Answers.of_advances {q : Request} {a : q.Answer}
    (h : (s.touch now).Advances (q.Changes (s.touch now) a) s' ∨
      ¬ q.Changes (s.touch now) a ∧ s.Kept s') : Answers now s q a s' where
  advances := h
  failure hf := h.imp (·.kept (not_changes_of_fails hf)) And.right

theorem Rests.kept (h : Rests now xs s s') (hx : .keys ∉ xs) :
    s.Kept s' ∨ (s.touch now).Kept s' := h.imp (·.kept hx) (·.kept hx)

theorem Served.answers {q : Request} {a : q.Answer} (h : Served now s q a s') :
    Answers now s q a s' := by
  refine .of_advances ?_
  cases h with
  | rests hq hr =>
    have hno : ¬ q.Changes (s.touch now) a := fun ⟨_, op, hop, _⟩ => by
      rw [hq] at hop
      cases hop
    rcases hr.kept (keys_notMem_subjects q s) with hk | hk
    · exact .inr ⟨hno, hk⟩
    · exact .inl (.keeps hno hk)
  | refused hs h =>
    refine .inl (.keeps (fun hc => ?_) (h.kept (by simp)))
    cases hs.symm.trans hc.1
  | done hs _ h hp =>
    have hk : (s.touch now).Kept _ := h.kept (by simp)
    refine .inl (hp.advances hk ?_)
    simp only [Request.Changes, hs, true_and, hk.changes_iff]

/-! ## Bound keys -/

/-- Keys are bound to leases that are there, if to any. -/
def IsBacked (s : Store) : Prop :=
  ∀ key kv, s.entries.find? key = some kv → kv.lease ≠ 0 → s.leases.contains kv.lease = true

theorem IsBacked.dropLease (h : s.IsBacked) (id : Int) : (s.dropLease id).IsBacked := by
  intro key kv hf hne
  rw [find?_entries_dropLease, Option.filter_eq_some_iff] at hf
  obtain ⟨hf, hstays⟩ := hf
  have hc := h key kv hf hne
  rw [Dictionary.contains, find?_leases_dropLease]
  by_cases hid : kv.lease = id
  · subst hid
    simp [hc] at hstays
  · rw [if_neg hid]
    exact hc

theorem IsBacked.touch (h : s.IsBacked) (now : Nat) : (s.touch now).IsBacked := by
  unfold Store.touch
  induction s.expired now generalizing s with
  | nil => exact h
  | cons id ids ih => exact ih (h.dropLease id)

theorem contains_insert {leases : Dictionary Int Lease} {id : Int}
    (h : leases.contains id = true) (id' : Int) (l : Lease) :
    (leases.insert id' l).contains id = true := by
  rw [Dictionary.contains, Dictionary.find?_insert]
  split
  · rfl
  · exact h

theorem Effect.isBacked (h : Effect now x s s') (hk : x ≠ .keys) (hd : x ≠ .due)
    (hl : ∀ id, x ≠ .lease id) (hb : s.IsBacked) : s'.IsBacked := by
  cases h with
  | commit => exact absurd rfl hk
  | expire => exact absurd rfl hd
  | revoke _ id => exact absurd rfl (hl id)
  | grant => exact fun key kv hf hne => contains_insert (hb key kv hf hne) _ _
  | renew => exact fun key kv hf hne => contains_insert (hb key kv hf hne) _ _
  | _ => exact hb

theorem Does.isBacked (h : Does now xs s s') (hk : .keys ∉ xs) (hd : .due ∉ xs)
    (hl : ∀ id, .lease id ∉ xs) (hb : s.IsBacked) : s'.IsBacked :=
  h.preserves (fun hm he => he.isBacked (ne_of_mem_of_not_mem hm hk) (ne_of_mem_of_not_mem hm hd)
    fun id => ne_of_mem_of_not_mem hm (hl id)) hb

theorem Rests.isBacked (h : Rests now xs s s') (hk : .keys ∉ xs) (hd : .due ∉ xs)
    (hl : ∀ id, .lease id ∉ xs) (hb : s.IsBacked) : s'.IsBacked :=
  h.elim (·.isBacked hk hd hl hb) (·.isBacked hk hd hl (hb.touch now))

theorem contains_of_checkLease {lease : Option Int} (h : s.checkLease lease = .ok ())
    (hne : lease.getD 0 ≠ 0) : s.leases.contains (lease.getD 0) = true := by
  cases lease with
  | none => exact absurd rfl hne
  | some id =>
    unfold checkLease at h
    simp only at h
    split at h
    · cases h
    · next hc =>
      simp only [Option.getD_some] at hne ⊢
      simpa [hne] using hc

theorem checkLease_of_checkLeases {ops : List TxnOp} (h : s.checkLeases ops = .ok ())
    {key value : Bytes} {lease : Option Int} (hop : .put key value lease ∈ ops) :
    s.checkLease lease = .ok () := by
  induction ops with
  | nil => cases hop
  | cons op ops ih =>
    cases op with
    | put key' value' lease' =>
      rw [checkLeases] at h
      cases hl : s.checkLease lease' with
      | error e =>
        rw [hl] at h
        cases h
      | ok u =>
        rw [hl] at h
        rcases List.mem_cons.1 hop with heq | hop
        · cases heq
          exact hl
        · exact ih h hop
    | _ => exact ih h ((List.mem_cons.1 hop).resolve_left fun he => by cases he)

theorem Performs.isBacked {ops : List TxnOp} (h : t.Performs ops s')
    (hl : t.checkLeases ops = .ok ()) (hb : t.IsBacked) : s'.IsBacked := by
  have hleases : s'.leases = t.leases := by
    obtain ⟨_, _, _, _, heq⟩ := h.exists_eq
    rw [heq]
  intro key kv hf hne
  rw [h.entries] at hf
  rw [hleases]
  rcases TxnOp.put_mem_of_find?_foldl_enter hf with hf | ⟨value, lease, hop, heq⟩
  · exact hb key kv hf hne
  · rw [heq] at hne ⊢
    exact contains_of_checkLease (checkLease_of_checkLeases hl hop) hne

theorem Served.isBacked {q : Request} {a : q.Answer} (h : Served now s q a s')
    (hb : s.IsBacked) : s'.IsBacked := by
  cases h with
  | rests _ hr =>
    exact hr.isBacked (keys_notMem_subjects q s) (by simp [Request.subjects])
      (by simp [Request.subjects]) hb
  | refused _ h => exact h.isBacked (by simp) (by simp) (by simp) (hb.touch now)
  | done _ hl h hp =>
    exact hp.isBacked hl (h.isBacked (by simp) (by simp) (by simp) (hb.touch now))

/-! ## Runs -/

/-- What is done to a store. A lease that a key is to be bound to is always checked, and a lease may
end at any time. -/
inductive Turn : Store → Store → Prop
  | serve {s s' : Store} {now : Nat} {q : Request} {a : q.Answer} :
      s.serve now q = some (a, s') → Turn s s'
  | dropLease (s : Store) (id : Int) : Turn s (s.dropLease id)
  | touch (s : Store) (now : Nat) : Turn s (s.touch now)
  | revoke (s : Store) (now : Nat) (id : Int) : Turn s (s.revoke now id)
  | setAvailable (s : Store) (now : Nat) (up : Bool) : Turn s (s.setAvailable now up)
  | pausePuts (s : Store) (paused : Bool) : Turn s { s with putsPaused := paused }

def Reachable (s : Store) : Prop := ∃ maxTxnOps, Relation.ReflTransGen Turn (empty maxTxnOps) s

def Continues : Store → Store → Prop :=
  Relation.ReflTransGen fun s s' => ∃ changes, s.Advances changes s'

theorem Advances.continues (h : s.Advances changes s') : s.Continues s' := .single ⟨changes, h⟩

theorem Kept.continues (h : s.Kept s') : s.Continues s' := .single ⟨False, .keeps id h⟩

/-- Leases end one after the other; the keys bound to one go at a revision of their own. -/
inductive Ends : List Int → Store → Store → Prop
  | nil (s : Store) : Ends [] s s
  | cons {s s' : Store} {id : Int} {ids : List Int} :
      s.Advances (s.leases.contains id = true ∧ ∃ key, s.Binds id key) (s.dropLease id) →
      Ends ids (s.dropLease id) s' → Ends (id :: ids) s s'

theorem ends_touch (s : Store) (now : Nat) : Ends (s.expired now) s (s.touch now) := by
  unfold touch
  induction s.expired now generalizing s with
  | nil => exact .nil s
  | cons id ids ih => exact .cons (advances_dropLease s id) (ih _)

theorem Ends.continues {ids : List Int} (h : Ends ids s s') : s.Continues s' := by
  induction h with
  | nil s => exact .refl
  | cons h _ ih => exact h.continues.trans ih

theorem Rests.continues (h : Rests now xs s s') (hx : .keys ∉ xs) : s.Continues s' :=
  (h.kept hx).elim (·.continues) fun hk => (ends_touch s now).continues.trans hk.continues

theorem Turn.continues (h : Turn s s') : s.Continues s' := by
  cases h with
  | @serve _ now q a h =>
    rcases (served_of_serve h).answers.advances with h | ⟨-, h⟩
    · exact (ends_touch s now).continues.trans h.continues
    · exact h.continues
  | dropLease id => exact (advances_dropLease s id).continues
  | touch now => exact (ends_touch s now).continues
  | revoke now id => exact (ends_touch s now).continues.trans (advances_dropLease _ id).continues
  | setAvailable now up => exact (rests_setAvailable s now up).continues (by simp)
  | pausePuts paused => exact Kept.continues ⟨rfl, rfl, rfl⟩

theorem Turn.isBacked (h : Turn s s') (hb : s.IsBacked) : s'.IsBacked := by
  cases h with
  | serve h => exact (served_of_serve h).isBacked hb
  | dropLease id => exact hb.dropLease id
  | touch now => exact hb.touch now
  | revoke now id => exact (hb.touch now).dropLease id
  | setAvailable now up =>
    exact (rests_setAvailable s now up).isBacked (by simp) (by simp) (by simp) hb
  | pausePuts paused => exact hb

structure Explained (s : Store) : Prop where
  records : s.records = recount s.history Dictionary.empty
  ascending : s.history.Pairwise fun e f => e.revision ≤ f.revision
  dated : ∀ e ∈ s.history, 1 ≤ e.revision ∧ e.revision ≤ s.revision
  nonneg : 0 ≤ s.revision

theorem explained_empty (maxTxnOps : Nat) : (empty maxTxnOps).Explained :=
  ⟨rfl, .nil, nofun, le_rfl⟩

theorem Explained.advances (h : s.Explained) (ha : s.Advances changes s') : s'.Explained := by
  cases ha with
  | keeps _ hk =>
    obtain ⟨he, hr, hh⟩ := hk
    refine ⟨?_, by rw [hh]; exact h.ascending, by rw [hh, hr]; exact h.dated,
      by rw [hr]; exact h.nonneg⟩
    rw [Store.records, he, hh]
    exact h.records
  | commits events _ _ hdate hr hh hrec =>
    refine ⟨by rw [hrec, h.records, hh, recount_append], ?_, ?_, ?_⟩
    · rw [hh]
      refine List.pairwise_append.2 ⟨h.ascending, ?_, fun e he f hf => ?_⟩
      · exact List.pairwise_of_forall_mem_list fun e he f hf =>
          (hdate e he).trans_le (hdate f hf).ge
      · have := (h.dated e he).2
        have := hdate f hf
        omega
    · intro e he
      have := h.nonneg
      rw [hh] at he
      rcases List.mem_append.1 he with he | he
      · have := h.dated e he
        omega
      · have := hdate e he
        omega
    · have := h.nonneg
      omega

theorem Explained.continues (h : s.Explained) (hc : s.Continues s') : s'.Explained := by
  induction hc with
  | refl => exact h
  | tail _ ha ih => exact ih.advances ha.choose_spec

theorem Reachable.explained (h : s.Reachable) : s.Explained ∧ s.IsBacked := by
  obtain ⟨maxTxnOps, hrun⟩ := h
  induction hrun with
  | refl => exact ⟨explained_empty maxTxnOps, nofun⟩
  | tail _ ht ih => exact ⟨ih.1.continues ht.continues, ht.isBacked ih.2⟩

/-- Whatever is recorded later is dated later. -/
theorem Continues.later (h : s.Continues s') : s.revision ≤ s'.revision ∧
    ∃ events, s'.history = s.history ++ events ∧ ∀ e ∈ events, s.revision < e.revision := by
  induction h with
  | refl => exact ⟨le_rfl, [], (List.append_nil _).symm, nofun⟩
  | tail _ ha ih =>
    obtain ⟨hle, events, hh, hlt⟩ := ih
    obtain ⟨_, ha⟩ := ha
    cases ha with
    | keeps _ hk => exact ⟨hk.revision ▸ hle, events, hk.history ▸ hh, hlt⟩
    | commits more _ _ hdate hr hh' _ =>
      refine ⟨by omega, events ++ more, by rw [hh', hh, List.append_assoc], fun e he => ?_⟩
      rcases List.mem_append.1 he with he | he
      · exact hlt e he
      · have := hdate e he
        omega

theorem fails_of_refused? {e : Error} {q : Request} {a : q.Answer} (h : q.refused? e = some a) :
    q.fails a = true := by
  cases q <;> cases h <;> rfl

theorem answers_of_ask? {q : Request} {a : q.Answer} (h : s.ask? now q = some (a, s')) :
    Answers now s q a s' := by
  rcases ask?_cases h with h | ⟨rfl, e, he⟩
  · exact (served_of_serve h).answers
  · exact .of_advances (.inr ⟨not_changes_of_fails (fails_of_refused? he), .refl _⟩)

theorem replies_txn {ops : List TxnOp} {replies : List TxnReply}
    (h : s.txn now ops = (.ok replies, s')) :
    (∃ op ∈ ops, op.Changes (s.touch now)) ↔ ∃ r ∈ replies, TookEffect r := by
  cases hl : (s.touch now).checkLeases ops with
  | error e =>
    rw [txn_of_error hl] at h
    cases h
  | ok u =>
    rw [txn_of_ok hl] at h
    cases h
    have hk : (s.touch now).Kept (s.tried now ops) := ⟨rfl, rfl, rfl⟩
    simp only [← hk.changes_iff]
    exact (performs_carryOut _ ops).2

/-- The account of a store, and of what can be done to it next. -/
structure Accounts (s : Store) : Prop where
  explained : s.Explained
  backed : s.IsBacked
  later : ∀ s', Relation.ReflTransGen Turn s s' → s.revision ≤ s'.revision ∧
    ∃ events, s'.history = s.history ++ events ∧ ∀ e ∈ events, s.revision < e.revision
  touch (now : Nat) : Ends (s.expired now) s (s.touch now)
  serve : ∀ now q a s', s.serve now q = some (a, s') → Answers now s q a s'
  ask : ∀ now q a s', s.ask? now q = some (a, s') → Answers now s q a s'
  replies : ∀ now ops replies s', s.txn now ops = (.ok replies, s') →
    ((∃ op ∈ ops, op.Changes (s.touch now)) ↔ ∃ r ∈ replies, TookEffect r)
  revoke (now : Nat) (id : Int) : (s.touch now).Advances
    ((s.touch now).leases.contains id = true ∧ ∃ key, (s.touch now).Binds id key) (s.revoke now id)
  setAvailable (now : Nat) (up : Bool) :
    s.Kept (s.setAvailable now up) ∨ (s.touch now).Kept (s.setAvailable now up)
  pausePuts (paused : Bool) : s.Kept { s with putsPaused := paused }

theorem accounts_of_reachable (h : s.Reachable) : s.Accounts where
  explained := h.explained.1
  backed := h.explained.2
  later s' hrun := by
    refine Continues.later ?_
    induction hrun with
    | refl => exact .refl
    | tail _ ht ih => exact ih.trans ht.continues
  touch := ends_touch s
  serve _ _ _ _ hs := (served_of_serve hs).answers
  ask _ _ _ _ ha := answers_of_ask? ha
  replies _ _ _ _ := replies_txn
  revoke now := advances_dropLease (s.touch now)
  setAvailable now up := (rests_setAvailable s now up).kept (by simp)
  pausePuts _ := ⟨rfl, rfl, rfl⟩

theorem Turn.call (h : s.putsPaused = false) (now : Nat) :
    (∀ ttl, Turn s (s.grant now ttl).2) ∧
    (∀ key value lease, Turn s (s.put now key value lease).2) ∧
    ∀ ops, Turn s (s.txn now ops).2 := by
  refine ⟨fun ttl => ?_, fun key value lease => ?_, fun ops => ?_⟩
  · exact .serve (q := .grant ttl) (a := .ok (s.grant now ttl).1) (by simp [Store.serve, h]; rfl)
  · exact .serve (q := .put key value lease) (by simp [Store.serve, h]; rfl)
  · exact .serve (q := .txn ops) (by simp [Store.serve, h]; rfl)

/-- A key is written under a lease, another one comes and goes in a transaction, and the lease is
revoked. A put under it is refused then. -/
def used : Store :=
  let s := ((empty 128).grant 0 60).2
  let s := (s.put 0 [1] [10] (some 7001)).2
  let s := (s.txn 0 [.put [2] [20] none, .delete [2], .get [1]]).2
  ((s.revoke 0 7001).put 0 [3] [30] (some 7001)).2

theorem accounts_of_reachable_used : used.Reachable ∧ used.history =
    [.put [1] [10] 1, .put [2] [20] 2, .delete [2] 2, .delete [1] 3] ∧ used.Accounts := by
  have hreachable : used.Reachable := by
    have hgrant : Turn (empty 128) ((empty 128).grant 0 60).2 := (Turn.call rfl 0).1 60
    exact ⟨128, .tail (.tail (.tail (.tail (.single hgrant) ((Turn.call rfl 0).2.1 ..))
      ((Turn.call rfl 0).2.2 _)) (.revoke _ 0 7001)) ((Turn.call rfl 0).2.1 ..)⟩
  exact ⟨hreachable, by decide +kernel, accounts_of_reachable hreachable⟩

end Store

end ServiceDirectory
