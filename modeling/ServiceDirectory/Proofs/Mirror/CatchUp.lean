import ServiceDirectory.Proofs.Activity.Alone
import ServiceDirectory.Proofs.Mirror.ImportRace

/-! # Following events and importing again

A table that an import made can be kept up by the events of the store, or made anew by
another import. Both ways see the same rows, but for a key that ends up with a value that cannot be
decoded: an event that puts such a value is nobody's registration and is passed over, so the row of
an earlier value stays, while a scan finds nothing (`CatchUp.followed_agrees_iff`).
-/

namespace ServiceDirectory

open Activity ImportRace

/-- The event changes the row of its key: it is a delete, or a put of a value that can
be decoded. -/
def Event.counts (k : Keyspace) (e : Event) : Bool := (k.change? e).isSome

section

variable {k : Keyspace} {e : Event} {es : List Event} {d : StoredValues} {id : ServiceId}

theorem applyTo_rowIn {c : RowChange} (h : k.change? e = some c) (d : StoredValues) :
    c.applyTo (k.rowIn d) = k.rowIn (e.apply d) := by
  obtain ⟨hk, hrow⟩ := Keyspace.change?_row? h d
  funext id
  rw [RowChange.applyTo, Function.update_apply]
  split
  · next hid => rw [hid, hrow]
  · next hid =>
    refine (Keyspace.rowIn_apply_of_ne fun hk' => hid ?_).symm
    exact Option.some.inj (hk'.symm.trans hk)

theorem foldl_applyTo_rowIn (k : Keyspace) (es : List Event) (d : StoredValues) :
    (es.filterMap k.change?).foldl RowChange.applyTo (k.rowIn d) =
      k.rowIn (replay (es.filter (Event.counts k)) d) := by
  induction es generalizing d with
  | nil => rfl
  | cons e es ih =>
    cases h : k.change? e with
    | none =>
      have hno : ¬ e.counts k = true := by simp [Event.counts, h]
      rw [List.filterMap_cons_none h, List.filter_cons_of_neg hno]
      exact ih d
    | some c =>
      have hyes : e.counts k = true := by simp [Event.counts, h]
      rw [List.filterMap_cons_some h, List.filter_cons_of_pos hyes, List.foldl_cons,
        applyTo_rowIn h]
      exact ih (e.apply d)

/-- What does not count matters only to the key that it leaves garbled. -/
theorem rowIn_replay_filter (h : ¬ k.IsGarbledIn (replay es d) id) :
    k.rowIn (replay (es.filter (Event.counts k)) d) id = k.rowIn (replay es d) id := by
  induction es using List.reverseRecOn with
  | nil => rfl
  | append_singleton es e ih =>
    have hlast : ∀ es' : List Event, replay (es' ++ [e]) d = e.apply (replay es' d) :=
      fun es' => replay_append es' [e] d
    rw [hlast] at h ⊢
    by_cases hk : k.parseKey e.key = some id
    · cases hc : k.change? e with
      | none => exact absurd (Keyspace.isGarbledIn_of_change?_eq_none hc hk) h
      | some c =>
        have hyes : e.counts k = true := by simp [Event.counts, hc]
        have hid : c.id = id := by
          have := (Keyspace.change?_row? hc d).1
          exact Option.some.inj (this.symm.trans hk)
        rw [List.filter_append, List.filter_cons_of_pos hyes, List.filter_nil, hlast, ← hid,
          ← (Keyspace.change?_row? hc _).2, ← (Keyspace.change?_row? hc _).2]
    · have hrest := ih fun hg => h ((Keyspace.isGarbledIn_apply_of_ne hk).2 hg)
      rw [Keyspace.rowIn_apply_of_ne hk, ← hrest, List.filter_append, replay_append]
      cases hc : e.counts k with
      | false => simp [hc]
      | true =>
        rw [List.filter_cons_of_pos hc]
        exact Keyspace.rowIn_apply_of_ne hk

/-! ## Tables kept up by events -/

theorem filter_counts_inNamespace (k : Keyspace) (es : List Event) :
    (inNamespace k es).filter (Event.counts k) = es.filter (Event.counts k) := by
  rw [inNamespace, List.filter_filter]
  refine List.filter_congr fun e _ => ?_
  cases hc : e.counts k with
  | false => rfl
  | true =>
    obtain ⟨c, hc⟩ := Option.isSome_iff_exists.1 hc
    rw [Keyspace.range_contains_of_parseKey (Keyspace.change?_row? hc Dictionary.empty).1]
    rfl

theorem handleEvents_shows {t : Table} (ht : t.IsWellFormed) (h : t.Shows (k.rowIn d))
    (hes : ∀ e ∈ es, e.Fits k) : (handleEvents k t es).IsWellFormed ∧
      (handleEvents k t es).Shows (k.rowIn (replay (es.filter (Event.counts k)) d)) := by
  obtain ⟨n, t', heq, ht', hshows⟩ := ht.apply_shows h (Event.isStorable_of_mem_changes hes)
  rw [handleEvents, heq, ← foldl_applyTo_rowIn]
  exact ⟨ht', hshows⟩

theorem foldl_handleEvents_shows {n : Node} (batches : List (List Event))
    (ht : n.globalRows.IsWellFormed) (h : n.globalRows.Shows (n.keyspace.rowIn d))
    (hes : ∀ e ∈ batches.flatten, e.Fits n.keyspace) :
    (batches.foldl Node.handleEvents n).globalRows.Shows
      (n.keyspace.rowIn (replay (batches.flatten.filter (Event.counts n.keyspace)) d)) := by
  induction batches generalizing n d with
  | nil => exact h
  | cons batch batches ih =>
    rw [List.flatten_cons] at hes ⊢
    obtain ⟨ht', h'⟩ := handleEvents_shows ht h fun e he => hes e (List.mem_append_left _ he)
    rw [List.filter_append, replay_append]
    exact ih (n := n.handleEvents batch) ht' h' fun e he => hes e (List.mem_append_right _ he)

end

/-! ## Both ways -/

structure CatchUp where
  node : Node
  origin : Store
  batches : List (List Event)
  other : Node
  store : Store

namespace CatchUp

variable {c : CatchUp}

def keyspace (c : CatchUp) : Keyspace := c.node.keyspace

def log (c : CatchUp) : List Event := c.store.history.drop c.origin.history.length

def followed (c : CatchUp) : Node := c.batches.foldl Node.handleEvents c.node

/-- The row that the last event that counts has left, or the first import has found. -/
def lastRow (c : CatchUp) (id : ServiceId) : Option Row :=
  c.keyspace.rowIn (replay (c.log.filter (Event.counts c.keyspace)) c.origin.contents) id

def IsGarbled (c : CatchUp) (id : ServiceId) : Prop := c.keyspace.IsGarbledIn c.store.contents id

/-- An import on any content and any table, anything that can be done to the store, and
another import; the events under the namespace are handed over in order. -/
structure IsRun (c : CatchUp) : Prop where
  first : ∃ me now n s summary, s.IsKeyed ∧ n.globalRows.IsWellFormed ∧
    importOnce.Alone me now n s (.imported (.ok (some summary))) c.node c.origin
  last : ∃ me now n s summary, Relation.ReflTransGen Store.Step c.origin s ∧
    n.globalRows.IsWellFormed ∧ n.keyspace = c.keyspace ∧
    importOnce.Alone me now n s (.imported (.ok (some summary))) c.other c.store
  batches : c.batches.flatten = inNamespace c.keyspace c.log
  originFits : c.keyspace.FitsIn c.origin.contents
  logFits : ∀ e ∈ c.log, e.Fits c.keyspace

theorem IsRun.follows (h : c.IsRun) : c.origin.IsKeyed ∧ c.origin.Follows c.store := by
  obtain ⟨me, now, n, s, _, hk, -, hfirst⟩ := h.first
  obtain ⟨me', now', n', s', _, hsteps, -, -, hlast⟩ := h.last
  obtain ⟨-, -, horigin⟩ := hfirst.det (alone_importOnce me n hfirst.available_of_imported)
  obtain ⟨-, -, hstore⟩ := hlast.det (alone_importOnce me' n' hlast.available_of_imported)
  rw [hstore, horigin]
  rw [horigin] at hsteps
  exact ⟨(Store.follows_touch s now).keyed hk,
    (Store.follows_of_steps hsteps).trans (Store.follows_touch s' now')⟩

theorem IsRun.contents_eq (h : c.IsRun) : c.store.contents = replay c.log c.origin.contents := by
  obtain ⟨events, hlog, hcontents⟩ := h.follows.2.log
  rw [log, hlog, List.drop_left, hcontents]

theorem IsRun.shows (h : c.IsRun) : c.followed.globalRows.Shows c.lastRow ∧
    c.other.globalRows.Shows (c.keyspace.rowIn c.store.contents) := by
  have hstore : c.keyspace.FitsIn c.store.contents := by
    rw [h.contents_eq]
    exact Keyspace.FitsIn.replay h.originFits h.logFits
  constructor
  · obtain ⟨_, now, n, s, _, hk, hn, hfirst⟩ := h.first
    obtain ⟨ht, hshows⟩ := hfirst.imported_spec hk h.originFits hn
    have hes : ∀ e ∈ c.batches.flatten, e.Fits c.keyspace := by
      intro e he
      rw [h.batches] at he
      exact h.logFits e (List.mem_filter.1 he).1
    have hall : c.followed.globalRows.Shows (c.keyspace.rowIn
        (replay (c.batches.flatten.filter (Event.counts c.keyspace)) c.origin.contents)) :=
      foldl_handleEvents_shows c.batches ht hshows hes
    rw [h.batches, filter_counts_inNamespace] at hall
    exact hall
  · obtain ⟨_, now, n, s, _, hsteps, hn, hsame, hlast⟩ := h.last
    have hother : c.other.keyspace = c.keyspace := hlast.keyspace_of_imported.trans hsame
    have hk := (Store.follows_of_steps hsteps).keyed h.follows.1
    obtain ⟨-, hshows⟩ := hlast.imported_spec hk (hother ▸ hstore) hn
    rwa [hother] at hshows

/-- Both nodes have the same row for every id whose key does not end up garbled. For the others
an import finds nothing, and the events have left what they left before the value could not be
decoded any more. -/
theorem followed_agrees_iff (h : c.IsRun) :
    (∀ id, ¬ c.IsGarbled id →
      Row.sameFound (c.followed.globalRows.row? id) (c.other.globalRows.row? id) = true) ∧
    (∀ id, c.IsGarbled id → c.other.globalRows.row? id = none ∧
      Row.sameFound (c.followed.globalRows.row? id) (c.lastRow id) = true) ∧
    ((∀ id, Row.sameFound (c.followed.globalRows.row? id) (c.other.globalRows.row? id) = true) ↔
      ∀ id, c.IsGarbled id → c.lastRow id = none) := by
  obtain ⟨hfollowed, hother⟩ := h.shows
  have hagree : ∀ id, ¬ c.IsGarbled id →
      Row.sameFound (c.followed.globalRows.row? id) (c.other.globalRows.row? id) = true := by
    intro id hg
    -- unless the key ends up garbled, the last event that counts has left the row
    have hlast : c.lastRow id = c.keyspace.rowIn c.store.contents id := by
      rw [IsGarbled, h.contents_eq] at hg
      rw [h.contents_eq]
      exact rowIn_replay_filter hg
    rw [Row.sameFound_congr_left (hfollowed id), hlast, Row.sameFound_comm]
    exact hother id
  have hnone : ∀ id, c.IsGarbled id → c.other.globalRows.row? id = none := fun id hg =>
    (hother.eq_none_iff id).2 hg.rowIn_eq_none
  refine ⟨hagree, fun id hg => ⟨hnone id hg, hfollowed id⟩, ?_⟩
  constructor
  · intro hsame id hg
    have hid := hsame id
    rw [hnone id hg, Row.sameFound_congr_left (hfollowed id)] at hid
    cases hrow : c.lastRow id with
    | none => rfl
    | some row => rw [hrow] at hid; cases hid
  · intro hlast id
    by_cases hg : c.IsGarbled id
    · rw [hnone id hg, (hfollowed.eq_none_iff id).2 (hlast id hg)]
      rfl
    · exact hagree id hg

/-! A service is imported, and then its key is overwritten with what nobody can read. -/

def spoiledKey : Bytes := lateNode.keyspace.key lateRow.id

def unspoiled : Store := ((Store.empty 1).put 0 spoiledKey (Keyspace.valueOf lateRow) none).2

def spoiledStore : Store := ((unspoiled.touch 0).put 0 spoiledKey [0] none).2

def spoiled : CatchUp where
  node := (reconcileRead lateNode (scanOf lateNode.keyspace (unspoiled.touch 0))).2
  origin := unspoiled.touch 0
  batches := [[.put spoiledKey [0] 2]]
  other := (reconcileRead lateNode (scanOf lateNode.keyspace (spoiledStore.touch 0))).2
  store := spoiledStore.touch 0

theorem unspoiled_fits : lateNode.keyspace.FitsIn (unspoiled.touch 0).contents := by
  have hc : (unspoiled.touch 0).contents =
      replay [.put spoiledKey (Keyspace.valueOf lateRow) 1] Dictionary.empty := by decide +kernel
  have hst : (RowChange.put lateRow).IsStorable := show lateRow.IsStorable by decide +kernel
  rw [hc]
  refine Keyspace.FitsIn.replay (Keyspace.fitsIn_empty _) fun e he => ?_
  rw [List.mem_singleton.1 he]
  exact Event.fits_of_change? (by decide +kernel) hst

theorem spoiled_log_fits : ∀ e ∈ spoiled.log, e.Fits lateNode.keyspace := by
  have hlog : spoiled.log = [.put spoiledKey [0] 2] := by decide +kernel
  intro e he
  rw [hlog, List.mem_singleton] at he
  rw [he]
  exact Event.fits_of_change?_eq_none (by decide +kernel)

theorem spoiledStore_fits : lateNode.keyspace.FitsIn (spoiledStore.touch 0).contents := by
  have hc : (spoiledStore.touch 0).contents = replay spoiled.log (unspoiled.touch 0).contents := by
    decide +kernel
  rw [hc]
  exact Keyspace.FitsIn.replay unspoiled_fits spoiled_log_fits

theorem unspoiled_follows : (Store.empty 1).Follows unspoiled :=
  (Store.served_put _ _ _ _ _).does.follows

theorem spoiledStore_follows : unspoiled.Follows spoiledStore :=
  (Store.follows_touch _ _).trans (Store.served_put _ _ _ _ _).does.follows

theorem unspoiled_isKeyed : unspoiled.IsKeyed := unspoiled_follows.keyed (Store.isKeyed_empty 1)

theorem spoiled_keyspace : spoiled.keyspace = lateNode.keyspace := by decide +kernel

theorem spoiled_isRun : spoiled.IsRun where
  first := by
    obtain ⟨summary, h⟩ := alone_imported 0 (show unspoiled.available = true from rfl)
      unspoiled_isKeyed unspoiled_fits Table.isWellFormed_empty
    refine ⟨0, 0, lateNode, unspoiled, summary, unspoiled_isKeyed, Table.isWellFormed_empty, ?_⟩
    simp only [spoiled]
    exact h
  last := by
    obtain ⟨summary, h⟩ := alone_imported 0 (show spoiledStore.available = true from rfl)
      (spoiledStore_follows.keyed unspoiled_isKeyed) spoiledStore_fits Table.isWellFormed_empty
    have hserve : (unspoiled.touch 0).serve 0 (.put spoiledKey [0] none) =
        some (.ok (), spoiledStore) := rfl
    refine ⟨0, 0, lateNode, spoiledStore, summary, ?_, Table.isWellFormed_empty,
      spoiled_keyspace.symm, ?_⟩
    · simp only [spoiled]
      exact .single (.serve hserve)
    · simp only [spoiled]
      exact h
  batches := by
    rw [spoiled_keyspace]
    decide +kernel
  originFits := by
    rw [spoiled_keyspace]
    exact unspoiled_fits
  logFits := by
    rw [spoiled_keyspace]
    exact spoiled_log_fits

theorem followed_agrees_iff_spoiled : spoiled.IsRun ∧ spoiled.IsGarbled lateRow.id ∧
    spoiled.lastRow lateRow.id = some lateRow ∧
    spoiled.other.globalRows.row? lateRow.id = none ∧
    Row.sameFound (spoiled.followed.globalRows.row? lateRow.id) (spoiled.lastRow lateRow.id) =
      true := by
  have hgarbled : spoiled.IsGarbled lateRow.id := by
    rw [IsGarbled, spoiled_keyspace]
    exact ⟨by decide +kernel, [0], by decide +kernel, by decide +kernel⟩
  have hlast : spoiled.lastRow lateRow.id = some lateRow := by decide +kernel
  exact ⟨spoiled_isRun, hgarbled, hlast, (followed_agrees_iff spoiled_isRun).2.1 _ hgarbled⟩

/-- The two ways need not end up with the same rows. -/
theorem not_forall_sameFound : ¬ ∀ c : CatchUp, c.IsRun → ∀ id,
    Row.sameFound (c.followed.globalRows.row? id) (c.other.globalRows.row? id) = true := by
  intro h
  have hdiffer : Row.sameFound (spoiled.followed.globalRows.row? lateRow.id)
      (spoiled.other.globalRows.row? lateRow.id) = false := by decide +kernel
  rw [h spoiled spoiled_isRun] at hdiffer
  cases hdiffer

end CatchUp

end ServiceDirectory
