import ServiceDirectory.Proofs.Activity.Republishing
import ServiceDirectory.Proofs.Activity.Scene
import ServiceDirectory.Proofs.Store.Leases

/-! # Cycles of synchronization

A cycle alone makes the table of all services show what the store had, and writes the hosted rows
that the store did not have (`Cycled`). So one cycle is enough: the next one finds nothing to write,
and the one after that nothing to read (`cycled_then_quiet_or_crashed`). It is rows that are
compared, not leases: a key with the right value that is bound to another lease stays bound to it
(`binds_iff_of_synced`).
-/

namespace ServiceDirectory

open Activity

variable {me now : Nat} {n n' : Node} {s s' : Store} {lease : Int} {id : ServiceId} {row : Row}

/-- The store can be reached, the lease lasts, and the rows in the store can be stored. -/
structure Store.Serves (s : Store) (k : Keyspace) (now : Nat) (lease : Int) : Prop where
  available : s.available = true
  putsPaused : s.putsPaused = false
  alive : s.IsAlive now lease
  keyed : s.IsKeyed
  fits : k.FitsIn s.contents

theorem Store.Serves.touch {k : Keyspace} (h : s.Serves k now lease) :
    (s.touch now).Serves k now lease ∧ (s.touch now).Serving now := by
  obtain ⟨ha, hp, -⟩ := touch_settings s now
  exact ⟨⟨ha.trans h.available, hp.trans h.putsPaused, h.alive.touch,
    (follows_touch s now).keyed h.keyed, h.fits.touch now⟩,
    ⟨ha.trans h.available, hp.trans h.putsPaused, expired_touch s now⟩⟩

theorem Keyspace.rowIn_congr {k : Keyspace} {d d' : StoredValues}
    (h : d'.find? (k.key id) = d.find? (k.key id)) : k.rowIn d' id = k.rowIn d id := by
  rw [rowIn, rowIn, h]

/-! ## What is written -/

theorem mem_putsOf_iff {ids : List ServiceId} {key value : Bytes} : (key, value) ∈ n.putsOf ids ↔
    ∃ id ∈ ids, ∃ row, n.row? id = some row ∧ key = n.keyspace.key id ∧
      value = Keyspace.valueOf row := by
  simp only [Node.putsOf, List.mem_filterMap, Option.map_eq_some_iff, Prod.mk.injEq]
  constructor
  · rintro ⟨id, hid, row, hrow, rfl, rfl⟩
    exact ⟨id, hid, row, hrow, rfl, rfl⟩
  · rintro ⟨id, hid, row, hrow, rfl, rfl⟩
    exact ⟨id, hid, row, hrow, rfl, rfl⟩

theorem Node.AtRest.isHosted (h : n.AtRest lease) (hrow : n.row? id = some row) : row.IsHosted :=
  h.hosted.row id row hrow

theorem Node.AtRest.isValid (h : n.AtRest lease) (hrow : n.row? id = some row) :
    id.isValid = true := h.hosted.isProper.valid id row hrow

theorem lastFor_putsOf (h : n.AtRest lease) (ids : List ServiceId) (hrow : n.row? id = some row) :
    Dictionary.lastFor (n.keyspace.key id) (n.putsOf ids) =
      if id ∈ ids then some (Keyspace.valueOf row) else none := by
  have hsame : ∀ id' row', n.row? id' = some row' → n.keyspace.key id' = n.keyspace.key id →
      id' = id := fun id' row' hrow' hk =>
    Keyspace.key_injective (h.isValid hrow') (h.isValid hrow) hk
  split
  · next hid =>
    cases hl : Dictionary.lastFor (n.keyspace.key id) (n.putsOf ids) with
    | none =>
      exact absurd rfl (Dictionary.lastFor_eq_none_iff.1 hl _
        (mem_putsOf_iff.2 ⟨id, hid, row, hrow, rfl, rfl⟩))
    | some value =>
      obtain ⟨id', -, row', hrow', hk, rfl⟩ := mem_putsOf_iff.1 (Dictionary.mem_of_lastFor hl)
      obtain rfl := hsame id' row' hrow' hk.symm
      cases hrow.symm.trans hrow'
      rfl
  · next hid =>
    rw [Dictionary.lastFor_eq_none_iff]
    rintro ⟨key, value⟩ he hk
    obtain ⟨id', hid', row', hrow', hkey, -⟩ := mem_putsOf_iff.1 he
    obtain rfl := hsame id' row' hrow' (hkey.symm.trans hk)
    exact hid hid'

theorem lastFor_putsOf_eq_none (ids : List ServiceId) {key : Bytes}
    (hkey : ∀ id row, n.row? id = some row → key ≠ n.keyspace.key id) :
    Dictionary.lastFor key (n.putsOf ids) = none := by
  rw [Dictionary.lastFor_eq_none_iff]
  rintro ⟨key', value⟩ he rfl
  obtain ⟨id, -, row, hrow, hk, -⟩ := mem_putsOf_iff.1 he
  exact hkey id row hrow hk

/-! ## One cycle -/

theorem synchronize_of_writeBack (hs : s.available = true) {o : Outcome}
    (h : (writeBack (orSkipped (reconcileRead n (scanOf n.keyspace (s.touch now))).1) .start).Alone
      me now (reconcileRead n (scanOf n.keyspace (s.touch now))).2 (s.touch now) o n' s') :
    synchronize.Alone me now n s o n' s' :=
  .ask rfl (ask?_scan hs n.keyspace) (.move rfl h)

/-- A node and a store after a cycle that found them so. -/
structure Cycled (n : Node) (s : Store) (lease : Int) (n' : Node) (s' : Store) : Prop where
  globalRows : n'.globalRows.Shows (n.keyspace.rowIn s.contents)
  registry : n'.registry = n.registry
  decoded : ∀ id row, n.row? id = some row → n.keyspace.rowIn s'.contents id = some row
  binds_iff : ∀ id row, n.row? id = some row →
    (s'.Binds lease (n.keyspace.key id) ↔
      n.keyspace.rowIn s.contents id ≠ some row ∨ s.Binds lease (n.keyspace.key id))
  others : ∀ key, (∀ id row, n.row? id = some row → key ≠ n.keyspace.key id) →
    s'.bindings.find? key = s.bindings.find? key

theorem Cycled.of_globalRows {globalRows : Table} (h : Cycled { n with globalRows } s lease n' s') :
    Cycled n s lease n' s' := ⟨h.globalRows, h.registry, h.decoded, h.binds_iff, h.others⟩

theorem sameFound_rowIn_iff (h : n.AtRest lease) (hrow : n.row? id = some row) (d : StoredValues) :
    Row.sameFound (n.keyspace.rowIn d id) (some row) = true ↔ n.keyspace.rowIn d id = some row := by
  refine Row.sameFound_iff_eq (fun r hr => ?_) fun r hr => ?_
  · obtain ⟨-, value, -, hd⟩ := Keyspace.rowIn_eq_some_iff.1 hr
    exact Keyspace.decode_isCanonical hd
  · exact Option.some.inj hr ▸ (h.isHosted hrow).isFaithful.isCanonical

theorem mem_staleIds_iff (h : n.AtRest lease)
    (hg : n.globalRows.Shows (n.keyspace.rowIn s.contents))
    {ids : List ServiceId} (hids : staleIds n = .ok ids) (hrow : n.row? id = some row) :
    id ∈ ids ↔ n.keyspace.rowIn s.contents id ≠ some row := by
  obtain ⟨ids', hids', -, -, hmem⟩ := staleIds_eq h.hosted.isProper h.globalRows
  cases hids.symm.trans hids'
  rw [hmem, ← not_iff_not, not_not, ← sameFound_rowIn_iff h hrow,
    ← Row.sameFound_congr_left (hg id)]
  constructor
  · intro hno
    by_contra hs
    exact hno ⟨row, hrow, by simpa using hs⟩
  · rintro hs ⟨row', hrow', hs'⟩
    cases hrow.symm.trans hrow'
    rw [hs] at hs'
    cases hs'

theorem cycled_of_putAll (h : n.AtRest lease)
    (hg : n.globalRows.Shows (n.keyspace.rowIn s.contents)) {ids : List ServiceId}
    (hids : staleIds n = .ok ids) (hb : s'.bindings = s.bindings.putAll lease (n.putsOf ids))
    (hn : n'.globalRows = n.globalRows) (hr : n'.registry = n.registry) :
    Cycled n s lease n' s' := by
  have hfind : ∀ id row, n.row? id = some row → s'.bindings.find? (n.keyspace.key id) =
      if n.keyspace.rowIn s.contents id ≠ some row then some (Keyspace.valueOf row, lease)
      else s.bindings.find? (n.keyspace.key id) := by
    intro id row hrow
    rw [hb, Bindings.find?_putAll, lastFor_putsOf h ids hrow,
      if_congr (mem_staleIds_iff h hg hids hrow) rfl rfl]
    split <;> rfl
  refine ⟨hn ▸ hg, hr, fun id row hrow => ?_, fun id row hrow => ?_, fun key hkey => ?_⟩
  · have hid := Table.row?_id hrow
    by_cases hs : n.keyspace.rowIn s.contents id = some row
    · refine (Keyspace.rowIn_congr ?_).trans hs
      rw [Store.find?_contents, Store.find?_contents, hfind id row hrow, if_neg (not_not.2 hs)]
    · refine Keyspace.rowIn_eq_some_iff.2 ⟨hid, Keyspace.valueOf row, ?_, ?_⟩
      · rw [Store.find?_contents, hfind id row hrow, if_pos hs]
        rfl
      · rw [← hid]
        exact Keyspace.decode_key_valueOf (h.isHosted hrow).isFaithful (h.isHosted hrow).isValid
  · rw [Store.binds_iff, Store.binds_iff, hfind id row hrow]
    by_cases hs : n.keyspace.rowIn s.contents id = some row
    · simp [hs]
    · simp [hs]
  · rw [hb, Bindings.find?_putAll, lastFor_putsOf_eq_none ids hkey]
    rfl

theorem Cycled.serves (h : n.AtRest lease) (hs : s.Serves n.keyspace now lease)
    (hc : Cycled n s lease n' s') (ht : s.SameTerms s') (hf : s.Follows s') :
    s'.Serves n.keyspace now lease where
  available := ht.available.trans hs.available
  putsPaused := ht.putsPaused.trans hs.putsPaused
  alive := hs.alive.of_sameTerms ht
  keyed := hf.keyed hs.keyed
  fits id row hr := by
    cases hrow : n.row? id with
    | some row' =>
      cases (hc.decoded id row' hrow).symm.trans hr
      exact h.hosted.wellFormed.isStorable hrow
    | none =>
      by_cases hv : id.isValid = true
      · refine hs.fits id row ((Keyspace.rowIn_congr ?_).symm.trans hr)
        rw [Store.find?_contents, Store.find?_contents, hc.others]
        intro id' row' hrow' hk
        obtain rfl := Keyspace.key_injective hv (h.isValid hrow') hk
        cases hrow.symm.trans hrow'
      · rw [Keyspace.rowIn, if_neg hv] at hr
        cases hr

theorem missing_congr {rows rows' : ServiceId → Option Row}
    (h : ∀ row ∈ n.hostedRows, Row.sameFound (rows row.id) (some row) =
      Row.sameFound (rows' row.id) (some row)) : n.missing rows = n.missing rows' :=
  List.countP_congr fun row hrow => by rw [h row hrow]

theorem exists_import (h : n.AtRest lease) (hs : s.Serves n.keyspace now lease) :
    ∃ summary globalRows ids, Node.AtRest { n with globalRows } lease ∧
      globalRows.Shows (n.keyspace.rowIn (s.touch now).contents) ∧
      staleIds { n with globalRows } = .ok ids ∧
      ids.length = n.missing (n.keyspace.rowIn (s.touch now).contents) ∧
      ∀ {me : Nat} {o : Outcome} {n' : Node} {s' : Store},
        (writeBack (some summary) .start).Alone me now { n with globalRows } (s.touch now) o n' s' →
        synchronize.Alone me now n s o n' s' := by
  obtain ⟨hs', -⟩ := hs.touch
  obtain ⟨summary, globalRows, heq, hwf, hshows⟩ :=
    reconcileRead_shows hs'.keyed hs'.fits h.globalRows
  have hrest : Node.AtRest { n with globalRows } lease :=
    ⟨h.hosted, hwf, h.locks, h.idle, h.lease⟩
  obtain ⟨ids, hids, -, hlen, -⟩ := staleIds_eq hrest.hosted.isProper hrest.globalRows
  refine ⟨summary, globalRows, ids, hrest, hshows, hids, hlen.trans ?_, fun halone => ?_⟩
  · exact missing_congr (n := { n with globalRows }) fun row _ =>
      Row.sameFound_congr_left (hshows row.id)
  · refine synchronize_of_writeBack hs.available ?_
    rw [heq]
    exact halone

/-- A cycle of which no part was skipped. -/
theorem cycled_of_synced (h : n.AtRest lease) (hs : s.Serves n.keyspace now lease)
    {summary : Summary} {count : Nat}
    (hcycle : synchronize.Alone me now n s (.synced ⟨some summary, some count⟩) n' s') :
    Cycled n (s.touch now) lease n' s' := by
  obtain ⟨summary', globalRows, ids, hrest, hshows, hids, -, hlead⟩ := exists_import h hs
  obtain ⟨hs', hserving⟩ := hs.touch
  by_cases hne : ids = []
  · subst hne
    obtain ⟨-, rfl, rfl⟩ := hcycle.det (hlead (writeBack_nothing hrest hids))
    exact .of_globalRows (cycled_of_putAll hrest hshows hids rfl rfl rfl)
  · cases hroom : hasRoom (s.touch now).maxTxnOps with
    | false =>
      obtain ⟨_, hcrash⟩ := writeBack_crash hrest hids hne hroom
      cases (hcycle.det (hlead hcrash)).1
    | true =>
      by_cases hmax : (s.touch now).maxTxnOps = 0
      · obtain ⟨_, hrefused⟩ := writeBack_refused hrest hids hne hmax hserving
        cases (hcycle.det (hlead hrefused)).1
      · obtain ⟨locks, s₁, hputs, -, hb, -, -⟩ := writeBack_puts hrest hids hne hroom
          (Nat.one_le_iff_ne_zero.2 hmax) hserving hs'.alive
        obtain ⟨-, rfl, rfl⟩ := hcycle.det (hlead hputs)
        exact .of_globalRows (cycled_of_putAll hrest hshows hids hb rfl rfl)

/-- A cycle is completed if there is room for a batch, or nothing to write. -/
theorem exists_cycle (me : Nat) (h : n.AtRest lease) (hs : s.Serves n.keyspace now lease)
    (hmax : 1 ≤ s.maxTxnOps) (hroom : hasRoom s.maxTxnOps = true ∨
      n.missing (n.keyspace.rowIn (s.touch now).contents) = 0) :
    ∃ summary n' s', synchronize.Alone me now n s (.synced ⟨some summary,
        some (n.missing (n.keyspace.rowIn (s.touch now).contents))⟩) n' s' ∧
      n'.AtRest lease ∧ n'.keyspace = n.keyspace ∧ (s.touch now).SameTerms s' ∧
      (s.touch now).Follows s' := by
  obtain ⟨summary, globalRows, ids, hrest, hshows, hids, hlen, hlead⟩ := exists_import h hs
  obtain ⟨hs', hserving⟩ := hs.touch
  have hsame : (s.touch now).maxTxnOps = s.maxTxnOps := (Store.touch_settings s now).2.2
  rw [← hsame] at hmax hroom
  rw [← hlen] at hroom ⊢
  by_cases hne : ids = []
  · subst hne
    exact ⟨summary, _, _, hlead (writeBack_nothing hrest hids), hrest, rfl, ⟨rfl, rfl, rfl, rfl⟩,
      .refl _⟩
  · have hroom' : hasRoom (s.touch now).maxTxnOps = true :=
      hroom.resolve_right fun hlen => hne (List.length_eq_zero_iff.1 hlen)
    obtain ⟨locks, s', hputs, hend, -, ht, hf⟩ :=
      writeBack_puts hrest hids hne hroom' hmax hserving hs'.alive
    exact ⟨summary, _, s', hlead hputs, hend, rfl, ht, hf⟩

/-- A cycle breaks down if there is something to write and no room for a batch. -/
theorem exists_crash (me : Nat) (h : n.AtRest lease) (hs : s.Serves n.keyspace now lease)
    (hroom : hasRoom s.maxTxnOps = false)
    (hsome : n.missing (n.keyspace.rowIn (s.touch now).contents) ≠ 0) :
    ∃ n', synchronize.Alone me now n s .crashed n' (s.touch now) := by
  obtain ⟨summary, globalRows, ids, hrest, -, hids, hlen, hlead⟩ := exists_import h hs
  have hne : ids ≠ [] := by
    rintro rfl
    exact hsome hlen.symm
  have hroom' : hasRoom (s.touch now).maxTxnOps = false := by
    rwa [(Store.touch_settings s now).2.2]
  obtain ⟨n', hcrash⟩ := writeBack_crash hrest hids hne hroom'
  exact ⟨n', hlead hcrash⟩

theorem missing_eq_zero (h : n.AtRest lease)
    (hdecoded : ∀ id row, n.row? id = some row → n.keyspace.rowIn s.contents id = some row) :
    n.missing (n.keyspace.rowIn s.contents) = 0 := by
  rw [Node.missing, List.countP_eq_zero]
  intro row hrow
  have hrow := (mem_hostedRows_iff h.hosted.isProper).1 hrow
  simp [(sameFound_rowIn_iff h hrow s.contents).2 (hdecoded row.id row hrow)]

theorem exists_quiet_cycle (me : Nat) (h : n.AtRest lease) (hs : s.Serves n.keyspace now lease)
    (hzero : n.missing (n.keyspace.rowIn (s.touch now).contents) = 0) : ∃ summary globalRows,
      synchronize.Alone me now n s (.synced ⟨some summary, some 0⟩) { n with globalRows }
        (s.touch now) ∧
      Node.AtRest { n with globalRows } lease ∧
      globalRows.Shows (n.keyspace.rowIn (s.touch now).contents) := by
  obtain ⟨summary, globalRows, ids, hrest, hshows, hids, hlen, hlead⟩ := exists_import h hs
  obtain rfl := List.length_eq_zero_iff.1 (hlen.trans hzero)
  exact ⟨summary, globalRows, hlead (writeBack_nothing hrest hids), hrest, hshows⟩

/-- A cycle that finds nothing to write and nothing to read changes nothing. -/
theorem cycle_of_shows (me : Nat) (h : n.AtRest lease) (hs : s.Serves n.keyspace now lease)
    (hzero : n.missing (n.keyspace.rowIn (s.touch now).contents) = 0)
    (hshows : n.globalRows.Shows (n.keyspace.rowIn (s.touch now).contents)) :
    synchronize.Alone me now n s (.synced ⟨some .zero, some 0⟩) n (s.touch now) := by
  have heq := reconcileRead_eq_self hs.touch.1.keyed h.globalRows hshows
  obtain ⟨ids, hids, -, hlen, -⟩ := staleIds_eq h.hosted.isProper h.globalRows
  have hsame : n.missing n.globalRows.row? = n.missing (n.keyspace.rowIn (s.touch now).contents) :=
    missing_congr fun row _ => Row.sameFound_congr_left (hshows row.id)
  obtain rfl := List.length_eq_zero_iff.1 (hlen.trans (hsame.trans hzero))
  refine synchronize_of_writeBack hs.available ?_
  rw [heq]
  exact writeBack_nothing h hids

/-! ## Bindings -/

/-- After a cycle of which no part was skipped, the key of every hosted row is there. It is bound to
the node's lease exactly if it was before, or if what it held was not that row: a right value that
is bound to another lease, or to none, is left alone. -/
theorem binds_iff_of_synced (h : n.AtRest lease) (hs : s.Serves n.keyspace now lease)
    {summary : Summary} {count : Nat}
    (hcycle : synchronize.Alone me now n s (.synced ⟨some summary, some count⟩) n' s')
    (hrow : n.row? id = some row) :
    (s'.entries.find? (n.keyspace.key id)).isSome ∧
      (s'.Binds lease (n.keyspace.key id) ↔
        n.keyspace.rowIn (s.touch now).contents id ≠ some row ∨
          (s.touch now).Binds lease (n.keyspace.key id)) := by
  have hc := cycled_of_synced h hs hcycle
  refine ⟨?_, hc.binds_iff id row hrow⟩
  obtain ⟨-, value, hf, -⟩ := Keyspace.rowIn_eq_some_iff.1 (hc.decoded id row hrow)
  rw [Store.contents, Dictionary.find?_mapValues] at hf
  obtain ⟨kv, hkv, -⟩ := Option.map_eq_some_iff.1 hf
  rw [hkv]
  rfl

/-! A node hosts a service under a new lease. The key of the service has the right value, but it is
bound to the lease that the node had before, which is still alive. -/

def webNode : Node :=
  { Node.init default (Table.empty.write Scene.webService.toRow) .empty with lease := some 7002 }

def webKey : Bytes := webNode.keyspace.key Scene.webService.id

def leased (maxTxnOps : Nat) : Store := (((Store.empty maxTxnOps).grant 0 60).2.grant 0 60).2

def boundBefore : Store :=
  ((leased 1).put 0 webKey (Keyspace.valueOf Scene.webService.toRow) (some 7001)).2

theorem webRow_isStorable : Scene.webService.toRow.IsStorable := by decide +kernel

theorem webNode_atRest : webNode.AtRest 7002 := by
  have hmake : Service.make Scene.webService.id Scene.webService.hostname Scene.webService.port
      Scene.webService.ttl Scene.webService.metadata = .ok Scene.webService := rfl
  exact ⟨Registry.isHosted_empty.write (.registered hmake) webRow_isStorable rfl,
    Table.isWellFormed_empty, RowLocks.sound_empty, fun _ => rfl, rfl⟩

theorem webNode_row : webNode.row? Scene.webService.id = some Scene.webService.toRow := by
  decide +kernel

theorem leased_isKeyed (maxTxnOps : Nat) : (leased maxTxnOps).IsKeyed :=
  (((Store.IsUsed.empty maxTxnOps 0).grant 60).grant 60).isKeyed

theorem boundBefore_serves : boundBefore.Serves webNode.keyspace 0 7002 where
  available := rfl
  putsPaused := rfl
  alive := by decide +kernel
  keyed := (Store.served_put _ _ _ _ _).does.follows.keyed (leased_isKeyed 1)
  fits := by
    have hc : boundBefore.contents = replay
        [.put webKey (Keyspace.valueOf Scene.webService.toRow) 1] Dictionary.empty := by
      decide +kernel
    rw [hc]
    refine (Keyspace.fitsIn_empty _).replay fun e he => ?_
    rw [List.mem_singleton.1 he]
    exact Event.fits_of_change? (c := .put Scene.webService.toRow) (by decide +kernel)
      webRow_isStorable

theorem boundBefore_quiet : ∃ summary globalRows, synchronize.Alone 0 0 webNode boundBefore
    (.synced ⟨some summary, some 0⟩) { webNode with globalRows } (boundBefore.touch 0) := by
  obtain ⟨summary, globalRows, halone, -, -⟩ :=
    exists_quiet_cycle 0 webNode_atRest boundBefore_serves (by decide +kernel)
  exact ⟨summary, globalRows, halone⟩

theorem binds_iff_of_synced_boundBefore : ∃ summary n' s',
    synchronize.Alone 0 0 webNode boundBefore (.synced ⟨some summary, some 0⟩) n' s' ∧
      (s'.entries.find? webKey).isSome ∧
      (s'.Binds 7002 webKey ↔
        webNode.keyspace.rowIn (boundBefore.touch 0).contents Scene.webService.id ≠
            some Scene.webService.toRow ∨
          (boundBefore.touch 0).Binds 7002 webKey) := by
  obtain ⟨summary, globalRows, halone⟩ := boundBefore_quiet
  exact ⟨summary, _, _, halone,
    binds_iff_of_synced webNode_atRest boundBefore_serves halone webNode_row⟩

/-- A cycle of which no part was skipped may leave the key of a hosted row to another lease. -/
theorem not_forall_binds : ¬ ∀ (me now : Nat) (n n' : Node) (s s' : Store) (lease : Int)
    (summary : Summary) (count : Nat), n.AtRest lease → s.Serves n.keyspace now lease →
    synchronize.Alone me now n s (.synced ⟨some summary, some count⟩) n' s' →
    ∀ id row, n.row? id = some row → s'.Binds lease (n.keyspace.key id) := by
  intro h
  obtain ⟨summary, globalRows, halone⟩ := boundBefore_quiet
  have hother : ¬ (boundBefore.touch 0).Binds 7002 webKey := by decide +kernel
  exact hother (h 0 0 _ _ _ _ _ _ _ webNode_atRest boundBefore_serves halone _ _ webNode_row)

/-! ## Convergence -/

/-- One cycle is enough, if there is room for a batch or nothing to write: the next writes nothing,
and the one after that changes nothing at all. Without room for a batch a cycle that has something
to write breaks down. Between the cycles no lease ends. -/
theorem cycled_then_quiet_or_crashed (task : Nat → Nat) (h : n.AtRest lease)
    (hs : s.Serves n.keyspace now lease) (hmax : 1 ≤ s.maxTxnOps) {second third : Nat}
    (hsecond : (s.touch now).expired second = []) (hthird : (s.touch now).expired third = []) :
    ((hasRoom s.maxTxnOps = true ∨ n.missing (n.keyspace.rowIn (s.touch now).contents) = 0) →
      ∃ summary n₁ s₁ summary₂ n₂,
        synchronize.Alone (task 1) now n s (.synced ⟨some summary,
          some (n.missing (n.keyspace.rowIn (s.touch now).contents))⟩) n₁ s₁ ∧
        Cycled n (s.touch now) lease n₁ s₁ ∧
        synchronize.Alone (task 2) second n₁ s₁ (.synced ⟨some summary₂, some 0⟩) n₂ s₁ ∧
        synchronize.Alone (task 3) third n₂ s₁ (.synced ⟨some .zero, some 0⟩) n₂ s₁) ∧
    (hasRoom s.maxTxnOps = false → n.missing (n.keyspace.rowIn (s.touch now).contents) ≠ 0 →
      ∃ n', synchronize.Alone (task 1) now n s .crashed n' (s.touch now)) := by
  refine ⟨fun hroom => ?_, exists_crash (task 1) h hs⟩
  obtain ⟨summary, n₁, s₁, halone₁, hrest₁, hk₁, ht₁, hf₁⟩ := exists_cycle (task 1) h hs hmax hroom
  have hc₁ := cycled_of_synced h hs halone₁
  have hserves₁ := hc₁.serves h hs.touch.1 ht₁ hf₁
  -- as no lease ends in between, each cycle finds the store that the last one left
  have hexpired : ∀ later, (s.touch now).expired later = [] →
      s₁.touch later = s₁ ∧ s₁.Serves n₁.keyspace later lease := fun later hq =>
    ⟨Store.touch_eq_self ((ht₁.expired_eq later).trans hq), hserves₁.available,
      hserves₁.putsPaused, (hs.alive.of_expired hq).of_sameTerms ht₁, hserves₁.keyed,
      hk₁ ▸ hserves₁.fits⟩
  have hzero : n₁.missing (n₁.keyspace.rowIn s₁.contents) = 0 := by
    refine missing_eq_zero hrest₁ fun id row hrow => ?_
    rw [hk₁]
    exact hc₁.decoded id row (by rwa [Node.row?, ← hc₁.registry])
  obtain ⟨hsame₂, hserves₂⟩ := hexpired second hsecond
  obtain ⟨summary₂, globalRows, halone₂, hrest₂, hshows₂⟩ :=
    exists_quiet_cycle (task 2) hrest₁ hserves₂ (by rwa [hsame₂])
  obtain ⟨hsame₃, hserves₃⟩ := hexpired third hthird
  have halone₃ := cycle_of_shows (task 3) hrest₂ hserves₃ (by rwa [hsame₃])
    (by rw [hsame₃, ← hsame₂]; exact hshows₂)
  rw [hsame₂] at halone₂
  rw [hsame₃] at halone₃
  exact ⟨summary, n₁, s₁, summary₂, _, halone₁, hc₁, halone₂, halone₃⟩

/-! A node hosts a service that the store does not have. -/

theorem leased_contents (maxTxnOps : Nat) :
    ((leased maxTxnOps).touch 0).contents = Dictionary.empty := rfl

theorem leased_serves (maxTxnOps : Nat) : (leased maxTxnOps).Serves webNode.keyspace 0 7002 where
  available := rfl
  putsPaused := rfl
  alive := ⟨⟨60, 60000⟩, rfl, by decide⟩
  keyed := leased_isKeyed maxTxnOps
  fits := Keyspace.fitsIn_empty _

theorem leased_missing (maxTxnOps : Nat) :
    webNode.missing (webNode.keyspace.rowIn ((leased maxTxnOps).touch 0).contents) = 1 := by
  rw [leased_contents]
  decide +kernel

theorem cycled_then_quiet_or_crashed_leased :
    webNode.AtRest 7002 ∧ (leased 1).Serves webNode.keyspace 0 7002 ∧
    1 ≤ (leased 1).maxTxnOps ∧ ((leased 1).touch 0).expired 5 = [] ∧
    ((leased 1).touch 0).expired 10 = [] ∧
    ∃ summary n₁ s₁ summary₂ n₂,
      synchronize.Alone 1 0 webNode (leased 1) (.synced ⟨some summary, some 1⟩) n₁ s₁ ∧
      Cycled webNode ((leased 1).touch 0) 7002 n₁ s₁ ∧
      synchronize.Alone 2 5 n₁ s₁ (.synced ⟨some summary₂, some 0⟩) n₂ s₁ ∧
      synchronize.Alone 3 10 n₂ s₁ (.synced ⟨some .zero, some 0⟩) n₂ s₁ := by
  have hfive : ((leased 1).touch 0).expired 5 = [] := by decide +kernel
  have hten : ((leased 1).touch 0).expired 10 = [] := by decide +kernel
  have h := (cycled_then_quiet_or_crashed id webNode_atRest (leased_serves 1) le_rfl hfive
    hten).1 (.inl rfl)
  rw [leased_missing] at h
  exact ⟨webNode_atRest, leased_serves 1, le_rfl, hfive, hten, h⟩

/-- A cycle with something to write need not end. -/
theorem not_forall_completes : ¬ ∀ (me now : Nat) (n : Node) (s : Store) (lease : Int),
    n.AtRest lease → s.Serves n.keyspace now lease → 1 ≤ s.maxTxnOps →
    ∃ report n' s', synchronize.Alone me now n s (.synced report) n' s' := by
  intro h
  have hmissing : webNode.missing (webNode.keyspace.rowIn
      ((leased (2 ^ 64 - 1)).touch 0).contents) ≠ 0 := by
    rw [leased_missing]
    exact Nat.one_ne_zero
  obtain ⟨_, hcrash⟩ := exists_crash 0 webNode_atRest (leased_serves (2 ^ 64 - 1))
    (by decide +kernel) hmissing
  obtain ⟨_, _, _, halone⟩ := h 0 0 _ _ _ webNode_atRest (leased_serves (2 ^ 64 - 1))
    (by decide +kernel)
  cases (halone.det hcrash).1

end ServiceDirectory
