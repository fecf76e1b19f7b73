import ServiceDirectory.Activity
import ServiceDirectory.Proofs.Keyspace.Values
import ServiceDirectory.Proofs.Store.Operations
import ServiceDirectory.Proofs.Table.Changes

/-! # Hosted rows and the writes that follow them

A change of the local rows either leaves them as they are, or changes the row of its own id and has
a write of the key of that id follow (`RowAction.perform_spec`). Republishing writes rows that are
there.
-/

namespace ServiceDirectory

open Activity

def Node.row? (n : Node) (id : ServiceId) : Option Row := n.registry.rows.row? id

/-- The hosted rows are as registered or restored ones are. -/
structure Registry.IsProper (r : Registry) : Prop where
  rows : r.rows.IsProper
  valid : ∀ id row, r.rows.row? id = some row → id.isValid = true

/-- An operation on the key of the id that tells what the node hosts for it: a put holds the row
that is there, and a delete follows the removal of one. -/
def Node.IsTold (n : Node) (removed : ServiceId → Prop) (id : ServiceId) : TxnOp → Prop
  | .put key value _ => id.isValid = true ∧ key = n.keyspace.key id ∧
    ∃ row, n.row? id = some row ∧ n.keyspace.encode row = .ok (key, value)
  | .delete key => id.isValid = true ∧ key = n.keyspace.key id ∧ n.row? id = none ∧ removed id
  | .get _ => False

variable {n : Node} {id : ServiceId} {row : Row}

theorem Node.IsTold.key_eq {removed : ServiceId → Prop} {op : TxnOp} (h : n.IsTold removed id op) :
    op.key = n.keyspace.key id := by
  cases op with
  | get key => cases h
  | put key value lease => exact h.2.1
  | delete key => exact h.2.1

theorem Node.IsTold.isValid {removed : ServiceId → Prop} {op : TxnOp}
    (h : n.IsTold removed id op) : id.isValid = true := by
  cases op with
  | get key => cases h
  | put key value lease => exact h.1
  | delete key => exact h.1

namespace Registry

variable {r : Registry}

theorem IsProper.row_id (_ : r.IsProper) (h : r.rows.row? id = some row) : row.id = id :=
  Table.row?_id h

theorem IsProper.of_rows {r' : Registry} (h : r.IsProper) (hr : r'.rows = r.rows) :
    r'.IsProper where
  rows := hr ▸ h.rows
  valid id row := hr ▸ h.valid id row

theorem IsProper.write {r' : Registry} (h : r.IsProper) (hrow : row.IsProper)
    (hv : row.id.isValid = true) (hr : r'.rows = r.rows.write row) : r'.IsProper where
  rows := hr ▸ h.rows.write hrow
  valid id row' hf := by
    rw [hr, h.rows.wellFormed.row?_write hrow.storable] at hf
    split at hf
    · next hid => exact hid ▸ hv
    · exact h.valid id row' hf

theorem IsProper.erase {r' : Registry} (h : r.IsProper) (hid : id.IsStorable)
    (hr : r'.rows = r.rows.erase id) : r'.IsProper where
  rows := hr ▸ h.rows.erase hid
  valid id' row' hf := by
    rw [hr, h.rows.wellFormed.row?_erase hid] at hf
    split at hf
    · cases hf
    · exact h.valid id' row' hf

theorem IsProper.register_eq (h : r.IsProper) (now : Nat) (hrow : row.IsProper) : ∃ outcome,
    r.register now row =
      .ok (outcome, { r with rows := r.rows.write row }.arm now row.id row.ttl) ∧
      (outcome.changed = true ↔ r.rows.row? row.id ≠ some row) := by
  obtain ⟨outcome, hu, hc⟩ := h.rows.upsert_eq hrow
  exact ⟨outcome, by simp [Registry.register, hu], hc⟩

theorem IsProper.encode_eq (h : r.IsProper) (k : Keyspace) (hf : r.rows.row? id = some row) :
    k.encode row = .ok (k.key id, Keyspace.valueOf row) := by
  rw [Keyspace.encode_eq (h.rows.canonical id row hf), h.row_id hf]

end Registry

theorem Node.IsTold.find?_apply {removed : ServiceId → Prop} {op : TxnOp}
    (ht : n.IsTold removed id op) (h : n.registry.IsProper) (d : StoredValues) :
    (op.apply d).find? (n.keyspace.key id) = (n.row? id).map Keyspace.valueOf := by
  cases op with
  | get key => cases ht
  | put key value lease =>
    obtain ⟨-, rfl, row, hr, he⟩ := ht
    rw [h.encode_eq n.keyspace hr] at he
    cases he
    rw [TxnOp.apply, Dictionary.find?_insert, if_pos rfl, hr]
    rfl
  | delete key =>
    obtain ⟨-, rfl, hr, -⟩ := ht
    rw [TxnOp.apply, Dictionary.find?_erase, if_pos rfl, hr]
    rfl

/-! ## Changes of one row -/

theorem Node.putRequest?_eq {lease : Int} (hl : n.lease = some lease) (hrow : row.IsCanonical) :
    n.putRequest? row =
      some (.put (n.keyspace.key row.id) (Keyspace.valueOf row) (some lease)) := by
  simp [Node.putRequest?, hl, Keyspace.encode_eq hrow]

def Activity.RowAction.IsProper : RowAction → Prop
  | .register row => row.IsProper ∧ row.id.isValid = true
  | .unregister id | .expire id _ => id.IsStorable

theorem Activity.RowAction.IsProper.id_isStorable {a : RowAction} (h : a.IsProper) :
    a.id.IsStorable := by
  cases a with
  | register row => exact h.1.storable.id
  | unregister id => exact h
  | expire id generation => exact h

inductive Activity.RowAction.Performs (n : Node) (a : RowAction) : Node → RowStage → Prop
  | kept {registry : Registry} (result : RowResult) : registry.rows = n.registry.rows →
      Performs n a { n with registry } (.finishing result)
  | wrote {row : Row} {registry : Registry} (lease : Int) (result : RowResult) :
      a = .register row → registry.rows = n.registry.rows.write row →
      Performs n a { n with registry } (.forwarding
        (some (.put (n.keyspace.key row.id) (Keyspace.valueOf row) (some lease))) result)
  | removed {registry : Registry} (result : RowResult) : n.row? a.id ≠ none →
      registry.rows = n.registry.rows.erase a.id →
      Performs n a { n with registry } (.forwarding (some (.delete (n.keyspace.key a.id))) result)

namespace Activity.RowAction

variable {a : RowAction}

theorem perform_register (now : Nat) (h : n.registry.IsProper) (hl : n.lease.isSome)
    (hrow : row.IsProper) :
    Performs n (.register row) ((register row).perform now n).1
      ((register row).perform now n).2 := by
  obtain ⟨lease, hl⟩ := Option.isSome_iff_exists.1 hl
  obtain ⟨outcome, hr, hc⟩ := h.register_eq now hrow
  simp only [perform, hr]
  cases hch : outcome.changed with
  | true =>
    have hq := Node.putRequest?_eq (n := { n with
      registry := { n.registry with rows := n.registry.rows.write row }.arm now row.id row.ttl })
      hl hrow.canonical
    rw [if_pos rfl, hq]
    exact .wrote lease _ rfl rfl
  | false =>
    have hsame : n.registry.rows.row? row.id = some row := by
      by_contra hne
      rw [hc.2 hne] at hch
      cases hch
    exact .kept _ (h.rows.wellFormed.write_eq_self hsame)

theorem perform_unregister (now : Nat) (h : n.registry.IsProper) (hid : id.IsStorable) :
    Performs n (.unregister id) ((unregister id).perform now n).1
      ((unregister id).perform now n).2 := by
  have hr : n.registry.unregister id = .ok (n.registry.rows.row? id,
      { n.registry with rows := n.registry.rows.erase id }.disarm id) := by
    simp [Registry.unregister, h.rows.wellFormed.remove_eq hid]
  simp only [perform, hr]
  cases hf : n.registry.rows.row? id with
  | none => exact .kept _ (h.rows.wellFormed.erase_eq_self hid hf)
  | some row => exact .removed _ (by simp [Node.row?, RowAction.id, hf]) rfl

theorem perform_expire (now generation : Nat) (h : n.registry.IsProper) (hid : id.IsStorable) :
    Performs n (.expire id generation) ((expire id generation).perform now n).1
      ((expire id generation).perform now n).2 := by
  simp only [perform, Registry.expire]
  split
  · have hr : (n.registry.disarm id).rows.remove id =
        .ok (n.registry.rows.row? id, n.registry.rows.erase id) :=
      h.rows.wellFormed.remove_eq hid
    simp only [hr]
    cases hf : n.registry.rows.row? id with
    | none => exact .kept _ (h.rows.wellFormed.erase_eq_self hid hf)
    | some row => exact .removed _ (by simp [Node.row?, RowAction.id, hf]) rfl
  · exact .kept _ rfl

theorem perform_spec (now : Nat) (h : n.registry.IsProper) (hl : n.lease.isSome)
    (ha : a.IsProper) : Performs n a (a.perform now n).1 (a.perform now n).2 := by
  cases a with
  | register row => exact perform_register now h hl ha.1
  | unregister id => exact perform_unregister now h ha
  | expire id generation => exact perform_expire now generation h ha

end Activity.RowAction

/-! ## Republishing -/

section

variable {ε α β : Type}

theorem sublist_of_filterAuxM {p : α → Except ε Bool} {l acc kept : List α}
    (h : l.filterAuxM p acc = .ok kept) :
    ∃ l' : List α, l'.Sublist l ∧ kept = l'.reverse ++ acc := by
  induction l generalizing acc with
  | nil => exact ⟨[], .slnil, (Except.ok.inj h).symm⟩
  | cons x l ih =>
    obtain ⟨b, -, hl⟩ := bind_eq_ok_iff.1 h
    obtain ⟨l', hsub, rfl⟩ := ih hl
    cases b with
    | false => exact ⟨l', hsub.cons x, rfl⟩
    | true => exact ⟨x :: l', hsub.cons_cons x, by simp⟩

theorem sublist_of_filterM {p : α → Except ε Bool} {l kept : List α}
    (h : l.filterM p = .ok kept) : kept.Sublist l := by
  obtain ⟨out, hout, hk⟩ := bind_eq_ok_iff.1 h
  obtain ⟨l', hsub, rfl⟩ := sublist_of_filterAuxM hout
  have hk' : l' = kept := by simpa using hk
  exact hk' ▸ hsub

theorem exists_of_mapM {f : α → Except ε β} {l : List α} {found : List β}
    (h : l.mapM f = .ok found) {y : β} (hy : y ∈ found) : ∃ x ∈ l, f x = .ok y := by
  induction l generalizing found with
  | nil => cases h; cases hy
  | cons x l ih =>
    rw [List.mapM_cons] at h
    obtain ⟨y', hx, h⟩ := bind_eq_ok_iff.1 h
    obtain ⟨found', hl, h⟩ := bind_eq_ok_iff.1 h
    cases h
    rcases List.mem_cons.1 hy with rfl | hy
    · exact ⟨x, .head _, hx⟩
    · obtain ⟨x', hx', hf⟩ := ih hl hy
      exact ⟨x', .tail _ hx', hf⟩

theorem mem_of_mem_batchesOf {size fuel : Nat} {l batch : List α} {x : α}
    (hb : batch ∈ batchesOf size fuel l) (hx : x ∈ batch) : x ∈ l := by
  induction fuel generalizing l with
  | zero => cases hb
  | succ fuel ih =>
    cases l with
    | nil => cases hb
    | cons y l =>
      rcases List.mem_cons.1 hb with rfl | hb
      · exact List.mem_of_mem_take hx
      · exact List.mem_of_mem_drop (ih hb)

end

theorem Activity.exists_staleIds_eq (h : n.registry.rows.IsWellFormed) {ids : List ServiceId}
    (hs : staleIds n = .ok ids) : ∃ stale : List Row,
      ids = (stale.map (·.id)).mergeSort (fun a b => (compare a b).isLE) ∧
      stale.Pairwise (fun a b => a.id ≠ b.id) ∧
      ∀ row ∈ stale, n.registry.rows.row? row.id = some row := by
  obtain ⟨rows, hall, hmem, hne⟩ := h.all_eq
  obtain ⟨rows', hall', hs⟩ := bind_eq_ok_iff.1 hs
  obtain rfl : rows = rows' := Except.ok.inj (hall.symm.trans hall')
  obtain ⟨stale, hf, hs⟩ := bind_eq_ok_iff.1 hs
  have hsub := sublist_of_filterM hf
  exact ⟨stale, (Except.ok.inj hs).symm, hne.sublist hsub, fun row hrow =>
    (hmem row).1 (hsub.subset hrow)⟩

theorem Activity.nodup_staleIds (h : n.registry.rows.IsWellFormed) {ids : List ServiceId}
    (hs : staleIds n = .ok ids) : ids.Nodup := by
  obtain ⟨stale, rfl, hne, -⟩ := exists_staleIds_eq h hs
  refine (List.mergeSort_perm _ _).nodup_iff.2 ?_
  rw [List.Nodup, List.pairwise_map]
  exact hne

theorem ServiceId.isLE_total (a b : ServiceId) :
    ((compare a b).isLE || (compare b a).isLE) = true := by
  have hswap : compare b a = (compare a b).swap := Std.OrientedCmp.eq_swap
  rw [hswap]
  cases compare a b <;> rfl

theorem ServiceId.compare_eq_lt {a b : ServiceId} (h : (compare a b).isLE = true) (hne : a ≠ b) :
    compare a b = .lt := by
  cases hc : compare a b with
  | lt => rfl
  | eq => exact absurd (Std.LawfulEqCmp.eq_of_compare hc) hne
  | gt =>
    rw [hc] at h
    cases h

theorem Activity.staleIds_ascending (h : n.registry.rows.IsWellFormed) {ids : List ServiceId}
    (hs : staleIds n = .ok ids) : ids.Pairwise fun a b => compare a b = .lt := by
  have hnodup := nodup_staleIds h hs
  obtain ⟨stale, rfl, -, -⟩ := exists_staleIds_eq h hs
  have hle : ((stale.map (·.id)).mergeSort fun a b => (compare a b).isLE).Pairwise
      fun a b => (compare a b).isLE = true :=
    List.pairwise_mergeSort (fun _ _ _ => Std.TransCmp.isLE_trans) ServiceId.isLE_total _
  exact (hle.and hnodup).imp fun hab => ServiceId.compare_eq_lt hab.1 hab.2

theorem Activity.staleIds_spec (h : n.registry.IsProper) {ids : List ServiceId}
    (hs : staleIds n = .ok ids) : ids.Nodup ∧ ∀ id ∈ ids, id.IsStorable := by
  refine ⟨nodup_staleIds h.rows.wellFormed hs, fun id hid => ?_⟩
  obtain ⟨stale, rfl, -, hrow⟩ := exists_staleIds_eq h.rows.wellFormed hs
  obtain ⟨row, hmem, rfl⟩ := List.mem_map.1 ((List.mergeSort_perm _ _).mem_iff.1 hid)
  exact (h.rows.wellFormed.isStorable (hrow row hmem)).id

theorem Activity.republishOps_spec (h : n.registry.IsProper) {lease : Int} {ids : List ServiceId}
    (hids : ∀ id ∈ ids, id.IsStorable) {ops : List TxnOp} (ho : republishOps n lease ids = .ok ops)
    (removed : ServiceId → Prop) : ∀ op ∈ ops, ∃ id ∈ ids, n.IsTold removed id op := by
  intro op hop
  obtain ⟨found, hfound, ho⟩ := bind_eq_ok_iff.1 ho
  obtain rfl := Except.ok.inj ho
  have hmem : some op ∈ found := by simpa using hop
  obtain ⟨id, hid, hf⟩ := exists_of_mapM hfound hmem
  rw [h.rows.wellFormed.find_eq (hids id hid)] at hf
  cases hr : n.registry.rows.row? id with
  | none => rw [hr] at hf; cases hf
  | some row =>
    have he := h.encode_eq n.keyspace hr
    rw [hr] at hf
    simp only [Except.mapError, ok_bind, he] at hf
    cases hf
    exact ⟨id, hid, h.valid id row hr, rfl, row, hr, he⟩

/-! ## Restoring -/

theorem Registry.IsProper.register {r : Registry} (h : r.IsProper) (now : Nat) (hrow : row.IsProper)
    (hv : row.id.isValid = true) :
    ∃ outcome r', r.register now row = .ok (outcome, r') ∧ r'.IsProper := by
  obtain ⟨outcome, hr, -⟩ := h.register_eq now hrow
  exact ⟨outcome, _, hr, h.write hrow hv rfl⟩

/-- What holds of the rows to be restored and the registry, and goes on to hold when the first row
is registered, holds in the end. -/
theorem Registry.foldlM_register (now : Nat) {P : List Row → Registry → Prop}
    (hstep : ∀ row rows r, P (row :: rows) r →
      ∃ outcome r', r.register now row = .ok (outcome, r') ∧ P rows r')
    {rows : List Row} (count : Nat) {r : Registry} (h : P rows r) :
    ∃ r', rows.foldlM (fun (n, r) row => do
        let (_, r) ← r.register now row
        return (n + 1, r)) (count, r) = (.ok (count + rows.length, r') : Except StorageError _) ∧
      P [] r' := by
  induction rows generalizing count r with
  | nil => exact ⟨r, rfl, h⟩
  | cons row rows ih =>
    obtain ⟨outcome, r₁, hr₁, h₁⟩ := hstep row rows r h
    obtain ⟨r', hr', h'⟩ := ih (count + 1) h₁
    refine ⟨r', ?_, h'⟩
    have hlen : count + (row :: rows).length = count + 1 + rows.length := by
      rw [List.length_cons]
      omega
    rw [List.foldlM_cons, hlen, ← hr']
    simp only [hr₁, ok_bind, pure_eq_ok]

theorem Registry.exists_restore (now : Nat) {P : List Row → Registry → Prop}
    (hstep : ∀ row rows r, P (row :: rows) r →
      ∃ outcome r', r.register now row = .ok (outcome, r') ∧ P rows r')
    {rows : List Row} {r : Registry} (h : P rows { r with rows := Table.empty }) :
    ∃ r', r.restore now rows = .ok (rows.length, r') ∧ P [] r' := by
  obtain ⟨r', hr', h'⟩ := foldlM_register now hstep 0 h
  rw [Nat.zero_add] at hr'
  exact ⟨r', hr', h'⟩

theorem Registry.isProper_cleared (r : Registry) : IsProper { r with rows := Table.empty } :=
  ⟨Table.isProper_empty, fun _ _ h => by cases h⟩

theorem Activity.isProper_of_mem_decodeInherited {k : Keyspace} {found : Inherited}
    (hmem : row ∈ decodeInherited k found) (hst : row.IsStorable) :
    row.IsProper ∧ row.id.isValid = true := by
  obtain ⟨e, -, he⟩ := List.mem_filterMap.1 hmem
  exact ⟨⟨hst, Keyspace.decode_isCanonical he⟩, (Keyspace.decode_eq_some_iff.1 he).1⟩

/-- The rows of a node that has restored them from the keys of its lease are proper. -/
theorem Activity.restore_isProper (now : Nat) (n : Node) {found : Inherited}
    (h : ∀ row ∈ decodeInherited n.keyspace found, row.IsStorable) :
    ∃ registry, restore now n found =
      (.ok (decodeInherited n.keyspace found).length, { n with registry }) ∧ registry.IsProper := by
  let P : List Row → Registry → Prop := fun rows r =>
    r.IsProper ∧ ∀ row ∈ rows, row.IsProper ∧ row.id.isValid = true
  have hstep : ∀ row rows r, P (row :: rows) r →
      ∃ outcome r', r.register now row = .ok (outcome, r') ∧ P rows r' := by
    rintro row rows r ⟨hr, hrows⟩
    obtain ⟨hrow, hv⟩ := hrows row (.head _)
    obtain ⟨outcome, r', hr', hp⟩ := hr.register now hrow hv
    exact ⟨outcome, r', hr', hp, fun row hrow => hrows row (.tail _ hrow)⟩
  have hstart : P (decodeInherited n.keyspace found) { n.registry with rows := Table.empty } :=
    ⟨n.registry.isProper_cleared, fun row hrow => isProper_of_mem_decodeInherited hrow (h row hrow)⟩
  obtain ⟨registry, hr, hp, -⟩ := Registry.exists_restore now hstep hstart
  refine ⟨registry, ?_, hp⟩
  simp only [restore, hr]

end ServiceDirectory
