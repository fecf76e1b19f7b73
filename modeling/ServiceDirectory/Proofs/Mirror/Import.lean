import ServiceDirectory.Proofs.Activity.Alone
import ServiceDirectory.Proofs.Keyspace.Namespaces
import ServiceDirectory.Proofs.Mirror.CatchUp
import ServiceDirectory.Proofs.Table.ThreeWay

/-! # Quiet imports

An import that nobody interrupts makes the table of all services the decoded store, whatever either
held before: under every id it has the row that the value at the key of the id stands for, and no
row if there is no such value (`import_finds_decoded`). An import that cannot read leaves the table
alone.
-/

namespace ServiceDirectory

open Activity

/-! ## Rows by their keys -/

namespace Keyspace

theorem rowIn_eq_bind_decode (k : Keyspace) (d : StoredValues) (id : ServiceId) :
    k.rowIn d id = (d.find? (k.key id)).bind (k.decode (k.key id)) := by
  ext row
  rw [rowIn_eq_some_iff, Option.bind_eq_some_iff]
  constructor
  · rintro ⟨-, h⟩
    exact h
  · rintro ⟨value, hf, hd⟩
    obtain ⟨hv, hk, -⟩ := decode_eq_some_iff.1 hd
    have htext : id.text = row.id.text := by simpa [key, utf8_injective.eq_iff] using hk
    exact ⟨(ServiceId.eq_of_text_eq hv htext).symm, value, hf, hd⟩

end Keyspace

/-! ## Scans that fail -/

/-- The task, on this node, ends so if each of its requests fails with the error. -/
inductive Activity.Refused (e : Error) (me now maxTxnOps : Nat) :
    Activity → Node → Outcome → Node → Prop
  | move {a a₁ : Activity} {n n₁ n' : Node} {o : Outcome} :
      a.step me now maxTxnOps n = .move n₁ a₁ → Refused e me now maxTxnOps a₁ n₁ o n' →
      Refused e me now maxTxnOps a n o n'
  | ask {a : Activity} {n n' : Node} {o : Outcome} {q : Request}
      {go : q.Answer → Node → Node × Activity} {otherwise : Option (Node × Activity)}
      {answer : q.Answer} :
      a.step me now maxTxnOps n = .ask q go otherwise → q.refused? e = some answer →
      Refused e me now maxTxnOps (go answer n).2 (go answer n).1 o n' →
      Refused e me now maxTxnOps a n o n'
  | done {a : Activity} {n n' : Node} {o : Outcome} :
      a.step me now maxTxnOps n = .done n' o → Refused e me now maxTxnOps a n o n'
  | crash {a : Activity} {n : Node} :
      a.step me now maxTxnOps n = .crash → Refused e me now maxTxnOps a n .crashed (drop me n)

section

variable {me now maxTxnOps : Nat} {n n' : Node} {s : Store} {e : Error} {o : Outcome}

theorem importOnce_refused_iff : importOnce.Refused e me now maxTxnOps n o n' ↔
    o = .imported (if e.isUnavailable then .ok none else .error e) ∧ n' = n := by
  constructor
  · intro h
    cases h with
    | move hstep _ => cases hstep
    | done hstep => cases hstep
    | crash hstep => cases hstep
    | ask hstep hanswer hrest =>
      cases hstep
      cases hanswer
      cases hrest with
      | move hstep _ => cases hstep
      | done hstep => cases hstep; exact ⟨rfl, rfl⟩
      | crash hstep => cases hstep
      | ask hstep _ _ => cases hstep
  · rintro ⟨rfl, rfl⟩
    exact .ask rfl rfl (.done rfl)

/-! ## Scans that succeed -/

/-- An import that nobody interrupts leaves the decoded store, and skips nothing. One that finds the
store unreachable, or is refused, leaves the node as it was. -/
theorem import_finds_decoded (me now : Nat) (hk : s.IsKeyed) (hn : n.globalRows.IsWellFormed)
    (hf : n.keyspace.FitsIn (s.touch now).contents) :
    (s.available = true → ∃ summary globalRows,
      importOnce.Alone me now n s (.imported (.ok (some summary))) { n with globalRows }
        (s.touch now) ∧
      summary.skipped = 0 ∧ ∀ id : ServiceId, id.IsStorable → ∃ found,
        globalRows.find id = .ok found ∧
        Row.sameFound found (((s.touch now).contents.find? (n.keyspace.key id)).bind
          (n.keyspace.decode (n.keyspace.key id))) = true) ∧
    (s.available = false → importOnce.Alone me now n s (.imported (.ok none)) n s) ∧
    ∀ e maxTxnOps o n', importOnce.Refused e me now maxTxnOps n o n' ↔
      o = .imported (if e.isUnavailable then .ok none else .error e) ∧ n' = n := by
  refine ⟨fun hs => ?_, alone_importOnce_skipped me now n, fun _ _ _ _ => importOnce_refused_iff⟩
  have hk' := (Store.follows_touch s now).keyed hk
  obtain ⟨all, summary, globalRows, hall, heq, hskipped, ht, hshows, -⟩ :=
    hn.reconcileFrom_all (isStorable_of_mem_scanOf hk' hf)
  have hread : reconcileRead n (scanOf n.keyspace (s.touch now)) =
      (.ok (some summary), { n with globalRows }) := by
    simp [reconcileRead, Table.reconcile, hall, heq]
  have halone : importOnce.Alone me now n s _ _ _ := alone_importOnce me n hs
  rw [hread] at halone
  refine ⟨summary, globalRows, halone, hskipped, fun id hid => ⟨_, ht.find_eq hid, ?_⟩⟩
  rw [← Keyspace.rowIn_eq_bind_decode, ← find?_scanOf hk']
  exact hshows id

end

/-! A store with one service, and a table of four others. -/

section

open ImportRace CatchUp

def crowdedNode : Node := { lateNode with globalRows := Table.crowded }

theorem import_finds_decoded_crowded : unspoiled.IsKeyed ∧ crowdedNode.globalRows.IsWellFormed ∧
    crowdedNode.keyspace.FitsIn (unspoiled.touch 0).contents ∧ unspoiled.available = true ∧
    ∃ summary globalRows,
      importOnce.Alone 0 0 crowdedNode unspoiled (.imported (.ok (some summary)))
        { crowdedNode with globalRows } (unspoiled.touch 0) ∧
      summary.skipped = 0 ∧
      (∃ found, globalRows.find lateRow.id = .ok found ∧
        Row.sameFound found (some lateRow) = true) ∧
      globalRows.find (Table.rowAt "kept" 1).id = .ok none := by
  have hn : crowdedNode.globalRows.IsWellFormed := Table.crowded_isWellFormed
  have hf : crowdedNode.keyspace.FitsIn (unspoiled.touch 0).contents := unspoiled_fits
  have hs : unspoiled.available = true := rfl
  obtain ⟨summary, globalRows, halone, hskipped, hfound⟩ :=
    (import_finds_decoded 0 0 unspoiled_isKeyed hn hf).1 hs
  have hlate : ((unspoiled.touch 0).contents.find? (crowdedNode.keyspace.key lateRow.id)).bind
      (crowdedNode.keyspace.decode (crowdedNode.keyspace.key lateRow.id)) = some lateRow := by
    decide +kernel
  have hkept : (unspoiled.touch 0).contents.find?
      (crowdedNode.keyspace.key (Table.rowAt "kept" 1).id) = none := by
    decide +kernel
  have hlateFound := hfound lateRow.id (by decide +kernel)
  rw [hlate] at hlateFound
  obtain ⟨found, hfind, hsame⟩ := hfound (Table.rowAt "kept" 1).id (by decide +kernel)
  rw [hkept, Option.bind_none] at hsame
  cases found with
  | none =>
    exact ⟨unspoiled_isKeyed, hn, hf, hs, summary, globalRows, halone, hskipped, hlateFound, hfind⟩
  | some row => cases hsame

end

end ServiceDirectory
