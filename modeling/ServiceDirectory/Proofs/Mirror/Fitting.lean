import ServiceDirectory.Proofs.Mirror.Decoded
import ServiceDirectory.Proofs.Store.Bindings
import ServiceDirectory.Proofs.Table.Likeness

/-! # Contents whose rows can be stored

A table takes what it is told of only if it can be stored. Contents fit if their rows can be stored,
and they go on to fit while the events do that change a row. An event on a service that changes no
row leaves its key garbled: with a value that cannot be decoded.
-/

namespace ServiceDirectory

variable {s : Store} {now : Nat} {k : Keyspace} {e : Event} {es : List Event} {d : StoredValues}
  {id : ServiceId} {row : Row}

def Keyspace.FitsIn (k : Keyspace) (d : StoredValues) : Prop :=
  ∀ id row, k.rowIn d id = some row → row.IsStorable

/-- The row that the event puts, or the id that it deletes, can be stored. -/
def Event.Fits (k : Keyspace) (e : Event) : Prop := ∀ c, k.change? e = some c → c.IsStorable

/-- The key of the id holds a value that cannot be decoded. -/
def Keyspace.IsGarbledIn (k : Keyspace) (d : StoredValues) (id : ServiceId) : Prop :=
  id.isValid = true ∧ ∃ value, d.find? (k.key id) = some value ∧ k.decode (k.key id) value = none

namespace Keyspace

theorem rowIn_touch (h : k.rowIn (s.touch now).contents id = some row) :
    k.rowIn s.contents id = some row := by
  obtain ⟨hid, value, hf, hd⟩ := rowIn_eq_some_iff.1 h
  exact rowIn_eq_some_iff.2 ⟨hid, value, Store.find?_contents_touch hf, hd⟩

theorem FitsIn.touch (h : k.FitsIn s.contents) (now : Nat) : k.FitsIn (s.touch now).contents :=
  fun id row hr => h id row (rowIn_touch hr)

theorem fitsIn_empty (k : Keyspace) : k.FitsIn Dictionary.empty := by
  intro id row h
  obtain ⟨-, _, hf, -⟩ := rowIn_eq_some_iff.1 h
  rw [Dictionary.find?_empty] at hf
  cases hf

/-! ## Garbled keys -/

theorem IsGarbledIn.rowIn_eq_none (h : k.IsGarbledIn d id) : k.rowIn d id = none := by
  obtain ⟨-, value, hf, hd⟩ := h
  cases hr : k.rowIn d id with
  | none => rfl
  | some row =>
    obtain ⟨-, value', hf', hd'⟩ := rowIn_eq_some_iff.1 hr
    cases hf.symm.trans hf'
    cases hd.symm.trans hd'

theorem isGarbledIn_apply_of_ne (h : k.parseKey e.key ≠ some id) :
    k.IsGarbledIn (e.apply d) id ↔ k.IsGarbledIn d id := by
  refine and_congr_right fun hv => ?_
  rw [find?_apply_of_key_ne]
  rintro hk
  exact h (parseKey_eq_some_iff.2 ⟨hv, hk⟩)

/-- An event on a service that changes nothing leaves a value that cannot be decoded. -/
theorem isGarbledIn_of_change?_eq_none (h : k.change? e = none) (hk : k.parseKey e.key = some id) :
    k.IsGarbledIn (e.apply d) id := by
  obtain ⟨hv, hkey⟩ := parseKey_eq_some_iff.1 hk
  cases e with
  | put key value revision =>
    obtain rfl : key = k.key id := hkey
    exact ⟨hv, value, (Dictionary.find?_insert _ _ _ _).trans (if_pos rfl),
      Option.map_eq_none_iff.1 h⟩
  | delete key revision =>
    have hk : k.parseKey key = some id := hk
    simp [change?, hk] at h

/-! ## Events that fit -/

theorem FitsIn.replay (hd : k.FitsIn d) (hes : ∀ e ∈ es, e.Fits k) : k.FitsIn (replay es d) := by
  induction es generalizing d with
  | nil => exact hd
  | cons e es ih =>
    refine ih (fun id row hr => ?_) fun e he => hes e (.tail _ he)
    by_cases hk : k.parseKey e.key = some id
    · cases hc : k.change? e with
      | none =>
        rw [(isGarbledIn_of_change?_eq_none hc hk).rowIn_eq_none] at hr
        cases hr
      | some c =>
        obtain ⟨hk', hrow⟩ := change?_row? hc d
        cases hk.symm.trans hk'
        have hst := hes e (.head _) c hc
        rw [hr] at hrow
        cases c with
        | put row' => exact Option.some.inj hrow ▸ hst
        | delete id' => cases hrow
    · rw [rowIn_apply_of_ne hk] at hr
      exact hd id row hr

end Keyspace

theorem Event.fits_of_change? {c : RowChange} (h : k.change? e = some c) (hc : c.IsStorable) :
    e.Fits k := by
  intro c' h'
  obtain rfl := Option.some.inj (h.symm.trans h')
  exact hc

theorem Event.isStorable_of_mem_changes (hes : ∀ e ∈ es, e.Fits k) :
    ∀ c ∈ es.filterMap k.change?, c.IsStorable := by
  intro c hc
  obtain ⟨e, he, hce⟩ := List.mem_filterMap.1 hc
  exact hes e he c hce

theorem Event.fits_of_change?_eq_none (h : k.change? e = none) : e.Fits k := by
  intro c hc
  rw [h] at hc
  cases hc

end ServiceDirectory
