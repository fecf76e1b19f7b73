import ServiceDirectory.Activity.Synchronization
import ServiceDirectory.Proofs.Keyspace.Values
import ServiceDirectory.Proofs.Store.Log
import ServiceDirectory.Proofs.Store.Range
import ServiceDirectory.Proofs.Table.Merge

/-! # Tables and the remote store

The contents of a store have a row for each valid id whose key holds a value that can be decoded
(`rowIn`). A scan reads these rows, and events move a table of rows as they move the contents: of
every id that an event concerned the table has the row that the contents have then
(`row?_foldl_mirror`).
-/

namespace ServiceDirectory

open Activity

namespace Keyspace

variable {k : Keyspace} {id : ServiceId} {row : Row} {d : StoredValues}

def rowIn (k : Keyspace) (d : StoredValues) (id : ServiceId) : Option Row :=
  if id.isValid then (d.find? (k.key id)).bind (decodeValue id) else none

theorem rowIn_eq_some_iff : k.rowIn d id = some row ↔
    row.id = id ∧ ∃ value, d.find? (k.key id) = some value ∧
      k.decode (k.key id) value = some row := by
  unfold rowIn
  constructor
  · intro h
    split at h
    · next hv =>
      obtain ⟨value, hf, hd⟩ := Option.bind_eq_some_iff.1 h
      obtain rfl := decodeValue_id hd
      exact ⟨rfl, value, hf, decode_eq_some_iff.2 ⟨hv, rfl, hd⟩⟩
    · cases h
  · rintro ⟨rfl, value, hf, hd⟩
    obtain ⟨hv, -, hd⟩ := decode_eq_some_iff.1 hd
    simp [hv, hf, hd]

theorem find?_apply_of_key_ne {e : Event} {key : Bytes} (h : e.key ≠ key) :
    (e.apply d).find? key = d.find? key := by
  cases e with
  | put k value revision => exact (Dictionary.find?_insert _ _ _ _).trans (if_neg (Ne.symm h))
  | delete k revision => exact (Dictionary.find?_erase _ _ _).trans (if_neg (Ne.symm h))

theorem rowIn_apply_of_ne {e : Event} (h : k.parseKey e.key ≠ some id) :
    k.rowIn (e.apply d) id = k.rowIn d id := by
  unfold rowIn
  split
  · next hv =>
    rw [find?_apply_of_key_ne]
    rintro hk
    exact h (parseKey_eq_some_iff.2 ⟨hv, hk⟩)
  · rfl

theorem rowIn_replay_of_ne {es : List Event} (h : ∀ e ∈ es, k.parseKey e.key ≠ some id) :
    k.rowIn (replay es d) id = k.rowIn d id := by
  induction es generalizing d with
  | nil => rfl
  | cons e es ih =>
    exact (ih fun e he => h e (.tail _ he)).trans (rowIn_apply_of_ne (h e (.head _)))

/-- What an event on an id leaves does not depend on what was there. -/
theorem rowIn_apply_congr {d' : StoredValues} {e : Event} (h : k.parseKey e.key = some id) :
    k.rowIn (e.apply d) id = k.rowIn (e.apply d') id := by
  obtain ⟨-, hkey⟩ := parseKey_eq_some_iff.1 h
  have hf : ∀ d : StoredValues, (e.apply d).find? (k.key id) = match e with
      | .put _ value _ => some value
      | .delete _ _ => none := by
    intro d
    cases e with
    | put key value revision => exact (Dictionary.find?_insert ..).trans (if_pos hkey.symm)
    | delete key revision => exact (Dictionary.find?_erase ..).trans (if_pos hkey.symm)
  rw [rowIn, rowIn, hf d, hf d']

/-- The same events leave the same row of an id that one of them concerns, or whose row was the
same. -/
theorem rowIn_replay_congr {d' : StoredValues} {es : List Event}
    (h : (∃ e ∈ es, k.parseKey e.key = some id) ∨ k.rowIn d id = k.rowIn d' id) :
    k.rowIn (replay es d) id = k.rowIn (replay es d') id := by
  induction es generalizing d d' with
  | nil => simpa using h
  | cons e es ih =>
    by_cases hk : k.parseKey e.key = some id
    · exact ih (.inr (rowIn_apply_congr hk))
    · obtain ⟨e', he', hk'⟩ | hsame := h
      · obtain rfl | he' := List.mem_cons.1 he'
        · exact absurd hk' hk
        · exact ih (.inl ⟨e', he', hk'⟩)
      · refine ih (.inr ?_)
        rw [rowIn_apply_of_ne hk, rowIn_apply_of_ne hk, hsame]

def range (k : Keyspace) : KeyRange := .withPrefix k.beginning

theorem range_contains_of_parseKey {key : Bytes} (h : k.parseKey key = some id) :
    k.range.contains key = true := by
  obtain ⟨-, rfl⟩ := parseKey_eq_some_iff.1 h
  exact KeyRange.contains_withPrefix (beginning_prefix_key k id)

end Keyspace

/-! ## Scans -/

section

variable {k : Keyspace} {s : Store} {id : ServiceId} {row : Row}

theorem mem_decodeAll_iff (hs : s.IsKeyed) {p : Bytes → Bool}
    (hp : ∀ key id, k.parseKey key = some id → p key = true) :
    row ∈ decodeAll k (s.entries.filter fun key _ => p key).values ↔
      k.rowIn s.contents row.id = some row := by
  simp only [decodeAll, List.mem_filterMap, Dictionary.mem_values_iff, Keyspace.rowIn_eq_some_iff,
    Dictionary.find?_filter, Option.filter_eq_some_iff, true_and]
  constructor
  · rintro ⟨kv, ⟨key, hf, -⟩, hd⟩
    obtain rfl := hs key kv hf
    have hk : kv.key = k.key row.id := (Keyspace.decode_eq_some_iff.1 hd).2.1
    refine ⟨kv.value, ?_, hk ▸ hd⟩
    rw [← hk, Store.contents, Dictionary.find?_mapValues, hf]
    rfl
  · rintro ⟨value, hf, hd⟩
    rw [Store.contents, Dictionary.find?_mapValues] at hf
    obtain ⟨kv, hkv, rfl⟩ := Option.map_eq_some_iff.1 hf
    have hk := hs _ kv hkv
    exact ⟨kv, ⟨_, hkv, hp _ _ (Keyspace.decode_id hd)⟩, hk ▸ hd⟩

theorem find?_rowsById_decodeAll (hs : s.IsKeyed) {p : Bytes → Bool}
    (hp : ∀ key id, k.parseKey key = some id → p key = true) (id : ServiceId) :
    (rowsById (decodeAll k (s.entries.filter fun key _ => p key).values)).find? id =
      k.rowIn s.contents id := by
  have hmem : ∀ row,
      (rowsById (decodeAll k (s.entries.filter fun key _ => p key).values)).find? id = some row →
      k.rowIn s.contents id = some row := by
    intro row h
    obtain ⟨hm, rfl⟩ := mem_of_find?_rowsById h
    exact (mem_decodeAll_iff hs hp).1 hm
  ext row
  constructor
  · exact hmem row
  · intro h
    obtain rfl := (Keyspace.rowIn_eq_some_iff.1 h).1
    have hm : row ∈ decodeAll k _ := (mem_decodeAll_iff hs hp).2 h
    rw [find?_rowsById]
    cases hl : Dictionary.lastFor row.id
        ((decodeAll k (s.entries.filter fun key _ => p key).values).map fun r => (r.id, r)) with
    | none => exact absurd rfl (Dictionary.lastFor_eq_none_iff.1 hl _ (List.mem_map_of_mem hm))
    | some r =>
      rw [← find?_rowsById] at hl
      rw [← h, hmem r hl]

/-- The table of the rows that a store has. -/
def Store.decodedTable (k : Keyspace) (s : Store) : Table :=
  ((decodeAll k s.entries.values).map RowChange.put).foldl Table.change .empty

theorem Dictionary.filter_true {α β : Type} [Ord α] (d : Dictionary α β) :
    (d.filter fun _ _ => true) = d := Dictionary.ext (List.filter_true _)

theorem mem_decodeAll_values_iff (hs : s.IsKeyed) :
    row ∈ decodeAll k s.entries.values ↔ k.rowIn s.contents row.id = some row := by
  rw [← mem_decodeAll_iff hs (p := fun _ => true) fun _ _ _ => rfl, Dictionary.filter_true]

theorem decodeAll_isProper {kvs : List KeyValue}
    (hst : ∀ row ∈ decodeAll k kvs, row.IsStorable) : ∀ row ∈ decodeAll k kvs, row.IsProper := by
  intro row h
  obtain ⟨kv, -, hd⟩ := List.mem_filterMap.1 h
  exact ⟨hst row h, Keyspace.decode_isCanonical hd⟩

theorem Store.decodedTable_isProper (hst : ∀ row ∈ decodeAll k s.entries.values, row.IsStorable) :
    (s.decodedTable k).IsProper := by
  apply Table.isProper_empty.foldl_change
  intro c hc
  obtain ⟨row, hrow, rfl⟩ := List.mem_map.1 hc
  exact decodeAll_isProper hst row hrow

theorem Store.row?_decodedTable (hs : s.IsKeyed)
    (hst : ∀ row ∈ decodeAll k s.entries.values, row.IsStorable) (id : ServiceId) :
    (s.decodedTable k).row? id = k.rowIn s.contents id := by
  have hc : ∀ c ∈ (decodeAll k s.entries.values).map RowChange.put, c.IsProper := by
    intro c hc
    obtain ⟨row, hrow, rfl⟩ := List.mem_map.1 hc
    exact decodeAll_isProper hst row hrow
  have hscan := find?_rowsById_decodeAll (k := k) hs (p := fun _ => true) (fun _ _ _ => rfl) id
  rw [Dictionary.filter_true, find?_rowsById] at hscan
  rw [Store.decodedTable, Table.isProper_empty.row?_foldl_change hc, ← hscan, Table.row?_empty]
  rw [Dictionary.lastFor, Dictionary.lastFor, List.map_map, ← List.map_reverse, ← List.map_reverse,
    List.find?_map, List.find?_map]
  change (Option.map _ (Option.map _ ((decodeAll k s.entries.values).reverse.find? fun r =>
    decide (r.id = id)))).getD none = Option.map _ (Option.map _
      ((decodeAll k s.entries.values).reverse.find? fun r => decide (r.id = id)))
  cases (decodeAll k s.entries.values).reverse.find? fun r => decide (r.id = id) <;> rfl

end

/-! ## Events -/

/-- A put of a service can be decoded into a row that can be stored, and a deleted service could be
stored. -/
def Event.IsReadable (k : Keyspace) : Event → Prop
  | .put key value _ => ∀ id, k.parseKey key = some id →
      ∃ row, k.decode key value = some row ∧ row.IsStorable
  | .delete key _ => ∀ id, k.parseKey key = some id → id.IsStorable

section

variable {k : Keyspace} {t : Table} {e : Event} {es : List Event}

theorem change?_eq_none_iff : k.change? e = none → ∀ id, e.IsReadable k →
    k.parseKey e.key ≠ some id := by
  intro h id he hk
  cases e with
  | put key value revision =>
    obtain ⟨row, hd, -⟩ := he id hk
    simp [Keyspace.change?, hd] at h
  | delete key revision =>
    have hk : k.parseKey key = some id := hk
    simp [Keyspace.change?, hk] at h

theorem Event.IsReadable.change_isProper (he : e.IsReadable k) {c : RowChange}
    (h : k.change? e = some c) : c.IsProper := by
  cases e with
  | put key value revision =>
    obtain ⟨row, hd, rfl⟩ := Option.map_eq_some_iff.1 h
    obtain ⟨row', hd', hst⟩ := he _ (Keyspace.decode_id hd)
    rw [hd] at hd'
    cases hd'
    exact ⟨hst, Keyspace.decode_isCanonical hd⟩
  | delete key revision =>
    obtain ⟨id, hk, rfl⟩ := Option.map_eq_some_iff.1 h
    exact he id hk

def mirror (k : Keyspace) (t : Table) (e : Event) : Table := (k.change? e).elim t t.change

theorem mirror_isProper (ht : t.IsProper) (he : e.IsReadable k) : (mirror k t e).IsProper := by
  unfold mirror
  cases h : k.change? e with
  | none => exact ht
  | some c => exact ht.change (he.change_isProper h)

theorem Keyspace.change?_row? {c : RowChange} (h : k.change? e = some c) (d : StoredValues) :
    k.parseKey e.key = some c.id ∧ c.row? = k.rowIn (e.apply d) c.id := by
  cases e with
  | put key value revision =>
    obtain ⟨row, hd, rfl⟩ := Option.map_eq_some_iff.1 h
    have hk := (Keyspace.decode_eq_some_iff.1 hd).2.1
    refine ⟨Keyspace.decode_id hd, (Keyspace.rowIn_eq_some_iff.2 ⟨rfl, value, ?_, ?_⟩).symm⟩
    · exact (Dictionary.find?_insert _ _ _ _).trans (if_pos hk.symm)
    · exact hk ▸ hd
  | delete key revision =>
    obtain ⟨id, hk, rfl⟩ := Option.map_eq_some_iff.1 h
    refine ⟨hk, ?_⟩
    obtain ⟨-, rfl⟩ := Keyspace.parseKey_eq_some_iff.1 hk
    have hf : ((Event.delete (k.key id) revision).apply d).find? (k.key id) = none :=
      (Dictionary.find?_erase _ _ _).trans (if_pos rfl)
    simp [RowChange.row?, RowChange.id, Keyspace.rowIn, hf]

theorem row?_mirror (ht : t.IsProper) (he : e.IsReadable k) (d : StoredValues) (id : ServiceId) :
    (mirror k t e).row? id =
      if k.parseKey e.key = some id then k.rowIn (e.apply d) id else t.row? id := by
  unfold mirror
  cases h : k.change? e with
  | none => rw [if_neg (change?_eq_none_iff h id he)]; rfl
  | some c =>
    obtain ⟨hk, hrow⟩ := Keyspace.change?_row? h d
    rw [Option.elim_some, ht.row?_change (he.change_isProper h), hk]
    by_cases hid : id = c.id
    · simp [hid, hrow]
    · simp [hid, Ne.symm hid]

theorem handleEvents_eq (ht : t.IsProper) (hes : ∀ e ∈ es, e.IsReadable k) :
    handleEvents k t es = es.foldl (mirror k) t := by
  have hc : ∀ c ∈ es.filterMap k.change?, c.IsProper := by
    intro c hc
    obtain ⟨e, he, h⟩ := List.mem_filterMap.1 hc
    exact (hes e he).change_isProper h
  obtain ⟨n, h⟩ := ht.apply_eq hc
  rw [handleEvents, h, List.foldl_filterMap]
  refine congrArg (fun f => es.foldl f t) (funext fun t => funext fun e => ?_)
  cases h : k.change? e <;> simp [mirror, h]

theorem foldl_mirror_isProper (ht : t.IsProper) (hes : ∀ e ∈ es, e.IsReadable k) :
    (es.foldl (mirror k) t).IsProper := by
  induction es generalizing t with
  | nil => exact ht
  | cons e es ih => exact ih (mirror_isProper ht (hes e (.head _))) fun e he => hes e (.tail _ he)

/-- Events leave the rows that they do not concern, and of the others what the contents have after
them, whatever the contents were. -/
theorem row?_foldl_mirror (ht : t.IsProper) (hes : ∀ e ∈ es, e.IsReadable k) (d : StoredValues)
    (id : ServiceId) : (es.foldl (mirror k) t).row? id =
      if ∃ e ∈ es, k.parseKey e.key = some id then k.rowIn (replay es d) id else t.row? id := by
  induction es generalizing t d with
  | nil => simp
  | cons e es ih =>
    have he := hes e (.head _)
    have hrest : ∀ e ∈ es, e.IsReadable k := fun e he => hes e (.tail _ he)
    have hreplay : replay (e :: es) d = replay es (e.apply d) := rfl
    rw [List.foldl_cons, ih (mirror_isProper ht he) hrest (e.apply d), row?_mirror ht he d, hreplay]
    by_cases hlater : ∃ e ∈ es, k.parseKey e.key = some id
    · simp [hlater]
    · have hne : ∀ e ∈ es, k.parseKey e.key ≠ some id := fun e he hk => hlater ⟨e, he, hk⟩
      rw [if_neg hlater, Keyspace.rowIn_replay_of_ne hne]
      simp only [List.mem_cons, exists_eq_or_imp, hlater, or_false]

theorem handleEvents_rows {d : StoredValues} (ht : t.IsProper) (hes : ∀ e ∈ es, e.IsReadable k)
    (h : ∀ id, t.row? id = k.rowIn d id) (id : ServiceId) :
    (handleEvents k t es).row? id = k.rowIn (replay es d) id := by
  rw [handleEvents_eq ht hes, row?_foldl_mirror ht hes d, h]
  split
  · rfl
  · next hno => exact (Keyspace.rowIn_replay_of_ne fun e he hk => hno ⟨e, he, hk⟩).symm

theorem handleEvents_filter_range (k : Keyspace) (t : Table) (es : List Event) :
    handleEvents k t (es.filter fun e => k.range.contains e.key) = handleEvents k t es := by
  have h : (es.filter fun e => k.range.contains e.key).filterMap k.change? =
      es.filterMap k.change? := by
    rw [List.filterMap_filter]
    congr
    funext e
    split
    · rfl
    · next hr =>
      have hk : k.parseKey e.key = none := by
        cases h : k.parseKey e.key with
        | none => rfl
        | some id => exact absurd (Keyspace.range_contains_of_parseKey h) hr
      cases e with
      | put key value revision =>
        exact (congrArg (Option.map RowChange.put) (Keyspace.decode_eq_none_of_parseKey hk)).symm
      | delete key revision => exact (congrArg (Option.map RowChange.delete) hk).symm
  rw [handleEvents, handleEvents, h]

end

end ServiceDirectory
