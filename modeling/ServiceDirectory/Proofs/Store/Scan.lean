import ServiceDirectory.Proofs.Store.Bound
import ServiceDirectory.Proofs.Store.Range

/-! # Scans

A request for a range is answered with the entries whose keys lie in it, in the order of the keys.
Every entry stands under its own key, whatever was done to the store, so a scan of a beginning finds
the entries that have it and no others (`scan_prefix`).
-/

namespace ServiceDirectory.Store

open Relation

variable {s : Store} {now : Nat} {r : KeyRange} {kv : KeyValue}

def inRange (s : Store) (r : KeyRange) : List KeyValue :=
  (s.entries.filter fun key _ => r.contains key).values

theorem ask?_getRange (h : s.available = true) (r : KeyRange) :
    s.ask? now (.getRange r) = some (.ok ((s.touch now).inRange r), s.touch now) := by
  rw [ask?_eq_serve h (by simp)]
  rfl

theorem IsKeyed.mem_inRange_iff (hk : s.IsKeyed) :
    kv ∈ s.inRange r ↔ r.contains kv.key = true ∧ s.entries.find? kv.key = some kv := by
  rw [inRange, Dictionary.mem_values_iff]
  simp only [Dictionary.find?_filter, Option.filter_eq_some_iff]
  constructor
  · rintro ⟨key, hf, hc⟩
    obtain rfl := hk key kv hf
    exact ⟨hc, hf⟩
  · rintro ⟨hc, hf⟩
    exact ⟨kv.key, hf, hc⟩

theorem IsKeyed.inRange_ascending (hk : s.IsKeyed) (r : KeyRange) :
    (s.inRange r).Pairwise fun a b => compare a.key b.key = .lt := by
  have hkeys : (s.inRange r).map (·.key) = (s.entries.filter fun key _ => r.contains key).keys := by
    refine Dictionary.map_values_eq_keys _ fun key kv hf => ?_
    rw [Dictionary.find?_filter] at hf
    exact hk key kv (Option.filter_eq_some_iff.1 hf).1
  exact List.pairwise_map.1 (hkeys ▸ Dictionary.ascending_keys _)

/-- The range of a beginning is that of the keys that have it. Of a store with whatever content, as
far as no lease is due, a scan finds all entries that have the beginning and no others, each of them
once and in the order of their keys. -/
theorem scan_prefix (p : Bytes) :
    (∀ key, (KeyRange.withPrefix p).contains key = true ↔ p <+: key) ∧
    (prefixEnd p ≠ [] ∧ (prefixEnd p = unbounded ↔ ∀ b ∈ p, b = 255)) ∧
    ∀ maxTxnOps s now, ReflTransGen Step (empty maxTxnOps) s →
      (s.available = true → ∃ found,
        s.ask? now (.getRange (.withPrefix p)) = some (.ok found, s.touch now) ∧
        (∀ kv, kv ∈ found ↔ p <+: kv.key ∧ (s.touch now).entries.find? kv.key = some kv) ∧
        found.Pairwise fun a b => compare a.key b.key = .lt) ∧
      (s.available = false →
        s.ask? now (.getRange (.withPrefix p)) = some (.error offline, s)) := by
  refine ⟨fun key => KeyRange.contains_withPrefix_iff,
    ⟨prefixEnd_ne_nil p, prefixEnd_eq_unbounded_iff⟩, fun maxTxnOps s now hs => ⟨fun ha => ?_,
    fun ha => ask?_of_offline ha rfl⟩⟩
  have hk : (s.touch now).IsKeyed :=
    ((follows_of_steps hs).trans (follows_touch s now)).keyed (isKeyed_empty maxTxnOps)
  refine ⟨_, ask?_getRange ha _, fun kv => ?_, hk.inRange_ascending _⟩
  rw [hk.mem_inRange_iff, KeyRange.contains_withPrefix_iff]

/-- A store with keys at the upper end of the order, and one below them. -/
def highest : Store :=
  (((empty 1).seed 0 [255, 255, 0] [1] none).seed 0 [254, 255] [2] none).seed 0 [255] [3] none

theorem scan_prefix_highest : ReflTransGen Step (empty 1) highest ∧
    prefixEnd [255] = unbounded ∧ ∃ found,
      highest.ask? 0 (.getRange (.withPrefix [255])) = some (.ok found, highest.touch 0) ∧
      ⟨[255], [3], 3, 0⟩ ∈ found ∧ ⟨[255, 255, 0], [1], 1, 0⟩ ∈ found ∧
      ∀ kv ∈ found, kv.key ≠ [254, 255] := by
  have hs : ReflTransGen Step (empty 1) highest :=
    ((ReflTransGen.single (.seed _ 0 _ _ none)).tail (.seed _ 0 _ _ none)).tail (.seed _ 0 _ _ none)
  obtain ⟨-, ⟨-, hend⟩, hscan⟩ := scan_prefix [255]
  obtain ⟨found, hask, hmem, -⟩ := (hscan 1 highest 0 hs).1 rfl
  refine ⟨hs, hend.2 fun _ => List.mem_singleton.1, found, hask, (hmem _).2 (by decide),
    (hmem _).2 (by decide), fun kv hkv hkey => ?_⟩
  have hbegins := ((hmem kv).1 hkv).1
  rw [hkey] at hbegins
  exact absurd hbegins (by decide)

end ServiceDirectory.Store
