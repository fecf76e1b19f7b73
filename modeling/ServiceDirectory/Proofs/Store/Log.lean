import ServiceDirectory.Proofs.Store.Effects

/-! # The log of the store

Whatever is done to a store, the events that it records account for what it holds: replaying them
over the contents before gives the contents after (`Step.follows`). Every entry stands under its own
key.
-/

namespace ServiceDirectory.Store

variable {s s' s'' : Store} {now : Nat} {x : Subject} {xs : List Subject}

def IsKeyed (s : Store) : Prop := ∀ key kv, s.entries.find? key = some kv → kv.key = key

theorem contents_eq_records (s : Store) : s.contents = s.records.mapValues (·.2.1) := by
  rw [records, Dictionary.mapValues_mapValues, contents]

theorem isKeyed_iff_records :
    s.IsKeyed ↔ ∀ key r, s.records.find? key = some r → r.1 = key := by
  simp only [records, Dictionary.find?_mapValues, Option.map_eq_some_iff]
  constructor
  · rintro h key _ ⟨kv, hf, rfl⟩
    exact h key kv hf
  · intro h key kv hf
    exact h key _ ⟨kv, hf, rfl⟩

/-- The log of `s'` continues that of `s`, and accounts for the difference of their contents. -/
structure Follows (s s' : Store) : Prop where
  log : ∃ events, s'.history = s.history ++ events ∧ s'.contents = replay events s.contents
  keyed : s.IsKeyed → s'.IsKeyed

theorem Follows.refl (s : Store) : s.Follows s := ⟨⟨[], by simp, rfl⟩, id⟩

theorem Follows.trans (h : s.Follows s') (h' : s'.Follows s'') : s.Follows s'' := by
  obtain ⟨a, ha, hac⟩ := h.log
  obtain ⟨b, hb, hbc⟩ := h'.log
  exact ⟨⟨a ++ b, by rw [hb, ha, List.append_assoc], by rw [hbc, hac, replay_append]⟩,
    h'.keyed ∘ h.keyed⟩

theorem Follows.since_eq (h : s.Follows s') :
    s'.history = s.history ++ s'.history.drop s.history.length ∧
      s'.contents = replay (s'.history.drop s.history.length) s.contents := by
  obtain ⟨es, hh, hc⟩ := h.log
  have hdrop : s'.history.drop s.history.length = es := by rw [hh, List.drop_left]
  rw [hdrop]
  exact ⟨hh, hc⟩

theorem Follows.since_append (h : s.Follows s') {es : List Event}
    (hh : s''.history = s'.history ++ es) :
    s''.history.drop s.history.length = s'.history.drop s.history.length ++ es := by
  rw [hh, h.since_eq.1, List.append_assoc, List.drop_left, List.drop_left]

theorem Kept.follows (h : s.Kept s') : s.Follows s' where
  log := ⟨[], by simp [h.history], by simp [contents, h.entries]⟩
  keyed hk := by rwa [IsKeyed, h.entries]

theorem Change.follows {entries : Dictionary Bytes KeyValue} {events : List Event}
    (h : s.Change entries events) : s.Follows (s.commit entries events) where
  log := by
    refine ⟨events, rfl, ?_⟩
    have hrec : (s.commit entries events).records = recount events s.records := h.records
    rw [contents_eq_records, hrec, mapValues_recount, ← contents_eq_records]
  keyed hk := by
    rw [isKeyed_iff_records] at hk ⊢
    intro key r hf
    have hf : (recount events s.records).find? key = some r := h.records ▸ hf
    exact find?_recount_keyed hk hf

theorem Effect.follows (h : Effect now x s s') : s.Follows s' := by
  by_cases hx : x = .keys
  · subst hx
    cases h with
    | commit hc => exact hc.follows
  · exact (h.kept hx).follows

theorem Does.follows (h : Does now xs s s') : s.Follows s' :=
  h.lift .refl .trans fun _ => (·.follows)

theorem follows_touch (s : Store) (now : Nat) : s.Follows (s.touch now) :=
  (does_touch s now).follows

theorem follows_closeWatch (s : Store) (feed : Nat) : s.Follows (s.closeWatch feed) :=
  (does_closeWatch 0 s feed).follows

theorem follows_serve {q : Request} {a : q.Answer} (h : s.serve now q = some (a, s')) :
    s.Follows s' := (does_serve h).follows

theorem Step.follows (h : Step s s') : s.Follows s' := by
  obtain ⟨_, _, h⟩ := h.does
  exact h.follows

theorem follows_of_steps (h : Relation.ReflTransGen Step s s') : s.Follows s' := by
  induction h with
  | refl => exact .refl _
  | tail _ hstep ih => exact ih.trans hstep.follows

theorem isKeyed_empty (maxTxnOps : Nat) : (empty maxTxnOps).IsKeyed := fun _ _ h => by cases h

end ServiceDirectory.Store
