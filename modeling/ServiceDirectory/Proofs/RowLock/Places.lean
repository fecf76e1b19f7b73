import ServiceDirectory.Proofs.RowLock.Line

/-! # Places in line

A task stands in the lines of some rows, and in front in some of these (`Places`). Whatever it does
at the row locks, it leaves to all others their places (`Spares`), so that each task can be looked
at on its own.
-/

namespace ServiceDirectory.RowLocks

variable {l l' : RowLocks} {me t : Nat} {id : ServiceId} {held awaited : List ServiceId}

/-- The task is in line for these rows, and in front for those that it holds. -/
structure Places (l : RowLocks) (me : Nat) (held awaited : List ServiceId) : Prop where
  mem_order_iff : ∀ id, me ∈ l.order id ↔ id ∈ held ++ awaited
  first : ∀ id ∈ held, (l.order id).head? = some me

/-- A step of one task that leaves to the others their places in line. -/
structure Spares (me : Nat) (l l' : RowLocks) : Prop where
  sound : l'.Sound
  order : ∀ id, (l'.order id).filter (· ≠ me) = (l.order id).filter (· ≠ me)
  first : ∀ id t, t ≠ me → (l.order id).head? = some t → (l'.order id).head? = some t

theorem places_nil_iff : l.Places me [] [] ↔ ∀ id, me ∉ l.order id :=
  ⟨fun h id hm => List.not_mem_nil ((h.mem_order_iff id).1 hm),
    fun h => ⟨fun id => iff_of_false (h id) List.not_mem_nil, nofun⟩⟩

theorem Spares.refl (h : l.Sound) : Spares me l l := ⟨h, fun _ => rfl, fun _ _ _ h => h⟩

theorem Spares.mem_order_iff (h : Spares me l l') (ht : t ≠ me) (id : ServiceId) :
    t ∈ l'.order id ↔ t ∈ l.order id := by
  have hf : ∀ l : List Nat, t ∈ l ↔ t ∈ l.filter (· ≠ me) := fun l => by simp [ht]
  rw [hf (l'.order id), h.order, ← hf]

theorem Spares.places (h : Spares me l l') (ht : t ≠ me) (hp : l.Places t held awaited) :
    l'.Places t held awaited where
  mem_order_iff id := (h.mem_order_iff ht id).trans (hp.mem_order_iff id)
  first id hid := h.first id t ht (hp.first id hid)

/-! ## Coming to wait, and going on -/

theorem Sound.spares_claim (h : l.Sound) (hid : me ∉ l.order id) :
    Spares me l (l.claim me id) := by
  refine ⟨h.claim hid, fun id' => ?_, fun id' t ht hh => ?_⟩
  · rw [order_claim hid]
    split
    · next h => simp [h]
    · rfl
  · rw [order_claim hid]
    split
    · next h =>
      subst h
      rw [List.head?_append, hh]
      rfl
    · exact hh

theorem Places.claim (h : l.Places me held []) (hid : id ∉ held) :
    (l.claim me id).Places me held [id] := by
  have hme : me ∉ l.order id := fun hm => hid (by simpa using (h.mem_order_iff id).1 hm)
  refine ⟨fun id' => ?_, fun id' hid' => ?_⟩
  · rw [order_claim hme]
    have := h.mem_order_iff id'
    by_cases he : id' = id
    · simp [he]
    · simpa [he] using this
  · rw [order_claim hme, if_neg fun (he : id' = id) => hid (he ▸ hid')]
    exact h.first id' hid'

theorem Sound.spares_take (h : l.Sound) (me : Nat) (id : ServiceId) :
    Spares me l (l.take me id) :=
  ⟨h.take me id, fun id' => by rw [order_take], fun id' t _ hh => by rwa [order_take]⟩

theorem Places.take (h : l.Places me held [id]) (hl : l.Sound) (hown : l.owns me id = true) :
    (l.take me id).Places me (held ++ [id]) [] := by
  refine ⟨fun id' => ?_, fun id' hid' => ?_⟩
  · rw [order_take, List.append_nil]
    exact h.mem_order_iff id'
  · rw [order_take]
    rcases List.mem_append.1 hid' with hid' | hid'
    · exact h.first id' hid'
    · rw [List.mem_singleton.1 hid']
      exact hl.owns_iff.1 hown

/-! ## Leaving -/

theorem head?_filter_ne {ts : List Nat} (h : ts.head? = some t) (ht : t ≠ me) :
    (ts.filter (· ≠ me)).head? = some t := by
  obtain ⟨ts, rfl⟩ := List.head?_eq_some_iff.1 h
  simp [ht]

theorem Spares.of_leaving (hl : l'.Sound)
    (ho : ∀ id, l'.order id = l.order id ∨ l'.order id = (l.order id).filter (· ≠ me)) :
    Spares me l l' := by
  refine ⟨hl, fun id => ?_, fun id t ht hh => ?_⟩
  · rcases ho id with h | h
    · rw [h]
    · rw [h, List.filter_filter]
      simp
  · rcases ho id with h | h
    · rwa [h]
    · rw [h]
      exact head?_filter_ne hh ht

def releaseAll (me : Nat) (held : List ServiceId) (l : RowLocks) : RowLocks :=
  held.foldl (fun l id => l.release me id) l

theorem Sound.releaseAll (h : l.Sound) (me : Nat) (held : List ServiceId) :
    (l.releaseAll me held).Sound ∧ ∀ id, (l.releaseAll me held).order id =
      if id ∈ held then (l.order id).filter (· ≠ me) else l.order id := by
  induction held generalizing l with
  | nil => exact ⟨h, by simp [RowLocks.releaseAll]⟩
  | cons id held ih =>
    obtain ⟨hl, ho⟩ := ih (h.release me id)
    refine ⟨hl, fun id' => (ho id').trans ?_⟩
    rw [h.order_release]
    by_cases hid : id' = id
    · simp [hid, List.filter_filter]
    · simp [hid]

theorem Sound.spares_releaseAll (h : l.Sound) (me : Nat) (held : List ServiceId) :
    Spares me l (l.releaseAll me held) := by
  obtain ⟨hl, ho⟩ := h.releaseAll me held
  refine .of_leaving hl fun id => ?_
  rw [ho]
  split
  · exact .inr rfl
  · exact .inl rfl

theorem Places.releaseAll (h : l.Places me held []) (hl : l.Sound) :
    (l.releaseAll me held).Places me [] [] := by
  refine places_nil_iff.2 fun id => ?_
  rw [(hl.releaseAll me held).2]
  split
  · simp
  · next hid => exact fun hm => hid (by simpa using (h.mem_order_iff id).1 hm)

theorem Sound.spares_drop (h : l.Sound) (me : Nat) :
    Spares me l (l.drop me) ∧ (l.drop me).Places me [] [] := by
  obtain ⟨hl, ho⟩ := h.drop me
  refine ⟨.of_leaving hl fun id => .inr (ho id), places_nil_iff.2 fun id => ?_⟩
  rw [ho]
  simp

end ServiceDirectory.RowLocks
