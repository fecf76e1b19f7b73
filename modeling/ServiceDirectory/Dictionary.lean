/-! # Ordered dictionaries

A dictionary is a list of bindings in strictly ascending key order. It is determined by its
look-ups (`ext_find?`), and the look-ups after each change are given by `find?_insert` and
`find?_erase`. Metadata, tables of rows and the keys of a store are dictionaries.
-/

namespace ServiceDirectory

structure Dictionary (α β : Type) [Ord α] where
  entries : List (α × β)
  ascending : entries.Pairwise (fun a b => compare a.1 b.1 = .lt)

namespace Dictionary

variable {α β : Type} [Ord α]

theorem ext {d e : Dictionary α β} (h : d.entries = e.entries) : d = e := by
  cases d; cases e; cases h; rfl

theorem eq_iff {d e : Dictionary α β} : d = e ↔ d.entries = e.entries :=
  ⟨fun h => h ▸ rfl, ext⟩

instance [DecidableEq α] [DecidableEq β] : DecidableEq (Dictionary α β) :=
  fun _ _ => decidable_of_iff _ eq_iff.symm

def empty : Dictionary α β := ⟨[], .nil⟩

instance : Inhabited (Dictionary α β) := ⟨empty⟩

instance : EmptyCollection (Dictionary α β) := ⟨empty⟩

def find? (d : Dictionary α β) (k : α) : Option β :=
  (d.entries.find? fun e => compare k e.1 == .eq).map (·.2)

def contains (d : Dictionary α β) (k : α) : Bool := (d.find? k).isSome

def size (d : Dictionary α β) : Nat := d.entries.length

def keys (d : Dictionary α β) : List α := d.entries.map (·.1)

def values (d : Dictionary α β) : List β := d.entries.map (·.2)

def filter (d : Dictionary α β) (p : α → β → Bool) : Dictionary α β :=
  ⟨d.entries.filter fun e => p e.1 e.2, d.ascending.filter _⟩

def erase (d : Dictionary α β) (k : α) : Dictionary α β :=
  d.filter fun k' _ => compare k k' != .eq

def mapValues {γ : Type} (d : Dictionary α β) (f : β → γ) : Dictionary α γ :=
  ⟨d.entries.map fun e => (e.1, f e.2), d.ascending.map _ fun _ _ h => h⟩

def insertEntry (k : α) (v : β) : List (α × β) → List (α × β)
  | [] => [(k, v)]
  | e :: r => match compare k e.1 with
    | .lt => (k, v) :: e :: r
    | .eq => (k, v) :: r
    | .gt => e :: insertEntry k v r

theorem mem_insertEntry {k : α} {v : β} {l : List (α × β)} {x : α × β}
    (h : x ∈ insertEntry k v l) : x = (k, v) ∨ x ∈ l := by
  induction l with
  | nil => simpa [insertEntry] using h
  | cons e r ih => grind [insertEntry]

section

variable [Std.TransOrd α]

theorem insertEntry_ascending (k : α) (v : β) {l : List (α × β)}
    (h : l.Pairwise fun a b => compare a.1 b.1 = .lt) :
    (insertEntry k v l).Pairwise fun a b => compare a.1 b.1 = .lt := by
  induction l with
  | nil => simp [insertEntry]
  | cons e r ih =>
    obtain ⟨he, hr⟩ := List.pairwise_cons.1 h
    unfold insertEntry
    split
    · next hlt =>
      refine List.pairwise_cons.2 ⟨fun x hx => ?_, h⟩
      rcases List.mem_cons.1 hx with rfl | hx
      · exact hlt
      · exact Std.TransCmp.lt_trans hlt (he x hx)
    · next heq =>
      refine List.pairwise_cons.2 ⟨fun x hx => ?_, hr⟩
      exact Std.TransCmp.lt_of_eq_of_lt heq (he x hx)
    · next hgt =>
      refine List.pairwise_cons.2 ⟨fun x hx => ?_, ih hr⟩
      rcases mem_insertEntry hx with rfl | hx
      · exact Std.OrientedCmp.lt_of_gt hgt
      · exact he x hx

def insert (d : Dictionary α β) (k : α) (v : β) : Dictionary α β :=
  ⟨insertEntry k v d.entries, insertEntry_ascending k v d.ascending⟩

/-- A later binding of a key replaces an earlier one. -/
def ofList (l : List (α × β)) : Dictionary α β :=
  l.foldl (fun d e => d.insert e.1 e.2) empty

end

@[simp] theorem find?_empty (k : α) : (empty : Dictionary α β).find? k = none := rfl

section

variable [Std.TransOrd α] [Std.LawfulEqOrd α] [DecidableEq α]

omit [Std.TransOrd α] in
theorem find?_insertEntry (k k' : α) (v : β) (l : List (α × β)) :
    (insertEntry k v l).find? (fun e => compare k' e.1 == .eq) =
      if k' = k then some (k, v) else l.find? fun e => compare k' e.1 == .eq := by
  induction l with
  | nil => by_cases h : k' = k <;> simp [insertEntry, h]
  | cons e r ih =>
    unfold insertEntry
    split
    · by_cases h : k' = k <;> simp [h]
    · next heq =>
      obtain rfl := Std.LawfulEqCmp.eq_of_compare heq
      by_cases h : k' = e.1 <;> simp [h]
    · next hgt =>
      by_cases h : k' = k
      · subst h
        simp [hgt, ih]
      · simp [List.find?_cons, ih, h]

theorem find?_insert (d : Dictionary α β) (k k' : α) (v : β) :
    (d.insert k v).find? k' = if k' = k then some v else d.find? k' := by
  simp only [find?, insert, find?_insertEntry]
  split <;> rfl

omit [Std.TransOrd α] in
theorem find?_erase (d : Dictionary α β) (k k' : α) :
    (d.erase k).find? k' = if k' = k then none else d.find? k' := by
  simp only [find?, erase, filter, List.find?_filter]
  by_cases h : k' = k
  · subst h
    simp
  · rw [if_neg h]
    congr 1
    congr 1
    funext e
    by_cases he : k' = e.1
    · subst he
      have : compare k e.1 ≠ .eq := fun hc => h (Std.LawfulEqCmp.eq_of_compare hc).symm
      simp [this]
    · simp [he]

omit [Std.TransOrd α] in
theorem find?_eq_some_iff (d : Dictionary α β) (k : α) (v : β) :
    d.find? k = some v ↔ (k, v) ∈ d.entries := by
  obtain ⟨l, hl⟩ := d
  simp only [find?]
  induction l with
  | nil => simp
  | cons e r ih =>
    obtain ⟨he, hr⟩ := List.pairwise_cons.1 hl
    by_cases h : k = e.1
    · subst h
      have hne : ∀ x ∈ r, x.1 ≠ e.1 := fun x hx hxe => by
        have := he x hx
        rw [hxe] at this
        simp at this
      simp only [List.find?_cons, Std.ReflCmp.compare_self, beq_self_eq_true, Option.map_some,
        Option.some.injEq, List.mem_cons]
      constructor
      · rintro rfl; exact .inl rfl
      · rintro (h | h)
        · exact (congrArg Prod.snd h).symm
        · exact absurd rfl (hne (e.1, v) h)
    · have hne : (k, v) ≠ e := fun hke => h (congrArg Prod.fst hke)
      simpa [List.find?_cons, h, hne] using ih hr

theorem ext_find? {d e : Dictionary α β} (h : ∀ k, d.find? k = e.find? k) : d = e := by
  have hmem : ∀ x, x ∈ d.entries ↔ x ∈ e.entries := fun x => by
    rw [← find?_eq_some_iff d x.1 x.2, ← find?_eq_some_iff e x.1 x.2, h]
  apply ext
  obtain ⟨l, hl⟩ := d
  obtain ⟨m, hm⟩ := e
  simp only at hmem ⊢
  clear h
  induction l generalizing m with
  | nil =>
    cases m with
    | nil => rfl
    | cons y _ => exact absurd ((hmem y).2 (.head _)) List.not_mem_nil
  | cons x r ih =>
    cases m with
    | nil => exact absurd ((hmem x).1 (.head _)) List.not_mem_nil
    | cons y s =>
      obtain ⟨hx, hr⟩ := List.pairwise_cons.1 hl
      obtain ⟨hy, hs⟩ := List.pairwise_cons.1 hm
      have hxy : x = y := by
        rcases List.mem_cons.1 ((hmem x).1 (.head _)) with h₁ | h₁
        · exact h₁
        · rcases List.mem_cons.1 ((hmem y).2 (.head _)) with h₂ | h₂
          · exact h₂.symm
          · have := Std.TransCmp.lt_trans (hx y h₂) (hy x h₁)
            simp at this
      subst hxy
      congr 1
      refine ih hr s hs fun z => ⟨fun hz => ?_, fun hz => ?_⟩
      · rcases List.mem_cons.1 ((hmem z).1 (.tail _ hz)) with h | h
        · subst h; have := hx z hz; simp at this
        · exact h
      · rcases List.mem_cons.1 ((hmem z).2 (.tail _ hz)) with h | h
        · subst h; have := hy z hz; simp at this
        · exact h

end

end Dictionary

end ServiceDirectory
