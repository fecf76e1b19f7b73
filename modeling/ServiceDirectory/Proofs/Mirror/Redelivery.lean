import ServiceDirectory.Proofs.Mirror.Fitting
import ServiceDirectory.Proofs.Mirror.ImportRace
import ServiceDirectory.Proofs.Table.Repetition

/-! # Events that are delivered again

A watch that was broken off delivers some events again, so the table of all services may fall back
behind what it had seen. It catches up if each delivery begins no later than right behind the end of
the one before it (`Resumes`). It is not enough that no event is left out: the table then ends as it
would have after one delivery exactly if the last event of every id is the same
(`Node.redelivered_eq_iff`).
-/

namespace ServiceDirectory

variable {k : Keyspace} {t : Table} {d : Roster} {es es' : List Event} {id : ServiceId}

/-- What the last event that changes the row of an id leaves of it; nothing if there is none. -/
def Keyspace.lastRow (k : Keyspace) (id : ServiceId) (es : List Event) : Option (Option Row) :=
  RowChange.lastRow id (es.filterMap k.change?)

theorem Keyspace.lastRow_append (k : Keyspace) (id : ServiceId) (es es' : List Event) :
    k.lastRow id (es ++ es') = (k.lastRow id es').or (k.lastRow id es) := by
  rw [lastRow, List.filterMap_append, RowChange.lastRow_append, ← lastRow, ← lastRow]

theorem Keyspace.lastRow_eq_none_of_subset (h : k.lastRow id es = none) (hsub : es' ⊆ es) :
    k.lastRow id es' = none := by
  rw [lastRow, RowChange.lastRow_eq_none_iff] at h ⊢
  intro c hc
  obtain ⟨e, he, hce⟩ := List.mem_filterMap.1 hc
  exact h c (List.mem_filterMap.2 ⟨e, hsub he, hce⟩)

theorem Keyspace.change?_isCanonical {e : Event} {c : RowChange} (h : k.change? e = some c) :
    c.IsCanonical := by
  cases e with
  | put key value revision =>
    obtain ⟨row, hd, rfl⟩ := Option.map_eq_some_iff.1 h
    rintro row' hrow
    obtain rfl := Option.some.inj hrow
    exact decode_isCanonical hd
  | delete key revision =>
    obtain ⟨id, -, rfl⟩ := Option.map_eq_some_iff.1 h
    rintro row hrow
    cases hrow

/-! ## Handling events -/

theorem Table.Holds.handleEvents (h : t.Holds d) (hes : ∀ e ∈ es, e.Fits k) :
    (handleEvents k t es).Holds (d.apply (es.filterMap k.change?)).2 := by
  obtain ⟨t', heq, h'⟩ := h.apply (Event.isStorable_of_mem_changes hes)
  rw [ServiceDirectory.handleEvents, heq]
  exact h'

/-- The same events, in whatever order and however often, leave the same table exactly if they end
in the same for every id. -/
theorem handleEvents_eq_iff (ht : t.IsWellFormed) (hes : ∀ e ∈ es, e.Fits k)
    (hsame : ∀ e, e ∈ es' ↔ e ∈ es) : handleEvents k t es' = handleEvents k t es ↔
      ∀ id, k.lastRow id es' = k.lastRow id es := by
  obtain ⟨d, h⟩ := ht.exists_holds
  have hes' : ∀ e ∈ es', e.Fits k := fun e he => hes e ((hsame e).1 he)
  have hcanonical : ∀ c ∈ es.filterMap k.change?, c.IsCanonical := by
    intro c hc
    obtain ⟨e, -, hce⟩ := List.mem_filterMap.1 hc
    exact Keyspace.change?_isCanonical hce
  have hchanges : ∀ c, c ∈ es'.filterMap k.change? ↔ c ∈ es.filterMap k.change? := by
    simp only [List.mem_filterMap, hsame, implies_true]
  rw [(h.handleEvents hes').eq_iff (h.handleEvents hes)]
  exact forall_congr' fun id => Roster.find?_foldl_eq_iff hcanonical hchanges (.zero, d) id

theorem Table.Holds.handleEvents_append (h : t.Holds d) (hes : ∀ e ∈ es, e.Fits k)
    (hes' : ∀ e ∈ es', e.Fits k) : ServiceDirectory.handleEvents k t (es ++ es') =
      ServiceDirectory.handleEvents k (ServiceDirectory.handleEvents k t es) es' := by
  obtain ⟨m, u, n, v, hfirst, hsecond, hboth⟩ :=
    h.apply_twice (Event.isStorable_of_mem_changes hes) (Event.isStorable_of_mem_changes hes')
  simp [ServiceDirectory.handleEvents, List.filterMap_append, hfirst, hsecond, hboth]

theorem Node.globalRows_foldl_handleEvents {n : Node} {batches : List (List Event)}
    (hn : n.globalRows.Holds d) (hes : ∀ e ∈ batches.flatten, e.Fits n.keyspace) :
    (batches.foldl Node.handleEvents n).globalRows =
      ServiceDirectory.handleEvents n.keyspace n.globalRows batches.flatten := by
  induction batches generalizing n d with
  | nil => rfl
  | cons batch batches ih =>
    have hbatch : ∀ e ∈ batch, e.Fits n.keyspace := fun e he => hes e (List.mem_append_left _ he)
    have hrest : ∀ e ∈ batches.flatten, e.Fits n.keyspace :=
      fun e he => hes e (List.mem_append_right _ he)
    rw [List.foldl_cons, List.flatten_cons, hn.handleEvents_append hbatch hrest]
    exact ih (n := n.handleEvents batch) (hn.handleEvents hbatch) hrest

/-! ## Deliveries -/

/-- A stretch of `n` events: from the place `first` on, up to the place `stop`. -/
structure Window (n : Nat) where
  first : Nat
  stop : Nat
  first_le : first ≤ stop
  stop_le : stop ≤ n

namespace Window

section

variable {n far stop : Nat} {w : Window n} {ws : List (Window n)}

/-- No window begins behind what the windows in front of it have reached. -/
def Reaches (far : Nat) : List (Window n) → Prop
  | [] => True
  | w :: ws => w.first ≤ far ∧ Reaches (max far w.stop) ws

/-- No window begins behind the end of the one in front of it. -/
def Resumes (stop : Nat) : List (Window n) → Prop
  | [] => True
  | w :: ws => w.first ≤ stop ∧ Resumes w.stop ws

def Ends (ws : List (Window n)) : Prop := ∃ w, ws.getLast? = some w ∧ w.stop = n

theorem not_ends_nil : ¬ Ends ([] : List (Window n)) := by
  rintro ⟨w, hw, -⟩
  cases hw

theorem Ends.of_cons (h : Ends (w :: ws)) : ws = [] ∧ w.stop = n ∨ Ends ws := by
  obtain ⟨w', hw', hstop⟩ := h
  cases ws with
  | nil =>
    cases hw'
    exact .inl ⟨rfl, hstop⟩
  | cons v ws => exact .inr ⟨w', hw', hstop⟩

theorem Resumes.reaches (h : Resumes stop ws) (hle : stop ≤ far) : Reaches far ws := by
  induction ws generalizing stop far with
  | nil => trivial
  | cons w ws ih => exact ⟨h.1.trans hle, ih h.2 (le_max_right _ _)⟩

theorem Reaches.exists_window (h : Reaches far ws) (hends : Ends ws) {i : Nat} (hfar : far ≤ i)
    (hi : i < n) : ∃ w ∈ ws, w.first ≤ i ∧ i < w.stop := by
  induction ws generalizing far with
  | nil => exact absurd hends not_ends_nil
  | cons w ws ih =>
    by_cases hstop : i < w.stop
    · exact ⟨w, .head _, h.1.trans hfar, hstop⟩
    · obtain ⟨-, hlast⟩ | hends := hends.of_cons
      · rw [hlast] at hstop
        exact absurd hi hstop
      · obtain ⟨w', hw', hi'⟩ := ih h.2 hends (max_le hfar (not_lt.1 hstop))
        exact ⟨w', .tail _ hw', hi'⟩

end

/-! ### What is delivered -/

def events (es : List Event) (w : Window es.length) : List Event := (es.take w.stop).drop w.first

def delivered (es : List Event) (ws : List (Window es.length)) : List Event :=
  ws.flatMap (events es)

section

variable {ws : List (Window es.length)} {w : Window es.length} {stop : Nat}

theorem mem_delivered_iff (h : Reaches 0 ws) (hends : Ends ws) (e : Event) :
    e ∈ delivered es ws ↔ e ∈ es := by
  rw [delivered, List.mem_flatMap]
  constructor
  · rintro ⟨w, -, he⟩
    exact List.mem_of_mem_take (List.mem_of_mem_drop he)
  · intro he
    obtain ⟨i, hi, rfl⟩ := List.mem_iff_getElem.1 he
    obtain ⟨w, hw, hfirst, hstop⟩ := h.exists_window hends (Nat.zero_le i) hi
    refine ⟨w, hw, List.mem_iff_getElem.2 ⟨i - w.first, ?_, ?_⟩⟩
    · simp [events]
      omega
    · simp [events, Nat.add_sub_cancel' hfirst]

/-- What was told ends, for an id, as the events do up to some place. With a window that begins no
later than there it does so again, for a place that is not in front of the end of the window. -/
theorem exists_lastRow_append_events {told : List Event} {place : Nat} (hw : w.first ≤ place)
    (h : k.lastRow id told = k.lastRow id (es.take place)) :
    ∃ place', w.stop ≤ place' ∧
      k.lastRow id (told ++ w.events es) = k.lastRow id (es.take place') := by
  have hsplit : es.take w.stop = (es.take w.stop).take w.first ++ w.events es :=
    (List.take_append_drop _ _).symm
  cases hlast : k.lastRow id (w.events es) with
  | some row =>
    refine ⟨w.stop, le_rfl, ?_⟩
    rw [hsplit, k.lastRow_append, k.lastRow_append, hlast]
    rfl
  | none =>
    rw [k.lastRow_append, hlast, Option.none_or, h]
    by_cases hle : w.stop ≤ place
    · exact ⟨place, hle, rfl⟩
    · -- The events between the two places are in the window, so none of them is of the id.
      have hbetween : es.take w.stop = es.take place ++ (es.take w.stop).drop place := by
        conv_lhs => rw [← List.take_append_drop place (es.take w.stop)]
        rw [List.take_take, min_eq_left (not_le.1 hle).le]
      have hnone : k.lastRow id ((es.take w.stop).drop place) = none :=
        k.lastRow_eq_none_of_subset hlast (List.drop_sublist_drop_left _ hw).subset
      refine ⟨w.stop, le_rfl, ?_⟩
      rw [hbetween, k.lastRow_append, hnone, Option.none_or]

theorem Resumes.lastRow_eq {told : List Event} {place : Nat} (h : Resumes stop ws)
    (hends : Ends ws) (hplace : stop ≤ place)
    (htold : k.lastRow id told = k.lastRow id (es.take place)) :
    k.lastRow id (told ++ delivered es ws) = k.lastRow id es := by
  -- The place may lie behind the end of the last window: a short one undoes only what it tells of.
  induction ws generalizing stop place told with
  | nil => exact absurd hends not_ends_nil
  | cons w ws ih =>
    obtain ⟨place', hplace', htold'⟩ := exists_lastRow_append_events (h.1.trans hplace) htold
    rw [delivered, List.flatMap_cons, ← List.append_assoc]
    obtain ⟨rfl, hlast⟩ | hends := hends.of_cons
    · rw [List.flatMap_nil, List.append_nil, htold', List.take_of_length_le (hlast ▸ hplace')]
    · exact ih h.2 hends hplace' htold'

end

end Window

/-! ## What becomes of the table -/

/-- Windows that resume, cut into batches in any way, leave the table that one delivery of all
events leaves. Windows that merely leave no event out do so exactly if they have the same last event
for every id. -/
theorem Node.redelivered_eq_iff {n : Node} {ws : List (Window es.length)}
    {batches : List (List Event)} (hn : n.globalRows.IsWellFormed)
    (hes : ∀ e ∈ es, e.Fits n.keyspace) (hends : Window.Ends ws)
    (hbatches : batches.flatten = Window.delivered es ws) :
    (Window.Resumes 0 ws →
      (batches.foldl Node.handleEvents n).globalRows = (n.handleEvents es).globalRows) ∧
    (Window.Reaches 0 ws →
      ((batches.foldl Node.handleEvents n).globalRows = (n.handleEvents es).globalRows ↔
        ∀ id, n.keyspace.lastRow id (Window.delivered es ws) = n.keyspace.lastRow id es)) := by
  have hiff : Window.Reaches 0 ws →
      ((batches.foldl Node.handleEvents n).globalRows = (n.handleEvents es).globalRows ↔
        ∀ id, n.keyspace.lastRow id (Window.delivered es ws) = n.keyspace.lastRow id es) := by
    intro hreaches
    have hsame := Window.mem_delivered_iff hreaches hends
    have hfits : ∀ e ∈ batches.flatten, e.Fits n.keyspace := fun e he =>
      hes e ((hsame e).1 (hbatches ▸ he))
    obtain ⟨d, hd⟩ := hn.exists_holds
    rw [Node.globalRows_foldl_handleEvents hd hfits, hbatches]
    exact handleEvents_eq_iff hn hes hsame
  refine ⟨fun hresumes => (hiff (hresumes.reaches le_rfl)).2 fun id => ?_, hiff⟩
  have hnone : n.keyspace.lastRow id [] = n.keyspace.lastRow id (es.take 0) := rfl
  exact hresumes.lastRow_eq hends le_rfl hnone

/-! A service comes and goes, and another one comes. -/

section

open ImportRace

def putEvent (row : Row) (revision : Int) : Event :=
  .put (lateNode.keyspace.key row.id) (Keyspace.valueOf row) revision

def comeAndGo : List Event :=
  [putEvent (Table.rowAt "web" 80) 1, .delete (lateNode.keyspace.key (Table.rowAt "web" 80).id) 2,
    putEvent (Table.rowAt "mail" 25) 3]

theorem comeAndGo_fits : ∀ e ∈ comeAndGo, e.Fits lateNode.keyspace := by
  have hput : ∀ row : Row, row.IsStorable → ∀ revision,
      lateNode.keyspace.change? (putEvent row revision) = some (.put row) →
      (putEvent row revision).Fits lateNode.keyspace := fun row hrow revision h =>
    Event.fits_of_change? h (show RowChange.IsStorable (.put row) from hrow)
  have hdelete : RowChange.IsStorable (.delete (Table.rowAt "web" 80).id) := by decide +kernel
  refine List.forall_mem_cons.2 ⟨?_, List.forall_mem_cons.2 ⟨?_, List.forall_mem_singleton.2 ?_⟩⟩
  · exact hput _ (by decide +kernel) _ (by decide +kernel)
  · exact Event.fits_of_change? (by decide +kernel) hdelete
  · exact hput _ (by decide +kernel) _ (by decide +kernel)

def resumingWindows : List (Window comeAndGo.length) :=
  [⟨0, 3, by decide, by decide⟩, ⟨0, 1, by decide, by decide⟩, ⟨1, 3, by decide, by decide⟩]

def skippingWindows : List (Window comeAndGo.length) :=
  [⟨0, 3, by decide, by decide⟩, ⟨0, 1, by decide, by decide⟩, ⟨2, 3, by decide, by decide⟩]

theorem redelivered_eq_iff_comeAndGo : lateNode.globalRows.IsWellFormed ∧
    (∀ e ∈ comeAndGo, e.Fits lateNode.keyspace) ∧ Window.Ends resumingWindows ∧
    Window.Resumes 0 resumingWindows ∧
    ((comeAndGo ++ comeAndGo).map fun e => [e]).flatten =
      Window.delivered comeAndGo resumingWindows ∧
    (((comeAndGo ++ comeAndGo).map fun e => [e]).foldl Node.handleEvents lateNode).globalRows =
      (lateNode.handleEvents comeAndGo).globalRows := by
  have hn : lateNode.globalRows.IsWellFormed := Table.isWellFormed_empty
  have hends : Window.Ends resumingWindows := ⟨_, rfl, rfl⟩
  have hresumes : Window.Resumes 0 resumingWindows :=
    ⟨by decide, by decide, by decide, trivial⟩
  have hbatches : ((comeAndGo ++ comeAndGo).map fun e => [e]).flatten =
      Window.delivered comeAndGo resumingWindows := by decide +kernel
  exact ⟨hn, comeAndGo_fits, hends, hresumes, hbatches,
    (Node.redelivered_eq_iff hn comeAndGo_fits hends hbatches).1 hresumes⟩

/-- It is not enough that no event is left out. -/
theorem not_forall_redelivered_same : ¬ ∀ (n : Node) (es : List Event)
    (ws : List (Window es.length)) (batches : List (List Event)), n.globalRows.IsWellFormed →
    (∀ e ∈ es, e.Fits n.keyspace) → Window.Reaches 0 ws → Window.Ends ws →
    batches.flatten = Window.delivered es ws → ∀ id,
      Row.sameFound ((batches.foldl Node.handleEvents n).globalRows.row? id)
        ((n.handleEvents es).globalRows.row? id) = true := by
  intro h
  have hreaches : Window.Reaches 0 skippingWindows :=
    ⟨by decide, by decide, by decide, trivial⟩
  have hsame := h lateNode comeAndGo skippingWindows [Window.delivered comeAndGo skippingWindows]
    Table.isWellFormed_empty comeAndGo_fits hreaches ⟨_, rfl, rfl⟩ (by simp)
    (Table.rowAt "web" 80).id
  have hdiffer : Row.sameFound
      (([Window.delivered comeAndGo skippingWindows].foldl Node.handleEvents
        lateNode).globalRows.row? (Table.rowAt "web" 80).id)
      ((lateNode.handleEvents comeAndGo).globalRows.row? (Table.rowAt "web" 80).id) = false := by
    decide +kernel
  rw [hsame] at hdiffer
  cases hdiffer

end

end ServiceDirectory
