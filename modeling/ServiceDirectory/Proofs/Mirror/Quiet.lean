import ServiceDirectory.Proofs.Mirror.Upkeep

/-! # The mirror at rest

When no cycle is under way or asked for and the open watch has nothing to tell, the table is that of
the store, but for what happened between the last import and the opening of the watch
(`globalRows_eq_decodedTable_iff`). There may be such events: when a watch was cancelled the loop
asks for the synchronization first and opens the next watch after it, so the import may be over
before the watch is open.
-/

namespace ServiceDirectory

open Activity ImportRace

namespace Upkeep

variable {w w' : Upkeep}

/-- No cycle is under way or asked for, the one at the start was made, and a watch is open that has
nothing to tell. -/
structure IsQuiet (w : Upkeep) : Prop where
  watch : ∃ feed next, w.watch = .reading feed next ∧ (w.store.nextBatch feed).1 = none
  sync : ∃ tick adoptions, w.sync = .idle tick adoptions
  resync : w.node.resync = false
  scanned : w.scanned ≠ none

theorem Invariant.row?_decodedTable (h : w.Invariant)
    (hread : ∀ e ∈ w.log, e.IsReadable w.node.keyspace) :
    (w.store.decodedTable w.node.keyspace).IsProper ∧ ∀ id,
      (w.store.decodedTable w.node.keyspace).row? id = w.rowAfter w.log.length id := by
  have hkeyed := h.follows.keyed h.keyed
  have hst : ∀ row ∈ decodeAll w.node.keyspace w.store.entries.values, row.IsStorable :=
    fun row hrow => h.fitsIn_contents hread row.id row ((mem_decodeAll_values_iff hkeyed).1 hrow)
  refine ⟨Store.decodedTable_isProper hst, fun id => ?_⟩
  rw [Store.row?_decodedTable hkeyed hst, contents_eq h.follows]
  rfl

/-- The table of a quiet run shows what the last import has found, moved on by what the watch has
told since, and nothing in the namespace has happened that the watch was not told of. -/
theorem Invariant.exists_showsWindow (h : w.Invariant) (hq : w.IsQuiet) :
    ∃ opened scanned first last, w.opened = some opened ∧ w.scanned = some scanned ∧
      opened ≤ first ∧ first ≤ last ∧ last ≤ w.log.length ∧ (first ≤ scanned ∨ first = opened) ∧
      w.ShowsWindow scanned first last ∧
      ∀ e ∈ w.log.drop last, ∀ id, w.node.keyspace.parseKey e.key ≠ some id := by
  obtain ⟨feed, next, hw, hdrained⟩ := hq.watch
  obtain ⟨tick, adoptions, hsync⟩ := hq.sync
  obtain ⟨scanned, hscanned⟩ := Option.ne_none_iff_exists'.1 hq.scanned
  have hsettled : w.IsSettled :=
    ⟨hq.resync, by rw [hsync]; rfl, not_isCancelled_of (by simp [hw])⟩
  have hstage := h.stage
  rw [hw] at hstage
  cases hstage with
  | @watching _ _ opened last f items ho hle hst hrows =>
    rw [hw] at hst
    obtain ⟨first, hfirst, hlast, hor, hshow⟩ := hrows hsettled scanned hscanned
    refine ⟨opened, scanned, first, last, ho, hscanned, hfirst, hlast, hst.le, hor, hshow, ?_⟩
    have hitems : items = [] := by
      have hp := ((Store.nextBatch_eq_none_iff hst.feed).1 hdrained).1
      rw [hst.pending] at hp
      exact List.map_eq_nil_iff.1 hp
    have howed := hst.owed
    rw [hitems] at howed
    intro e he id hk
    have hin := List.filter_eq_nil_iff.1 howed.symm e he
    exact hin (Keyspace.range_contains_of_parseKey hk)

/-- Once nothing is under way and the open watch has nothing to tell, the table is that of the store
exactly if the last import found every row that no event has concerned since the watch was opened as
it was then. What happens between the last import and the opening of the watch is seen by neither;
nothing is missed if the import comes after the opening. -/
theorem globalRows_eq_decodedTable_iff (h : w.Reachable)
    (hread : ∀ e ∈ w.log, e.IsReadable w.node.keyspace) (hq : w.IsQuiet) :
    ∃ opened scanned, w.opened = some opened ∧ w.scanned = some scanned ∧
      (w.node.globalRows = w.store.decodedTable w.node.keyspace ↔
        ∀ id, (∀ e ∈ w.log.drop opened, w.node.keyspace.parseKey e.key ≠ some id) →
          w.rowAfter scanned id = w.rowAfter opened id) ∧
      (opened ≤ scanned → w.node.globalRows = w.store.decodedTable w.node.keyspace) := by
  have hi := h.invariant hread
  obtain ⟨hproper, hdecoded⟩ := hi.row?_decodedTable hread
  obtain ⟨opened, scanned, first, last, ho, hs, hfirst, hlast, hle, hor, hshow, hrest⟩ :=
    hi.exists_showsWindow hq
  have hlater : ∀ {m n : Nat} {id : ServiceId}, opened ≤ m → m ≤ n →
      (∀ e ∈ w.log.drop opened, w.node.keyspace.parseKey e.key ≠ some id) →
      w.rowAfter n id = w.rowAfter m id := fun hm hmn hno =>
    rowAfter_of_untouched hmn fun e he => hno e (window_subset hm _ he)
  have hend : ∀ id, w.rowAfter w.log.length id = w.rowAfter last id := fun id =>
    rowAfter_of_untouched hle fun e he => hrest e (window_subset le_rfl _ he) id
  have hiff : w.node.globalRows = w.store.decodedTable w.node.keyspace ↔
      ∀ id, (∀ e ∈ w.log.drop opened, w.node.keyspace.parseKey e.key ≠ some id) →
        w.rowAfter scanned id = w.rowAfter opened id := by
    constructor
    · intro heq id hno
      have hwindow : ∀ e ∈ w.window first last, w.node.keyspace.parseKey e.key ≠ some id :=
        fun e he => hno e (window_subset hfirst _ he)
      calc w.rowAfter scanned id = w.node.globalRows.row? id :=
            ((hshow id).trans (Keyspace.rowIn_replay_of_ne hwindow)).symm
        _ = w.rowAfter w.log.length id := by rw [heq, hdecoded]
        _ = w.rowAfter opened id := hlater le_rfl (hfirst.trans (hlast.trans hle)) hno
    · intro hsame
      refine hi.proper.ext_row? hproper fun id => ?_
      rw [hshow, hdecoded, hend, rowAfter, contentsAfter_eq_replay hlast]
      refine Keyspace.rowIn_replay_congr (or_iff_not_imp_left.2 fun htouched => ?_)
      -- no event concerns the id since the place from which the table was moved on
      have hno : ∀ e ∈ w.log.drop first, w.node.keyspace.parseKey e.key ≠ some id := by
        intro e he hk
        rw [drop_eq_window_append hlast hle] at he
        obtain he | he := List.mem_append.1 he
        · exact htouched ⟨e, he, hk⟩
        · exact hrest e he id hk
      obtain hle | rfl := hor
      · exact rowAfter_of_untouched hle fun e he => hno e (window_subset le_rfl _ he)
      · exact hsame id hno
  exact ⟨opened, scanned, ho, hs, hiff, fun hle => hiff.2 fun id hno => hlater le_rfl hle hno⟩

/-! ## Two runs -/

theorem Reachable.tail (h : w.Reachable) (hs : Step w w') : w'.Reachable := by
  obtain ⟨start, hstart, hrun⟩ := h
  exact ⟨start, hstart, hrun.tail hs⟩

def watchOn (w : Upkeep) : Upkeep :=
  match watchStep 0 w.node w.watch with
  | .move n stage => { w with node := n, watch := stage }
  | .ask q go none => match w.store.serve 0 q with
    | some (a, s) => { w with
        node := (go a w.node).1, watch := (go a w.node).2, store := s
        opened := q.opened w.opened { w with store := s }.log.length }
    | none => w
  | _ => w

theorem Reachable.watchOn (h : w.Reachable) : w.watchOn.Reachable := by
  unfold Upkeep.watchOn
  split
  · next hs => exact h.tail (.watch 0 hs)
  · next hs =>
    split
    · next ha => exact h.tail (.watchAsk 0 hs ha)
    · exact h
  · exact h

def importOn (w : Upkeep) : Upkeep :=
  match syncLoopStep 0 0 128 w.node w.sync with
  | .ask q go none => match w.store.serve 0 q with
    | some (a, s) => match syncLoopStep 0 0 128 (go a w.node).1 (go a w.node).2 with
      | .move n stage => { w with
          node := n, sync := stage, store := s, scanned := some { w with store := s }.log.length }
      | _ => w
    | none => w
  | _ => w

theorem Reachable.importOn (h : w.Reachable) (hi : w.sync.importing? = some .start) :
    w.importOn.Reachable := by
  unfold Upkeep.importOn
  split
  · next hs =>
    split
    · next ha =>
      split
      · next hm => exact h.tail (.imports 0 0 128 hi hs ha hm)
      · exact h
    · exact h
  · exact h

def syncOn (w : Upkeep) : Upkeep :=
  match w.sync.importing? with
  | some .start => w.importOn
  | some _ => w
  | none => match syncLoopStep 0 0 128 w.node w.sync with
    | .move n stage => { w with node := n, sync := stage }
    | _ => w

theorem Reachable.syncOn (h : w.Reachable) : w.syncOn.Reachable := by
  unfold Upkeep.syncOn
  split
  · next hi => exact h.importOn hi
  · exact h
  · next hi =>
    split
    · next hs => exact h.tail (.sync 0 0 128 hi hs)
    · exact h

def cycle (w : Upkeep) : Upkeep := w.syncOn.syncOn.syncOn

theorem Reachable.cycle (h : w.Reachable) : w.cycle.Reachable := h.syncOn.syncOn.syncOn

def register (w : Upkeep) (row : Row) : Upkeep :=
  { w with store := w.store.seed 0 (w.node.keyspace.key row.id) (Keyspace.valueOf row) none }

theorem Reachable.register (h : w.Reachable) (row : Row) : (w.register row).Reachable :=
  h.tail (.store (.seed _ 0 _ _ _))

theorem isReadable_of_log (hk : w.node.keyspace = lateNode.keyspace)
    (hl : w.log = [.put (lateNode.keyspace.key lateRow.id) (Keyspace.valueOf lateRow) 1]) :
    ∀ e ∈ w.log, e.IsReadable w.node.keyspace := by
  rw [hk, hl]
  exact List.forall_mem_singleton.2 (lateEvent_isReadable 1)

def minuteNode : Node :=
  Node.init { (default : NodeSettings) with syncPeriod := 60000 } .empty .empty

def upkeepStart : Upkeep := ⟨minuteNode, .start, .start, .empty 128, .empty 128, none, none⟩

theorem upkeepStart_reachable : upkeepStart.Reachable :=
  ⟨upkeepStart, ⟨rfl, rfl, rfl, rfl, rfl, nofun, nofun, Keyspace.fitsIn_empty _,
    Table.isProper_empty⟩, .refl⟩

/-- The watch is open before the first cycle, and tells of a service. -/
def toldEnd : Upkeep :=
  (upkeepStart.watchOn.watchOn.syncOn.cycle.register lateRow).watchOn.watchOn

theorem toldEnd_reachable : toldEnd.Reachable :=
  (upkeepStart_reachable.watchOn.watchOn.syncOn.cycle.register lateRow).watchOn.watchOn

theorem globalRows_eq_decodedTable_iff_toldEnd : toldEnd.Reachable ∧
    (∀ e ∈ toldEnd.log, e.IsReadable toldEnd.node.keyspace) ∧ toldEnd.IsQuiet ∧
    toldEnd.node.globalRows.row? lateRow.id = some lateRow ∧
    toldEnd.node.globalRows = toldEnd.store.decodedTable toldEnd.node.keyspace := by
  have hread : ∀ e ∈ toldEnd.log, e.IsReadable toldEnd.node.keyspace :=
    isReadable_of_log rfl (by decide +kernel)
  have hq : toldEnd.IsQuiet := ⟨⟨0, 2, by rfl, by rfl⟩, ⟨_, _, by rfl⟩, by rfl, by decide +kernel⟩
  obtain ⟨opened, scanned, ho, hs, -, heq⟩ :=
    globalRows_eq_decodedTable_iff toldEnd_reachable hread hq
  obtain rfl : 0 = opened := Option.some.inj ho
  exact ⟨toldEnd_reachable, hread, hq, by decide +kernel, heq (Nat.zero_le scanned)⟩

/-! The watch is cancelled, and cannot be opened again at once. The synchronization that it asks for
comes first, then a service is registered, and then the watch is opened. -/

def lostOpened : Upkeep := upkeepStart.watchOn

def lostCancelled : Upkeep :=
  { lostOpened with
    watch := .failed (.remote (.watchCanceled "compacted" 1)) 0 0
    store := lostOpened.store.closeWatch 0 }

def lostRefused : Upkeep :=
  { lostCancelled.watchOn with watch := .failed (.remote (.status .internal "refused")) 0 0 }

def lostEnd : Upkeep :=
  (lostRefused.watchOn.syncOn.cycle.cycle.register lateRow).watchOn.watchOn.watchOn

theorem lostEnd_reachable : lostEnd.Reachable := by
  have hread : watchStep 0 lostOpened.node lostOpened.watch = .ask (.nextBatch 0) _ none := rfl
  have hcancelled : lostCancelled.Reachable :=
    upkeepStart_reachable.watchOn.tail (.cancelled 0 "compacted" 1 hread)
  have hopen : watchStep 0 lostCancelled.watchOn.node lostCancelled.watchOn.watch =
    .ask (.openWatch (.withPrefix minuteNode.keyspace.beginning) 0) _ none := rfl
  have hrefused : lostRefused.Reachable := hcancelled.watchOn.tail (.refused 0 hopen rfl)
  exact (hrefused.watchOn.syncOn.cycle.cycle.register lateRow).watchOn.watchOn.watchOn

/-- The table of a run that is quiet need not be that of the store. -/
theorem not_forall_globalRows_eq_decodedTable : ¬ ∀ w : Upkeep, w.Reachable →
    (∀ e ∈ w.log, e.IsReadable w.node.keyspace) → w.IsQuiet →
    w.node.globalRows = w.store.decodedTable w.node.keyspace := by
  intro h
  have hread : ∀ e ∈ lostEnd.log, e.IsReadable lostEnd.node.keyspace :=
    isReadable_of_log rfl (by decide +kernel)
  have hq : lostEnd.IsQuiet := ⟨⟨1, 2, by rfl, by rfl⟩, ⟨_, _, by rfl⟩, by rfl, by decide +kernel⟩
  have hne : lostEnd.node.globalRows ≠ lostEnd.store.decodedTable lostEnd.node.keyspace := by
    decide +kernel
  exact hne (h lostEnd lostEnd_reachable hread hq)

end Upkeep

end ServiceDirectory
