import ServiceDirectory.Proofs.Activity.Alone
import ServiceDirectory.Proofs.Activity.SyncLoop
import ServiceDirectory.Proofs.Mirror.ImportRace
import ServiceDirectory.Proofs.Watch.Delivery

/-! # The mirror and its two loops

The watch loop opens its watches from the present on, and starts over when the store has cancelled
one. The synchronizer imports beside it, at the start, at every tick and when it is asked to. The
table shows what the last import has found, moved on by what the watch has told since the import, or
since the watch was opened if that was later (`Invariant`). Nothing is known of it between the end
of a watch that was cancelled and the import that is asked for then.
-/

namespace ServiceDirectory

open Activity ImportRace

/-! ## The two loops -/

/-- The length of the log when a watch was last opened, after a request. -/
def Request.opened (opened : Option Nat) (log : Nat) : Request → Option Nat
  | .openWatch _ _ => some log
  | _ => opened

structure Upkeep where
  node : Node
  watch : WatchStage
  sync : SyncLoopStage
  origin : Store
  store : Store
  opened : Option Nat
  /-- The length of the log when the store was last read by an import. -/
  scanned : Option Nat

namespace Upkeep

variable {w w' : Upkeep}

def log (w : Upkeep) : List Event := w.store.history.drop w.origin.history.length

def contentsAfter (w : Upkeep) (n : Nat) : StoredValues := replay (w.log.take n) w.origin.contents

def rowAfter (w : Upkeep) (n : Nat) (id : ServiceId) : Option Row :=
  w.node.keyspace.rowIn (w.contentsAfter n) id

def window (w : Upkeep) (first last : Nat) : List Event := (w.log.take last).drop first

inductive Step : Upkeep → Upkeep → Prop
  | store {w : Upkeep} {s : Store} : w.store.Elsewhere w.watch.watching? s →
      Step w { w with store := s }
  | node {w : Upkeep} {n : Node} : n.settings = w.node.settings →
      n.globalRows = w.node.globalRows → (w.node.resync = true → n.resync = true) →
      Step w { w with node := n }
  | watch {w : Upkeep} {n : Node} {stage : WatchStage} (now : Nat) :
      watchStep now w.node w.watch = .move n stage → Step w { w with node := n, watch := stage }
  | watchAsk {w : Upkeep} {q : Request} {go : q.Answer → Node → Node × WatchStage} {a : q.Answer}
      {s : Store} (now : Nat) :
      watchStep now w.node w.watch = .ask q go none → w.store.serve now q = some (a, s) →
      Step w { w with
        node := (go a w.node).1, watch := (go a w.node).2, store := s
        opened := q.opened w.opened { w with store := s }.log.length }
  | refused {w : Upkeep} {q : Request} {go : q.Answer → Node → Node × WatchStage} {a : q.Answer}
      {e : Error} (now : Nat) :
      watchStep now w.node w.watch = .ask q go none → q.refused? e = some a →
      Step w { w with node := (go a w.node).1, watch := (go a w.node).2 }
  | cancelled {w : Upkeep} {feed : Nat} {go : Except Error Batch → Node → Node × WatchStage}
      (now : Nat) (reason : String) (revision : Int) :
      watchStep now w.node w.watch = .ask (.nextBatch feed) go none →
      Step w { w with
        node := (go (.error (.remote (.watchCanceled reason revision))) w.node).1
        watch := (go (.error (.remote (.watchCanceled reason revision))) w.node).2
        store := w.store.closeWatch feed }
  | sync {w : Upkeep} {n : Node} {stage : SyncLoopStage} (me now maxTxnOps : Nat) :
      w.sync.importing? = none → syncLoopStep me now maxTxnOps w.node w.sync = .move n stage →
      Step w { w with node := n, sync := stage }
  | syncAsk {w : Upkeep} {q : Request} {go : q.Answer → Node → Node × SyncLoopStage} {a : q.Answer}
      {s : Store} (me now maxTxnOps : Nat) : w.sync.importing? = none →
      syncLoopStep me now maxTxnOps w.node w.sync = .ask q go none →
      w.store.ask? now q = some (a, s) →
      Step w { w with node := (go a w.node).1, sync := (go a w.node).2, store := s }
  | imports {w : Upkeep} {q : Request} {go : q.Answer → Node → Node × SyncLoopStage} {a : q.Answer}
      {s : Store} {n : Node} {stage : SyncLoopStage} (me now maxTxnOps : Nat) :
      w.sync.importing? = some .start →
      syncLoopStep me now maxTxnOps w.node w.sync = .ask q go none →
      w.store.serve now q = some (a, s) →
      syncLoopStep me now maxTxnOps (go a w.node).1 (go a w.node).2 = .move n stage →
      Step w { w with
        node := n, sync := stage, store := s
        scanned := some { w with store := s }.log.length }

/-- Both loops begin, on any table. -/
structure IsStart (w : Upkeep) : Prop where
  watch : w.watch = .start
  sync : w.sync = .start
  store : w.store = w.origin
  opened : w.opened = none
  scanned : w.scanned = none
  numbered : w.origin.IsNumbered
  keyed : w.origin.IsKeyed
  fits : w.node.keyspace.FitsIn w.origin.contents
  proper : w.node.globalRows.IsProper

def Reachable (w : Upkeep) : Prop := ∃ start, IsStart start ∧ Relation.ReflTransGen Step start w

/-! ## The log -/

theorem contents_eq (h : w.origin.Follows w.store) :
    w.store.contents = w.contentsAfter w.log.length := by
  rw [contentsAfter, List.take_length]
  exact h.since_eq.2

theorem log_with_store (h : w.origin.Follows w.store) {id : Nat} {batches : List Batch} {s : Store}
    (hc : Store.Commits id batches w.store s) :
    { w with store := s }.log = w.log ++ batches.flatMap Batch.events := h.since_append hc.history

theorem log_grows (h : w.origin.Follows w.store) {s : Store} (hs : w.store.Follows s) :
    w.log <+: { w with store := s }.log := by
  obtain ⟨es, hh, -⟩ := hs.log
  exact ⟨es, (h.since_append hh).symm⟩

theorem contentsAfter_of_log {c : Nat} (hl : w.log <+: w'.log) (ho : w'.origin = w.origin)
    (hc : c ≤ w.log.length) : w'.contentsAfter c = w.contentsAfter c := by
  obtain ⟨es, hes⟩ := hl
  rw [contentsAfter, contentsAfter, ← hes, List.take_append_of_le_length hc, ho]

theorem rowAfter_of_log {c : Nat} (hl : w.log <+: w'.log) (ho : w'.origin = w.origin)
    (hk : w'.node.keyspace = w.node.keyspace) (hc : c ≤ w.log.length) (id : ServiceId) :
    w'.rowAfter c id = w.rowAfter c id := by
  rw [rowAfter, rowAfter, contentsAfter_of_log hl ho hc, hk]

theorem window_subset {opened first : Nat} (h : opened ≤ first) (last : Nat) :
    w.window first last ⊆ w.log.drop opened := by
  rw [window, List.drop_take]
  exact fun e he => List.drop_subset_drop_left _ h (List.mem_of_mem_take he)

theorem drop_eq_window_append {first last : Nat} (h : first ≤ last) (hl : last ≤ w.log.length) :
    w.log.drop first = w.window first last ++ w.log.drop last := by
  have hlen : first ≤ (w.log.take last).length := by rw [List.length_take]; omega
  rw [window, ← List.drop_append_of_le_length hlen, List.take_append_drop]

theorem contentsAfter_eq_replay {first last : Nat} (h : first ≤ last) :
    w.contentsAfter last = replay (w.window first last) (w.contentsAfter first) := by
  rw [contentsAfter, contentsAfter, ← replay_append, window]
  conv_lhs => rw [← List.take_append_drop first (w.log.take last), List.take_take, min_eq_left h]

theorem rowAfter_of_untouched {id : ServiceId} {first last : Nat} (h : first ≤ last)
    (hno : ∀ e ∈ w.window first last, w.node.keyspace.parseKey e.key ≠ some id) :
    w.rowAfter last id = w.rowAfter first id := by
  rw [rowAfter, contentsAfter_eq_replay h]
  exact Keyspace.rowIn_replay_of_ne hno

/-! ## What a watch has to tell -/

section

variable {k : Keyspace} {log : List Event} {s : Store} {feed place : Nat} {handing : List Event}
  {f : Feed} {items : List Batch}

/-- Of the events from a place in the log on, some are being handed over and the others are still to
be read. -/
structure Streams (k : Keyspace) (log : List Event) (s : Store) (feed : Nat)
    (handing : List Event) (place : Nat) (f : Feed) (items : List Batch) : Prop where
  feed : s.feed? feed = some f
  live : f.live = true
  range : f.range = .withPrefix k.beginning
  pending : f.pending = items.map .ok
  owed : handing ++ items.flatMap Batch.events = inNamespace k (log.drop place)
  le : place ≤ log.length

theorem Streams.commits (h : Streams k log s feed handing place f items) (hs : s.IsNumbered)
    {s' : Store} {batches : List Batch} (hc : Store.Commits feed batches s s') :
    Streams k (log ++ batches.flatMap Batch.events) s' feed handing place (f.told batches)
      (items ++ seenBatches f.range batches) := by
  refine ⟨hc.feed hs f h.feed, ?_, ?_, ?_, ?_, ?_⟩
  · rw [Feed.told_of_live h.live]
    exact h.live
  · rw [Feed.told_of_live h.live]
    exact h.range
  · rw [Feed.told_of_live h.live, List.map_append, ← h.pending]
  · rw [List.flatMap_append, ← List.append_assoc, h.owed, flatMap_events_seenBatches, h.range,
      List.drop_append_of_le_length h.le, inNamespace, inNamespace, List.filter_append]
    rfl
  · rw [List.length_append]
    exact h.le.trans (Nat.le_add_right _ _)

theorem Streams.handOver (h : Streams k log s feed handing place f items) :
    ∃ count, inNamespace k ((log.drop place).take count) = handing ∧
      Streams k log s feed [] (place + count) f items := by
  obtain ⟨es₁, es₂, hlog, hes, hitems⟩ := List.filter_eq_append_iff.1 h.owed.symm
  refine ⟨es₁.length, ?_, h.feed, h.live, h.range, h.pending, ?_, ?_⟩
  · rw [hlog, List.take_left]
    exact hes
  · rw [← List.drop_drop, hlog, List.drop_left]
    exact hitems.symm
  · have hlen := congrArg List.length hlog
    have hle := h.le
    rw [List.length_drop, List.length_append] at hlen
    omega

end

/-! ## What holds in every run -/

/-- The table has the rows that an import has found at one place of the log, moved on by the events
between two others. -/
def ShowsWindow (w : Upkeep) (scanned first last : Nat) : Prop :=
  ∀ id, w.node.globalRows.row? id =
    w.node.keyspace.rowIn (replay (w.window first last) (w.contentsAfter scanned)) id

/-- The watch was given up, and the loop is to ask for a synchronization. -/
def IsCancelled (w : Upkeep) : Prop :=
  ∃ e next failures, w.watch = .failed e next failures ∧ Remote.IsCancellation e

/-- No import is to come. -/
structure IsSettled (w : Upkeep) : Prop where
  resync : w.node.resync = false
  sync : w.sync.importing? = none
  watch : ¬ w.IsCancelled

/-- How far the table is, with the watch that is open and the next revision. -/
inductive InStage (w : Upkeep) : Option Nat → Option Int → Prop
  | ended : InStage w none none
  | starting : (w.IsSettled → ∀ c ∈ w.scanned, ∀ id,
      w.node.globalRows.row? id = w.rowAfter c id) → InStage w none (some 0)
  | cancelled (next : Int) : w.IsCancelled → InStage w none (some next)
  | watching {feed : Nat} {next : Int} {opened place : Nat} {f : Feed} {items : List Batch} :
      w.opened = some opened → opened ≤ place →
      Streams w.node.keyspace w.log w.store feed w.watch.handing place f items →
      (w.IsSettled → ∀ c ∈ w.scanned, ∃ first, opened ≤ first ∧ first ≤ place ∧
        (first ≤ c ∨ first = opened) ∧ w.ShowsWindow c first place) →
      InStage w (some feed) (some next)

structure Invariant (w : Upkeep) : Prop where
  follows : w.origin.Follows w.store
  keyed : w.origin.IsKeyed
  fits : w.node.keyspace.FitsIn w.origin.contents
  numbered : w.store.IsNumbered
  proper : w.node.globalRows.IsProper
  scanned_le : ∀ c ∈ w.scanned, c ≤ w.log.length
  stage : w.InStage w.watch.watching? w.watch.next?

theorem IsStart.invariant (h : w.IsStart) : w.Invariant where
  follows := h.store ▸ .refl _
  keyed := h.keyed
  fits := h.fits
  numbered := h.store ▸ h.numbered
  proper := h.proper
  scanned_le c hc := by
    rw [h.scanned] at hc
    cases hc
  stage := by
    rw [h.watch]
    refine .starting fun _ c hc => ?_
    rw [h.scanned] at hc
    cases hc

theorem showsWindow_self {c : Nat} (h : ∀ id, w.node.globalRows.row? id = w.rowAfter c id)
    (place : Nat) : w.ShowsWindow c place place := by
  intro id
  rw [window, List.drop_of_length_le (List.length_take_le _ _)]
  exact h id

theorem ShowsWindow.of_log {scanned first last : Nat} (h : w.ShowsWindow scanned first last)
    (hl : w.log <+: w'.log) (ho : w'.origin = w.origin) (hk : w'.node.keyspace = w.node.keyspace)
    (ht : w'.node.globalRows = w.node.globalRows) (hs : scanned ≤ w.log.length)
    (hlast : last ≤ w.log.length) : w'.ShowsWindow scanned first last := by
  intro id
  rw [ht, hk, contentsAfter_of_log hl ho hs, h id]
  obtain ⟨es, hes⟩ := hl
  rw [window, window, ← hes, List.take_append_of_le_length hlast]

theorem Invariant.elsewhere (h : w.Invariant) {n : Node} {sync : SyncLoopStage} {s : Store}
    {id : Nat} {batches : List Batch} (hk : n.keyspace = w.node.keyspace)
    (ht : n.globalRows = w.node.globalRows)
    (hsettled : { w with node := n, sync := sync, store := s }.IsSettled → w.IsSettled)
    (hf : w.store.Follows s) (hid : ∀ id' ∈ w.watch.watching?, id' = id)
    (hc : Store.Commits id batches w.store s) :
    { w with node := n, sync := sync, store := s }.Invariant := by
  have hlog : { w with node := n, sync := sync, store := s }.log =
      w.log ++ batches.flatMap Batch.events := log_with_store h.follows hc
  have hprefix : w.log <+: { w with node := n, sync := sync, store := s }.log := ⟨_, hlog.symm⟩
  refine ⟨h.follows.trans hf, h.keyed, hk ▸ h.fits, hc.numbered h.numbered, ht ▸ h.proper,
    fun c hm => (h.scanned_le c hm).trans hprefix.length_le, ?_⟩
  have hstage := h.stage
  change InStage { w with node := n, sync := sync, store := s } w.watch.watching? w.watch.next?
  generalize w.watch.watching? = watching at hid hstage
  generalize w.watch.next? = next at hstage
  cases hstage with
  | ended => exact .ended
  | starting hrows =>
    refine .starting fun hs c hm id => ?_
    change n.globalRows.row? id = n.keyspace.rowIn _ id
    rw [ht, hk, contentsAfter_of_log hprefix rfl (h.scanned_le c hm)]
    exact hrows (hsettled hs) c hm id
  | cancelled next hw => exact .cancelled next hw
  | watching ho hle hst hrows =>
    obtain rfl := hid _ rfl
    have hst' := hst.commits h.numbered hc
    rw [← hlog, ← hk] at hst'
    refine .watching ho hle hst' fun hs c hm => ?_
    obtain ⟨first, hfirst, hplace, hor, hshow⟩ := hrows (hsettled hs) c hm
    exact ⟨first, hfirst, hplace, hor,
      hshow.of_log hprefix rfl hk ht (h.scanned_le c hm) hst.le⟩

/-! ## Steps of the watch -/

theorem Invariant.goesOn (h : w.Invariant) {watch : WatchStage} {s : Store} {opened : Option Nat}
    (hf : w.store.Follows s) (hn : s.IsNumbered)
    (hstage : { w with watch := watch, store := s, opened := opened }.InStage watch.watching?
      watch.next?) : { w with watch := watch, store := s, opened := opened }.Invariant where
  follows := h.follows.trans hf
  keyed := h.keyed
  fits := h.fits
  numbered := hn
  proper := h.proper
  scanned_le c hc := (h.scanned_le c hc).trans (log_grows h.follows hf).length_le
  stage := hstage

theorem ShowsWindow.handleEvents {scanned first last : Nat} (h : w.ShowsWindow scanned first last)
    (ht : w.node.globalRows.IsProper) (hread : ∀ e ∈ w.log, e.IsReadable w.node.keyspace)
    (hfirst : first ≤ last) (hlast : last ≤ w.log.length) (count : Nat) :
    ∀ id, (ServiceDirectory.handleEvents w.node.keyspace w.node.globalRows
        ((w.log.drop last).take count)).row? id = w.node.keyspace.rowIn
      (replay (w.window first (last + count)) (w.contentsAfter scanned)) id := by
  have hread' : ∀ e ∈ (w.log.drop last).take count, e.IsReadable w.node.keyspace := fun e he =>
    hread e (List.mem_of_mem_drop (List.mem_of_mem_take he))
  rw [window, List.take_add, List.drop_append_of_le_length (by rw [List.length_take]; omega),
    replay_append]
  exact handleEvents_rows ht hread' h

theorem Invariant.handOver (h : w.Invariant) (hread : ∀ e ∈ w.log, e.IsReadable w.node.keyspace)
    {feed : Nat} {next : Int} {es : List Event} (hw : w.watch = .handling feed next es) :
    { w with node := w.node.handleEvents es, watch := .reading feed next }.Invariant := by
  have hstage := h.stage
  rw [hw] at hstage
  cases hstage with
  | @watching _ _ o place f items ho hle hst hrows =>
    rw [hw] at hst
    obtain ⟨count, hes, hst'⟩ := hst.handOver
    have htable : (w.node.handleEvents es).globalRows = ServiceDirectory.handleEvents
        w.node.keyspace w.node.globalRows ((w.log.drop place).take count) := by
      rw [← handleEvents_filter_range]
      exact congrArg (ServiceDirectory.handleEvents _ _) hes.symm
    have hread' : ∀ e ∈ (w.log.drop place).take count, e.IsReadable w.node.keyspace :=
      fun e he => hread e (List.mem_of_mem_drop (List.mem_of_mem_take he))
    refine ⟨h.follows, h.keyed, h.fits, h.numbered, ?_, h.scanned_le, ?_⟩
    · rw [htable, handleEvents_eq h.proper hread']
      exact foldl_mirror_isProper h.proper hread'
    · refine .watching ho (hle.trans (Nat.le_add_right place count)) hst' fun hs c hc => ?_
      have hsettled : w.IsSettled := ⟨hs.resync, hs.sync, fun ⟨_, _, _, he, _⟩ => by
        rw [hw] at he
        cases he⟩
      obtain ⟨first, hfirst, hplace, hor, hshow⟩ := hrows hsettled c hc
      refine ⟨first, hfirst, hplace.trans (Nat.le_add_right place count), hor, fun id => ?_⟩
      rw [htable]
      exact hshow.handleEvents h.proper hread hplace hst.le count id

theorem not_isCancelled_of (h : ∀ e next failures, w.watch ≠ .failed e next failures) :
    ¬ w.IsCancelled := fun ⟨e, next, failures, he, _⟩ => h e next failures he

theorem InStage.next_eq_zero {next : Int} (h : w.InStage none (some next)) (hw : ¬ w.IsCancelled) :
    next = 0 ∧ (w.IsSettled → ∀ c ∈ w.scanned, ∀ id,
      w.node.globalRows.row? id = w.rowAfter c id) := by
  cases h with
  | starting hrows => exact ⟨rfl, hrows⟩
  | cancelled _ hc => exact absurd hc hw

theorem Invariant.retry (h : w.Invariant) {next : Int} (hw : ¬ w.IsCancelled)
    (hn : w.watch.next? = some next) (hwatching : w.watch.watching? = none) {watch : WatchStage}
    (hn' : watch.next? = some next) (hwatching' : watch.watching? = none) :
    { w with watch := watch }.Invariant := by
  have hstage := h.stage
  rw [hn, hwatching] at hstage
  obtain ⟨rfl, hrows⟩ := hstage.next_eq_zero hw
  refine h.goesOn (.refl _) h.numbered ?_
  rw [hn', hwatching']
  exact .starting fun hs => hrows ⟨hs.resync, hs.sync, hw⟩

theorem Invariant.watchMove (h : w.Invariant) (hread : ∀ e ∈ w.log, e.IsReadable w.node.keyspace)
    {n : Node} {stage : WatchStage} (hm : WatchMove w.node w.watch n stage) :
    { w with node := n, watch := stage }.Invariant := by
  generalize hw : w.watch = watch at hm
  cases hm with
  | handOver feed next es => exact h.handOver hread hw
  | startOver next failures hc =>
    refine ⟨h.follows, h.keyed, h.fits, h.numbered, h.proper, h.scanned_le, ?_⟩
    refine .starting fun hs => ?_
    cases hs.resync
  | stop feed next => exact h.goesOn (.refl _) h.numbered .ended
  | retry hn hn' hwatching hwatching' hno _ =>
    refine h.retry ?_ (hw ▸ hn) (hw ▸ hwatching) hn' hwatching'
    rintro ⟨e, next, failures, he, hc⟩
    exact hno e next failures (hw ▸ he) hc

/-- The watch is opened from now on: all that came before is left to the imports. -/
theorem Invariant.opening (h : w.Invariant) (hw : ¬ w.IsCancelled) (hrows : w.IsSettled →
      ∀ c ∈ w.scanned, ∀ id, w.node.globalRows.row? id = w.rowAfter c id)
    {now feed : Nat} {s : Store}
    (hs : w.store.openWatch now (.withPrefix w.node.keyspace.beginning) 0 = (feed, s)) :
    { w with
      watch := .reading feed 0, store := s
      opened := some { w with store := s }.log.length }.Invariant := by
  have hfeed := Store.feed?_openWatch h.numbered now (.withPrefix w.node.keyspace.beginning) 0
  have hf := (Store.follows_touch w.store now).trans
    (Store.does_openWatch w.store now (.withPrefix w.node.keyspace.beginning) 0).follows
  obtain ⟨_, hc⟩ := Store.tells_openWatch 0 w.store now (.withPrefix w.node.keyspace.beginning) 0
  rw [if_neg (by simp)] at hfeed
  rw [hs] at hfeed hf hc
  have howed : [] = inNamespace w.node.keyspace
      ({ w with store := s }.log.drop { w with store := s }.log.length) := by
    rw [List.drop_length]
    rfl
  refine h.goesOn hf (hc.numbered h.numbered) ?_
  have hst : Streams w.node.keyspace { w with store := s }.log s feed []
      { w with store := s }.log.length _ [⟨(w.store.touch now).revision, []⟩] :=
    ⟨hfeed, rfl, rfl, rfl, howed, le_rfl⟩
  refine .watching rfl le_rfl hst fun hs c hm => ?_
  refine ⟨_, le_rfl, le_rfl, .inr rfl, showsWindow_self (fun id => ?_) _⟩
  exact (hrows ⟨hs.resync, hs.sync, hw⟩ c hm id).trans
    (rowAfter_of_log (log_grows h.follows hf) rfl rfl (h.scanned_le c hm) id).symm

theorem Invariant.reading (h : w.Invariant) {feed : Nat} {next : Int}
    (hw : w.watch = .reading feed next) {b : Except Error Batch} {s : Store}
    (hb : w.store.nextBatch feed = (some b, s)) (hf : w.store.Follows s) :
    ∃ batch, b = .ok batch ∧
      { w with watch := .received feed next batch, store := s }.Invariant := by
  have hno : ¬ w.IsCancelled := not_isCancelled_of (by simp [hw])
  have hstage := h.stage
  rw [hw] at hstage
  cases hstage with
  | @watching _ _ o place f items ho hle hst hrows =>
    rw [hw] at hst
    cases items with
    | nil =>
      have hnone := (Store.nextBatch_eq_none_iff hst.feed).2 ⟨hst.pending, hst.live⟩
      rw [hb] at hnone
      cases hnone
    | cons b items =>
      obtain ⟨hok, hfeed, -, hhist, hnum⟩ := Store.nextBatch_of_pending hst.feed hst.pending
      rw [hb] at hok hfeed hhist hnum
      cases hok
      have hlog : { w with store := s }.log = w.log := congrArg (List.drop _) hhist
      have hst' : Streams w.node.keyspace { w with store := s }.log s feed b.events place
          { f with pending := items.map .ok } items :=
        hlog.symm ▸ ⟨hfeed, hst.live, hst.range, rfl, hst.owed, hst.le⟩
      have hreading : ∀ (watch : WatchStage) (next : Int), watch.handing = b.events →
          InStage { w with watch := watch, store := s } (some feed) (some next) := by
        intro watch next hhanding
        refine .watching ho hle (hhanding.symm ▸ hst') fun hs c hc => ?_
        obtain ⟨first, hfirst, hplace, hor, hshow⟩ := hrows ⟨hs.resync, hs.sync, hno⟩ c hc
        exact ⟨first, hfirst, hplace, hor, hshow.of_log (log_grows h.follows hf) rfl rfl rfl
          (h.scanned_le c hc) hst.le⟩
      refine ⟨b, rfl, h.goesOn hf (hnum h.numbered) ?_⟩
      obtain heq | heq := WatchRun.received_eq feed next b
      · rw [heq]
        exact .ended
      · rw [heq]
        split
        · next hnil => exact hreading (.reading _ _) _ (List.isEmpty_iff.1 hnil).symm
        · exact hreading (.handling _ _ _) _ rfl

theorem Invariant.asked (h : w.Invariant) {now : Nat} {q : Request} {go : q.Answer → WatchStage}
    {a : q.Answer} {s : Store} (hs : WatchAsk w.node w.watch q go)
    (ha : w.store.serve now q = some (a, s)) :
    { w with
      watch := go a, store := s
      opened := q.opened w.opened { w with store := s }.log.length }.Invariant := by
  generalize hw : w.watch = watch at hs
  cases hs with
  | openWatch next failures =>
    have hno : ¬ w.IsCancelled := not_isCancelled_of (by simp [hw])
    have hstage := h.stage
    rw [hw] at hstage
    obtain ⟨rfl, hrows⟩ := InStage.next_eq_zero hstage hno
    cases ha
    exact h.opening hno hrows rfl
  | nextBatch feed next =>
    have hask : w.store.ask? now (.nextBatch feed) = some (a, s) := ha
    obtain ⟨b, rfl, hi⟩ := h.reading hw (Delivery.ask?_nextBatch hask) (Store.follows_serve ha)
    exact hi
  | ready next failures =>
    have hserve : w.store.serve now .ready =
      if w.store.available then some ((), w.store) else none := rfl
    rw [show w.store.serve now .ready = some (a, s) from ha] at hserve
    split at hserve <;> cases hserve
    exact h.retry (not_isCancelled_of (by simp [hw])) (by rw [hw]; rfl) (by rw [hw]; rfl) rfl rfl
  | closeWatch feed =>
    have hf := Store.follows_serve ha
    cases ha
    obtain ⟨_, hc⟩ := Store.tells_closeWatch (Nat.lt_succ_self feed).ne w.store
    exact h.goesOn hf (hc.numbered h.numbered) .ended

theorem Invariant.refused (h : w.Invariant) {q : Request} {go : q.Answer → WatchStage}
    {a : q.Answer} {e : Error} (hs : WatchAsk w.node w.watch q go) (ha : q.refused? e = some a) :
    { w with watch := go a }.Invariant := by
  generalize hw : w.watch = watch at hs
  cases hs with
  | openWatch next failures =>
    cases ha
    by_cases hc : Remote.IsCancellation e
    · exact h.goesOn (.refl _) h.numbered (.cancelled next ⟨e, next, failures, rfl, hc⟩)
    · exact h.retry (not_isCancelled_of (by simp [hw])) (by rw [hw]; rfl) (by rw [hw]; rfl) rfl rfl
  | _ => cases ha

theorem Invariant.cancelled (h : w.Invariant) {feed : Nat} {go : Except Error Batch → WatchStage}
    (reason : String) (revision : Int) (hs : WatchAsk w.node w.watch (.nextBatch feed) go) :
    { w with
      watch := go (.error (.remote (.watchCanceled reason revision)))
      store := w.store.closeWatch feed }.Invariant := by
  generalize w.watch = watch at hs
  cases hs with
  | nextBatch feed next =>
    obtain ⟨_, hc⟩ := Store.tells_closeWatch (Nat.lt_succ_self feed).ne w.store
    exact h.goesOn (Store.follows_closeWatch w.store feed) (hc.numbered h.numbered)
      (.cancelled next ⟨_, next, 0, rfl, trivial⟩)

/-! ## Steps of the synchronizer -/

theorem Invariant.fitsIn_contents (h : w.Invariant)
    (hread : ∀ e ∈ w.log, e.IsReadable w.node.keyspace) :
    w.node.keyspace.FitsIn w.store.contents := by
  intro id row hrow
  rw [h.follows.since_eq.2] at hrow
  exact isStorable_of_rowIn_replay hread h.fits hrow

/-- The table becomes equal to the store, and what the watch has still to tell comes on top. -/
theorem Invariant.imported (h : w.Invariant) (hread : ∀ e ∈ w.log, e.IsReadable w.node.keyspace)
    (sync : SyncLoopStage) :
    { w with
      node := (reconcileRead w.node (scanOf w.node.keyspace w.store)).2, sync := sync
      scanned := some w.log.length }.Invariant := by
  obtain ⟨globalRows, heq, hproper, hrow⟩ := reconcileRead_rows (h.follows.keyed h.keyed)
    (h.fitsIn_contents hread) h.proper
  rw [contents_eq h.follows] at hrow
  rw [heq]
  refine ⟨h.follows, h.keyed, h.fits, h.numbered, hproper, fun c hc => ?_, ?_⟩
  · exact (Option.some.inj hc).ge
  · have hstage := h.stage
    change InStage _ w.watch.watching? w.watch.next?
    generalize w.watch.watching? = watching at hstage
    generalize w.watch.next? = next at hstage
    cases hstage with
    | ended => exact .ended
    | starting _ =>
      refine .starting fun _ c hc => ?_
      cases hc
      exact hrow
    | cancelled next hw => exact .cancelled next hw
    | @watching _ _ _ place _ _ ho hle hst _ =>
      refine .watching ho hle hst fun _ c hc => ?_
      cases hc
      exact ⟨place, hle, le_rfl, .inl hst.le, showsWindow_self hrow place⟩

theorem Invariant.syncMove (h : w.Invariant) {n : Node} {stage : SyncLoopStage}
    (hi : w.sync.importing? = none) (hm : SyncMove w.node w.sync n stage) :
    { w with node := n, sync := stage }.Invariant := by
  obtain ⟨_, hc⟩ := Store.Tells.refl (w.watch.watching?.getD 0) w.store
  have hid : ∀ id ∈ w.watch.watching?, id = w.watch.watching?.getD 0 := by simp +contextual
  generalize w.sync = sync at hm
  cases hm with
  | wait tick adoptions =>
    exact h.elsewhere rfl rfl (fun hs => ⟨hs.resync, hi, hs.watch⟩) (.refl _) hid hc
  | «begin» tick adoptions tick' adoptions' resync =>
    refine h.elsewhere rfl rfl (fun hs => ?_) (.refl _) hid hc
    cases hs.sync
  | writeBack stage stage' locks =>
    exact h.elsewhere rfl rfl (fun hs => ⟨hs.resync, hi, hs.watch⟩) (.refl _) hid hc

theorem Step.log_grows (h : Step w w') (hf : w.origin.Follows w.store) :
    w'.origin.Follows w'.store ∧ w.log <+: w'.log ∧ w'.node.keyspace = w.node.keyspace := by
  have hserve : ∀ {now : Nat} {q : Request} {a : q.Answer} {s : Store},
      w.store.serve now q = some (a, s) →
      w.origin.Follows s ∧ w.log <+: { w with store := s }.log := fun ha =>
    ⟨hf.trans (Store.follows_serve ha), Upkeep.log_grows hf (Store.follows_serve ha)⟩
  cases h with
  | store hs => exact ⟨hf.trans hs.follows, Upkeep.log_grows hf hs.follows, rfl⟩
  | node hs _ _ => exact ⟨hf, List.prefix_rfl, congrArg (·.keyspace) hs⟩
  | watch now hs =>
    exact ⟨hf, List.prefix_rfl, congrArg (·.keyspace) (ServiceDirectory.watchMove hs).settings⟩
  | watchAsk now hs ha =>
    obtain ⟨next, -, rfl⟩ := ServiceDirectory.watchAsk hs
    exact ⟨(hserve ha).1, (hserve ha).2, rfl⟩
  | refused now hs ha =>
    obtain ⟨next, -, rfl⟩ := ServiceDirectory.watchAsk hs
    exact ⟨hf, List.prefix_rfl, rfl⟩
  | cancelled now reason revision hs =>
    obtain ⟨next, -, rfl⟩ := ServiceDirectory.watchAsk hs
    have hclosed := Store.follows_closeWatch w.store
    exact ⟨hf.trans (hclosed _), Upkeep.log_grows hf (hclosed _), rfl⟩
  | sync me now maxTxnOps hi hs =>
    exact ⟨hf, List.prefix_rfl, congrArg (·.keyspace) (ServiceDirectory.syncMove hi hs).settings⟩
  | syncAsk me now maxTxnOps hi hs ha =>
    have hn := (syncLoopStep_ask hi hs).2
    rcases Store.ask?_cases ha with ha | ⟨rfl, -⟩
    · exact ⟨(hserve ha).1, (hserve ha).2, congrArg (·.keyspace) (hn _)⟩
    · exact ⟨hf, List.prefix_rfl, congrArg (·.keyspace) (hn _)⟩
  | imports me now maxTxnOps hi hs ha hm =>
    obtain ⟨tick, adoptions, heq⟩ := eq_of_importing? hi
    rw [heq] at hs
    cases hs
    have hlog := hserve ha
    cases ha
    cases hm
    obtain ⟨globalRows, hn⟩ := reconcileRead_node w.node _
    exact ⟨hlog.1, hlog.2, congrArg (·.keyspace) hn⟩

theorem Step.invariant (h : Step w w') (hi : w.Invariant)
    (hread : ∀ e ∈ w'.log, e.IsReadable w'.node.keyspace) : w'.Invariant := by
  obtain ⟨-, hlog, hk⟩ := h.log_grows hi.follows
  have hread' : ∀ e ∈ w.log, e.IsReadable w.node.keyspace := fun e he =>
    hk ▸ hread e (hlog.subset he)
  obtain ⟨_, hsame⟩ := Store.Tells.refl (w.watch.watching?.getD 0) w.store
  have hid : ∀ id ∈ w.watch.watching?, id = w.watch.watching?.getD 0 := by simp +contextual
  cases h with
  | store hs =>
    obtain ⟨id, hid, _, hc⟩ := hs.tells
    exact hi.elsewhere rfl rfl (fun hs => ⟨hs.resync, hs.sync, hs.watch⟩) hs.follows hid hc
  | node hs ht hr =>
    refine hi.elsewhere (congrArg (·.keyspace) hs) ht (fun hs => ⟨?_, hs.sync, hs.watch⟩) (.refl _)
      hid hsame
    exact Bool.eq_false_iff.2 fun hresync => Bool.eq_false_iff.1 hs.resync (hr hresync)
  | watch now hs => exact hi.watchMove hread' (ServiceDirectory.watchMove hs)
  | watchAsk now hs ha =>
    obtain ⟨next, hask, rfl⟩ := ServiceDirectory.watchAsk hs
    exact hi.asked hask ha
  | refused now hs ha =>
    obtain ⟨next, hask, rfl⟩ := ServiceDirectory.watchAsk hs
    exact hi.refused hask ha
  | cancelled now reason revision hs =>
    obtain ⟨next, hask, rfl⟩ := ServiceDirectory.watchAsk hs
    exact hi.cancelled reason revision hask
  | sync me now maxTxnOps himp hs => exact hi.syncMove himp (ServiceDirectory.syncMove himp hs)
  | syncAsk me now maxTxnOps himp hs ha =>
    obtain ⟨hq, hgo⟩ := syncLoopStep_ask himp hs
    rw [hgo]
    rcases Store.ask?_cases ha with ha | ⟨rfl, -⟩
    · obtain ⟨id, hid, _, hc⟩ := Store.exists_tells_serve (by simp [hq]) ha
      exact hi.elsewhere rfl rfl (fun hs => ⟨hs.resync, himp, hs.watch⟩) (Store.follows_serve ha)
        hid hc
    · exact hi.elsewhere rfl rfl (fun hs => ⟨hs.resync, himp, hs.watch⟩) (.refl _) hid hsame
  | imports me now maxTxnOps himp hs ha hm =>
    obtain ⟨tick, adoptions, heq⟩ := eq_of_importing? himp
    rw [heq] at hs
    cases hs
    cases ha
    cases hm
    obtain ⟨_, hc⟩ := Store.tells_touch (w.watch.watching?.getD 0) w.store now
    -- an import looks at the time first, which may end leases
    have htouched : { w with store := w.store.touch now }.Invariant := hi.elsewhere rfl rfl
      (fun hs => ⟨hs.resync, hs.sync, hs.watch⟩) (Store.follows_touch w.store now) hid hc
    exact htouched.imported (fun e he => hk ▸ hread e he) _

theorem Reachable.invariant (h : w.Reachable)
    (hread : ∀ e ∈ w.log, e.IsReadable w.node.keyspace) : w.Invariant := by
  obtain ⟨start, hstart, hrun⟩ := h
  have hrun' : w.origin.Follows w.store ∧
      ((∀ e ∈ w.log, e.IsReadable w.node.keyspace) → w.Invariant) := by
    clear hread
    induction hrun with
    | refl => exact ⟨hstart.invariant.follows, fun _ => hstart.invariant⟩
    | tail _ hstep ih =>
      obtain ⟨hf, hi⟩ := ih
      obtain ⟨hf', hlog, hk⟩ := hstep.log_grows hf
      refine ⟨hf', fun hread => hstep.invariant (hi fun e he => ?_) hread⟩
      exact hk ▸ hread e (hlog.subset he)
  exact hrun'.2 hread

end Upkeep

end ServiceDirectory
