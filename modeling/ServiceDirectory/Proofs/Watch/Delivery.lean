import ServiceDirectory.Proofs.Keyspace.Namespaces
import ServiceDirectory.Proofs.Store.Feeds
import ServiceDirectory.Proofs.Watch.Resumption

/-! # What a watch hands over

The watch loop runs against a store that is changed by others and that has outages. A watch of the
store ends with the error of an outage behind all that it has been told of, and a watch that is
opened at a revision first tells of everything from there on. So the loop hands over the events of
its namespace since it first opened a watch, in order and each once, whatever it lives through
(`received_prefix_expected`).
-/

namespace ServiceDirectory

open Activity

def Request.openedAt : (q : Request) → q.Answer → Store → Option Int
  | .openWatch _ _, .ok _, s => some s.revision
  | _, _, _ => none

inductive WatchMove (n : Node) : WatchStage → Node → WatchStage → Prop
  | handOver (feed : Nat) (next : Int) (es : List Event) :
      WatchMove n (.handling feed next es) (n.handleEvents es) (.reading feed next)
  | startOver {e : Error} (next : Int) (failures : UInt32) : Remote.IsCancellation e →
      WatchMove n (.failed e next failures) { n with resync := true } (.opening 0 failures)
  | stop (feed : Nat) (next : Int) : WatchMove n (.reading feed next) n (.closing feed)
  | retry {stage stage' : WatchStage} {next : Int} : stage.next? = some next →
      stage'.next? = some next → stage.watching? = none → stage'.watching? = none →
      (∀ e next failures, stage = .failed e next failures → ¬ Remote.IsCancellation e) →
      (∀ e next failures, stage' ≠ .failed e next failures) → WatchMove n stage n stage'

theorem watchMove {now : Nat} {n n' : Node} {stage stage' : WatchStage}
    (h : watchStep now n stage = .move n' stage') : WatchMove n stage n' stage' := by
  cases stage with
  | opening next failures =>
    simp only [watchStep, Progress.query] at h
    split at h <;> cases h
  | reading feed next =>
    simp only [watchStep, Progress.query] at h
    split at h <;> cases h
    exact .stop feed next
  | handling feed next es =>
    cases h
    exact .handOver feed next es
  | failed e next failures =>
    by_cases hc : Remote.IsCancellation e
    · cases e with
      | remote e =>
        cases e with
        | watchCanceled _ _ =>
          cases h
          exact .startOver next failures hc
        | _ => cases hc
      | _ => cases hc
    · rw [WatchRun.watchStep_failed hc] at h
      cases h
      have hno : ∀ e' next' failures', WatchStage.failed e next failures =
          .failed e' next' failures' → ¬ Remote.IsCancellation e' := by
        rintro _ _ _ ⟨⟩
        exact hc
      split
      · exact .retry rfl rfl rfl rfl hno (by simp)
      · exact .retry rfl rfl rfl rfl hno (by simp)
  | waiting next failures =>
    simp only [watchStep, Progress.query] at h
    split at h <;> cases h
  | sleeping next failures wake =>
    simp only [watchStep] at h
    split at h
    · cases h
    · split at h <;> cases h
      exact .retry rfl rfl rfl rfl (by simp) (by simp)
  | closing feed => cases h
  | stopped => cases h

inductive WatchAsk (n : Node) : WatchStage → (q : Request) → (q.Answer → WatchStage) → Prop
  | openWatch (next : Int) (failures : UInt32) : WatchAsk n (.opening next failures)
      (.openWatch (.withPrefix n.keyspace.beginning) next) fun
      | .ok feed => .reading feed next
      | .error e => .failed e next failures
  | nextBatch (feed : Nat) (next : Int) : WatchAsk n (.reading feed next) (.nextBatch feed) fun
      | .ok b => .received feed next b
      | .error e => .failed e next 0
  | ready (next : Int) (failures : UInt32) :
      WatchAsk n (.waiting next failures) .ready fun _ => .opening next failures
  | closeWatch (feed : Nat) : WatchAsk n (.closing feed) (.closeWatch feed) fun _ => .stopped

theorem watchAsk {now : Nat} {n : Node} {stage : WatchStage} {q : Request}
    {go : q.Answer → Node → Node × WatchStage}
    (h : watchStep now n stage = .ask q go none) :
    ∃ next, WatchAsk n stage q next ∧ go = fun a n => (n, next a) := by
  cases stage with
  | opening next failures =>
    simp only [watchStep, Progress.query] at h
    split at h <;> cases h
    exact ⟨_, .openWatch next failures, rfl⟩
  | reading feed next =>
    simp only [watchStep, Progress.query] at h
    split at h <;> cases h
    exact ⟨_, .nextBatch feed next, rfl⟩
  | waiting next failures =>
    simp only [watchStep, Progress.query] at h
    split at h <;> cases h
    exact ⟨_, .ready next failures, rfl⟩
  | closing feed =>
    cases h
    exact ⟨_, .closeWatch feed, rfl⟩
  | handling feed next es => cases h
  | failed e next failures =>
    by_cases hc : Remote.IsCancellation e
    · cases e with
      | remote e => cases e <;> cases h
      | _ => cases hc
    · rw [WatchRun.watchStep_failed hc] at h
      cases h
  | sleeping next failures wake =>
    simp only [watchStep] at h
    split at h
    · cases h
    · split at h <;> cases h
  | stopped => cases h

theorem Activity.WatchStage.handing_eq_nil {stage : WatchStage} (h : stage.watching? = none) :
    stage.handing = [] := by
  cases stage <;> first | rfl | cases h

theorem WatchMove.handing {n n' : Node} {stage stage' : WatchStage}
    (h : WatchMove n stage n' stage') : stage'.handing = [] := by
  cases h with
  | retry _ _ _ hw _ _ => exact stage'.handing_eq_nil hw
  | _ => rfl

theorem WatchMove.settings {n n' : Node} {stage stage' : WatchStage}
    (h : WatchMove n stage n' stage') : n'.settings = n.settings := by
  cases h <;> rfl

structure Delivery where
  node : Node
  stage : WatchStage
  store : Store
  origin : Option Int
  handed : List Event

def since (k : Keyspace) (revision : Int) (es : List Event) : List Event :=
  es.filter fun e => revision < e.revision && k.beginning.isBeginningOf e.key

/-- Nothing is due before a watch was opened. -/
def due (k : Keyspace) (origin : Option Int) (es : List Event) : List Event :=
  match origin with
  | none => []
  | some revision => since k revision es

namespace Delivery

variable {w w' : Delivery}

/-- The events that the handler has or is about to get. -/
def received (w : Delivery) : List Event := w.handed ++ w.stage.handing

/-- All events of the namespace since a watch was first opened, in order. -/
def expected (w : Delivery) : List Event := due w.node.keyspace w.origin w.store.history

/-- A watch is open, and there is nothing to read. -/
def IsDrained (w : Delivery) : Prop :=
  ∃ feed next, w.stage = .reading feed next ∧ (w.store.nextBatch feed).1 = none

inductive Step : Delivery → Delivery → Prop
  | store {w : Delivery} {s : Store} : w.store.Elsewhere w.stage.watching? s →
      Step w { w with store := s }
  | outage {w : Delivery} (now : Nat) : Step w { w with store := w.store.setAvailable now false }
  | node {w : Delivery} {n : Node} : n.settings = w.node.settings → Step w { w with node := n }
  | move {w : Delivery} {n : Node} {stage : WatchStage} (now : Nat) :
      watchStep now w.node w.stage = .move n stage →
      Step w { w with node := n, stage := stage, handed := w.received }
  | ask {w : Delivery} {q : Request} {go : q.Answer → Node → Node × WatchStage} {a : q.Answer}
      {s : Store} (now : Nat) :
      watchStep now w.node w.stage = .ask q go none → w.store.ask? now q = some (a, s) →
      Step w { w with
        node := (go a w.node).1, stage := (go a w.node).2, store := s
        origin := w.origin.or (q.openedAt a s) }

/-- The loop begins; nothing was stored yet. -/
structure IsStart (w : Delivery) : Prop where
  stage : w.stage = .start
  store : ∃ maxTxnOps, w.store = .empty maxTxnOps
  origin : w.origin = none
  handed : w.handed = []

def Reachable (w : Delivery) : Prop := ∃ start, IsStart start ∧ Relation.ReflTransGen Step start w

end Delivery

/-! ## Events since a revision -/

section

variable {k : Keyspace} {r next : Int} {es : List Event}

theorem since_append (k : Keyspace) (r : Int) (a b : List Event) :
    since k r (a ++ b) = since k r a ++ since k r b := List.filter_append _ _

theorem since_eq_nil (h : ∀ e ∈ es, e.revision ≤ r) : since k r es = [] := by
  rw [since, List.filter_eq_nil_iff]
  intro e he
  simp [h e he]

theorem filter_le_eq_nil (h : ∀ e ∈ es, e.revision < next) :
    es.filter (fun e => next ≤ e.revision) = [] := by
  rw [List.filter_eq_nil_iff]
  intro e he
  simpa using h e he

theorem isBeginningOf_eq_contains (k : Keyspace) (key : Bytes) :
    k.beginning.isBeginningOf key = (KeyRange.withPrefix k.beginning).contains key := by
  rw [Bool.eq_iff_iff, KeyRange.contains_withPrefix_iff, Bytes.isBeginningOf,
    List.isPrefixOf_iff_prefix]

theorem since_eq_filter (h : ∀ e ∈ es, r < e.revision) :
    since k r es = es.filter fun e => (KeyRange.withPrefix k.beginning).contains e.key := by
  refine List.filter_congr fun e he => ?_
  simp [h e he, isBeginningOf_eq_contains]

theorem filter_since (h : r < next) (es : List Event) :
    (since k r es).filter (fun e => next ≤ e.revision) =
      es.filter fun e => next ≤ e.revision && (KeyRange.withPrefix k.beginning).contains e.key := by
  rw [since, List.filter_filter]
  refine List.filter_congr fun e _ => ?_
  rw [isBeginningOf_eq_contains]
  by_cases hn : next ≤ e.revision
  · have hr : r < e.revision := h.trans_le hn
    simp [hn, hr]
  · simp [hn]

end

/-! ## What is due and what was got -/

def nextAfter (next : Int) (items : List Batch) : Int :=
  (items.map Batch.nextRevision).foldl max next

theorem nextAfter_le_iff {next n : Int} {items : List Batch} :
    nextAfter next items ≤ n ↔ next ≤ n ∧ ∀ b ∈ items, b.nextRevision ≤ n := by
  rw [nextAfter, WatchRun.foldl_max_le_iff, List.forall_mem_map]

theorem le_nextAfter (next : Int) (items : List Batch) :
    next ≤ nextAfter next items ∧ ∀ b ∈ items, b.nextRevision ≤ nextAfter next items :=
  nextAfter_le_iff.1 le_rfl

theorem nextAfter_append (next : Int) (a b : List Batch) :
    nextAfter next (a ++ b) = nextAfter (nextAfter next a) b := by
  rw [nextAfter, List.map_append, List.foldl_append]
  rfl

section

variable {s s' : Store} {k : Keyspace} {r next : Int} {got : List Event} {id : Nat}
  {batches items : List Batch} {f : Feed}

/-- Everything due was got, or is replayed by a watch that is opened at the next revision. -/
structure Account (s : Store) (k : Keyspace) (r : Int) (got : List Event) (next : Int) : Prop where
  origin_nonneg : 0 ≤ r
  origin_lt : r < next
  next_le : next ≤ s.revision + 1
  due : got ++ (since k r s.history).filter (fun e => next ≤ e.revision) = since k r s.history

theorem Account.congr (h : Account s k r got next) (hr : s'.revision = s.revision)
    (hh : s'.history = s.history) : Account s' k r got next :=
  ⟨h.origin_nonneg, h.origin_lt, hr ▸ h.next_le, hh ▸ h.due⟩

theorem Account.of_current (h0 : 0 ≤ r) (hr : r < next) (hn : next ≤ s.revision + 1)
    (hgot : got = since k r s.history) (hc : ∀ e ∈ since k r s.history, e.revision < next) :
    Account s k r got next := by
  refine ⟨h0, hr, hn, ?_⟩
  rw [filter_le_eq_nil hc, List.append_nil, hgot]

theorem Account.got_eq (h : Account s k r got next)
    (hc : ∀ e ∈ since k r s.history, e.revision < next) : got = since k r s.history := by
  have hdue := h.due
  rwa [filter_le_eq_nil hc, List.append_nil] at hdue

theorem Account.commits (h : Account s k r got next) (hc : Store.Commits id batches s s') :
    Account s' k r got next := by
  refine ⟨h.origin_nonneg, h.origin_lt, h.next_le.trans (Int.add_le_add_right hc.revision_le 1), ?_⟩
  have hnew : (since k r (batches.flatMap Batch.events)).filter (fun e => next ≤ e.revision) =
      since k r (batches.flatMap Batch.events) := by
    rw [List.filter_eq_self]
    intro e he
    have hlt := hc.lt_revision e (List.mem_filter.1 he).1
    have hle := h.next_le
    exact decide_eq_true (by omega)
  rw [hc.history, since_append, List.filter_append, hnew, ← List.append_assoc, h.due]

/-- What is still to be read of a watch makes up, together with what was got, for everything due. -/
structure Owing (s : Store) (k : Keyspace) (r : Int) (got : List Event) (next : Int) (f : Feed)
    (items : List Batch) : Prop where
  range : f.range = .withPrefix k.beginning
  pending : f.pending = items.map .ok ++ if f.live then [] else [.error Store.offline]
  account : Account s k r (got ++ items.flatMap Batch.events) (nextAfter next items)
  current : f.live = true → ∀ e ∈ since k r s.history, e.revision < nextAfter next items

theorem Owing.congr (h : Owing s k r got next f items) (hr : s'.revision = s.revision)
    (hh : s'.history = s.history) : Owing s' k r got next f items :=
  ⟨h.range, h.pending, h.account.congr hr hh, hh ▸ h.current⟩

theorem Owing.cutOff (h : Owing s k r got next f items) : Owing s k r got next f.cutOff items := by
  unfold Feed.cutOff
  split
  · next hl =>
    refine ⟨h.range, ?_, h.account, nofun⟩
    rw [h.pending, hl]
    simp
  · exact h

theorem Owing.commits (h : Owing s k r got next f items) (hc : Store.Commits id batches s s') :
    ∃ items', Owing s' k r got next (f.told batches) items' := by
  cases hl : f.live with
  | false =>
    -- a watch that has ended is told of nothing; what comes is left to the next one
    rw [Feed.told_of_ended hl]
    exact ⟨items, h.range, h.pending, h.account.commits hc, by simp [hl]⟩
  | true =>
    have hcurrent := h.current hl
    have hgot := h.account.got_eq hcurrent
    have hlt := h.account.origin_lt
    have hle := h.account.next_le
    have hnew : ∀ e ∈ batches.flatMap Batch.events, r < e.revision := fun e he => by
      have := hc.lt_revision e he
      omega
    have hnext := le_nextAfter (nextAfter next items) (seenBatches f.range batches)
    -- what is new in the namespace is in the batches that the watch was told of
    have hcurrent' : ∀ e ∈ since k r s'.history,
        e.revision < nextAfter next (items ++ seenBatches f.range batches) := by
      intro e he
      rw [nextAfter_append]
      rw [hc.history, since_append] at he
      obtain he | he := List.mem_append.1 he
      · exact (hcurrent e he).trans_le hnext.1
      · rw [since_eq_filter hnew, ← h.range, ← flatMap_events_seenBatches] at he
        obtain ⟨b, hb, he⟩ := List.mem_flatMap.1 he
        exact (Int.lt_add_one_of_le (WatchRun.le_lastRevision b e he)).trans_le (hnext.2 b hb)
    refine ⟨items ++ seenBatches f.range batches, ?_⟩
    rw [Feed.told_of_live hl]
    refine ⟨h.range, by simp [h.pending, hl], ?_, fun _ => hcurrent'⟩
    refine .of_current h.account.origin_nonneg ?_ ?_ ?_ hcurrent'
    · rw [nextAfter_append]
      exact hlt.trans_le hnext.1
    · rw [nextAfter_append, nextAfter_le_iff]
      refine ⟨hle.trans (Int.add_le_add_right hc.revision_le 1), fun b hb => ?_⟩
      obtain ⟨c, hcm, hrev, hsub⟩ := exists_mem_of_mem_seenBatches hb
      obtain ⟨-, hle, he⟩ := hc.dated c hcm
      refine Int.add_le_add_right (WatchRun.lastRevision_le (hrev.trans_le hle) fun e hm => ?_) 1
      exact (he e (hsub hm)).trans_le hle
    · rw [List.flatMap_append, ← List.append_assoc, hgot, hc.history, since_append,
        flatMap_events_seenBatches, since_eq_filter hnew, h.range]

/-- How far the loop has come, with its next revision and its watch. -/
inductive Following (s : Store) (k : Keyspace) :
    Option Int → List Event → Int → Option Nat → Prop
  | unopened : Following s k none [] 0 none
  | between {r : Int} {got : List Event} {next : Int} :
      Account s k r got next → Following s k (some r) got next none
  | watching {r : Int} {got : List Event} {next : Int} {feed : Nat} {f : Feed}
      {items : List Batch} : s.feed? feed = some f → Owing s k r got next f items →
      Following s k (some r) got next (some feed)

variable {origin : Option Int} {watching : Option Nat}

theorem Following.got_prefix (h : Following s k origin got next watching) :
    got <+: due k origin s.history := by
  cases h with
  | unopened => exact List.prefix_refl _
  | between h => exact ⟨_, h.due⟩
  | watching _ h =>
    have hdue := h.account.due
    rw [List.append_assoc] at hdue
    exact ⟨_, hdue⟩

theorem Following.commits (h : Following s k origin got next watching)
    (hid : ∀ id' ∈ watching, id' = id) (hs : s.IsNumbered) (hc : Store.Commits id batches s s') :
    Following s' k origin got next watching := by
  cases h with
  | unopened => exact .unopened
  | between h => exact .between (h.commits hc)
  | watching hf h =>
    obtain rfl := hid _ rfl
    obtain ⟨items', h'⟩ := h.commits hc
    exact .watching (hc.feed hs _ hf) h'

theorem Following.cutOff (h : Following s k origin got next watching)
    (hr : s'.revision = s.revision) (hh : s'.history = s.history)
    (hf : ∀ id, s'.feed? id = (s.feed? id).map Feed.cutOff) :
    Following s' k origin got next watching := by
  cases h with
  | unopened => exact .unopened
  | between h => exact .between (h.congr hr hh)
  | watching hfeed h =>
    exact .watching ((hf _).trans (congrArg _ hfeed)) (h.congr hr hh).cutOff

theorem owing_opened (feed : Nat) (replays : List Batch) (hd : s.IsDated) (h0 : 0 ≤ r)
    (hr : r ≤ s.revision) (hn : next ≤ s.revision + 1)
    (hb : ∀ b ∈ replays, b.lastRevision ≤ s.revision)
    (hgot : got ++ replays.flatMap Batch.events = since k r s.history) :
    Owing s k r got next
      ⟨feed, .withPrefix k.beginning, .ok ⟨s.revision, []⟩ :: replays.map .ok, true⟩
      (⟨s.revision, []⟩ :: replays) := by
  have hack : Batch.nextRevision ⟨s.revision, []⟩ = s.revision + 1 := rfl
  have hnext : nextAfter next (⟨s.revision, []⟩ :: replays) = s.revision + 1 := by
    refine le_antisymm (nextAfter_le_iff.2 ⟨hn, ?_⟩) ?_
    · rw [List.forall_mem_cons]
      exact ⟨hack.le, fun b hm => Int.add_le_add_right (hb b hm) 1⟩
    · exact hack ▸ (le_nextAfter next (⟨s.revision, []⟩ :: replays)).2 _ (.head _)
  have hcurrent : ∀ e ∈ since k r s.history, e.revision < s.revision + 1 := fun e he =>
    Int.lt_add_one_of_le (hd.2 e (List.mem_filter.1 he).1)
  refine ⟨rfl, by simp, ?_, fun _ => hnext.symm ▸ hcurrent⟩
  rw [hnext]
  exact .of_current h0 (Int.lt_add_one_of_le hr) le_rfl hgot hcurrent

/-- The first watch of all is opened without a revision, and the others replay what is missing. -/
theorem Following.opened (h : Following s k origin got next none) (hs : s.IsNumbered)
    (hd : s.IsDated) (now : Nat) :
    Following (s.openWatch now (.withPrefix k.beginning) next).2 k
      (origin.or (some (s.openWatch now (.withPrefix k.beginning) next).2.revision)) got next
      (some (s.openWatch now (.withPrefix k.beginning) next).1) := by
  have hfeed := Store.feed?_openWatch hs now (.withPrefix k.beginning) next
  obtain ⟨batches, hc⟩ := Store.tells_touch 0 s now
  have hd' := hc.isDated hd
  cases h with
  | unopened =>
    -- revision zero stands for the present one, so nothing is replayed
    rw [if_neg (by simp)] at hfeed
    have hnone : [] ++ ([] : List Batch).flatMap Batch.events =
        since k (s.touch now).revision (s.touch now).history := (since_eq_nil hd'.2).symm
    have ho := owing_opened (s.openWatch now (.withPrefix k.beginning) 0).1 [] hd' hd'.1
      le_rfl (hd'.1.trans (Int.le_add_one le_rfl)) nofun hnone
    exact .watching hfeed (ho.congr rfl rfl)
  | @between r _ _ h =>
    have ha := h.commits hc
    have hr : r ≤ (s.touch now).revision := by
      have := ha.origin_lt
      have := ha.next_le
      omega
    have hpos : 0 < next := ha.origin_nonneg.trans_lt ha.origin_lt
    -- what is due from the next revision on is what the watch replays
    have hdue := ha.due
    rw [filter_since ha.origin_lt] at hdue
    have hdated : ∀ e ∈ (s.touch now).history.filter (fun e => next ≤ e.revision &&
        (KeyRange.withPrefix k.beginning).contains e.key), e.revision ≤ (s.touch now).revision :=
      fun e he => hd'.2 e (List.mem_filter.1 he).1
    generalize (s.touch now).history.filter (fun e => next ≤ e.revision &&
      (KeyRange.withPrefix k.beginning).contains e.key) = replay at hfeed hdue hdated
    by_cases hnil : replay = []
    · rw [if_neg (by simp [hnil])] at hfeed
      rw [hnil] at hdue
      have ho := owing_opened (s.openWatch now (.withPrefix k.beginning) next).1 [] hd'
        ha.origin_nonneg hr ha.next_le nofun hdue
      exact .watching hfeed (ho.congr rfl rfl)
    · rw [if_pos (by simpa [hpos] using hnil)] at hfeed
      have hlast : ∀ b ∈ [(⟨(s.touch now).revision, replay⟩ : Batch)],
          b.lastRevision ≤ (s.touch now).revision := by
        simpa using WatchRun.lastRevision_le (b := ⟨_, replay⟩) le_rfl hdated
      have ho := owing_opened (s.openWatch now (.withPrefix k.beginning) next).1 _ hd'
        ha.origin_nonneg hr ha.next_le hlast (by simpa using hdue)
      exact .watching hfeed (ho.congr rfl rfl)

theorem Owing.read {b : Batch} (h : Owing s k r got next f (b :: items)) :
    f.pending = .ok b :: (items.map .ok ++ if f.live then [] else [.error Store.offline]) ∧
      Owing s k r (got ++ b.events) (max next b.nextRevision)
        { f with pending := items.map .ok ++ if f.live then [] else [.error Store.offline] }
        items := by
  refine ⟨h.pending, h.range, rfl, ?_, h.current⟩
  have ha := h.account
  rw [List.flatMap_cons, ← List.append_assoc] at ha
  exact ha

/-- When a live watch has nothing to read, everything due was got. -/
theorem Following.eq_of_drained {s : Store} {k : Keyspace} {origin : Option Int} {got : List Event}
    {next : Int} {feed : Nat} (h : Following s k origin got next (some feed))
    (hd : (s.nextBatch feed).1 = none) : got = due k origin s.history := by
  cases h with
  | @watching r _ _ _ f items hfeed ho =>
    obtain ⟨hp, hl⟩ := (Store.nextBatch_eq_none_iff hfeed).1 hd
    have hitems : items = [] := by simpa [ho.pending, hl] using hp
    have hgot := ho.account.got_eq (ho.current hl)
    rwa [hitems, List.flatMap_nil, List.append_nil] at hgot

end

/-! ## Runs -/

namespace Delivery

variable {w w' : Delivery}

structure Invariant (w : Delivery) : Prop where
  numbered : w.store.IsNumbered
  dated : w.store.IsDated
  inOrder : w.received <+: w.expected
  following : ∀ next, w.stage.next? = some next →
    Following w.store w.node.keyspace w.origin w.received next w.stage.watching?
  error : ∀ e next failures, w.stage = .failed e next failures → ¬ Remote.IsCancellation e

theorem IsStart.invariant (h : w.IsStart) : w.Invariant := by
  obtain ⟨node, stage, store, origin, handed⟩ := w
  obtain ⟨rfl, ⟨maxTxnOps, rfl⟩, rfl, rfl⟩ := h
  refine ⟨nofun, ⟨le_rfl, nofun⟩, List.prefix_refl _, fun next hn => ?_, by simp [WatchStage.start]⟩
  obtain rfl : 0 = next := Option.some.inj hn
  exact .unopened

theorem Invariant.of_following {n : Node} {stage : WatchStage} {s : Store} {origin : Option Int}
    {handed : List Event} {next : Int} (hn : stage.next? = some next) (hs : s.IsNumbered)
    (hd : s.IsDated)
    (hf : Following s n.keyspace origin (handed ++ stage.handing) next stage.watching?)
    (he : ∀ e next failures, stage = .failed e next failures → ¬ Remote.IsCancellation e) :
    Invariant ⟨n, stage, s, origin, handed⟩ := by
  refine ⟨hs, hd, hf.got_prefix, fun next' hn' => ?_, he⟩
  obtain rfl : next = next' := Option.some.inj (hn.symm.trans hn')
  exact hf

theorem Invariant.of_over {n : Node} {stage : WatchStage} {s : Store} {origin : Option Int}
    {handed : List Event} (hn : stage.next? = none) (hs : s.IsNumbered) (hd : s.IsDated)
    (hp : handed ++ stage.handing <+: due n.keyspace origin s.history) :
    Invariant ⟨n, stage, s, origin, handed⟩ := by
  refine ⟨hs, hd, hp, fun next hn' => ?_, fun e next failures he => ?_⟩
  · exact absurd (hn.symm.trans hn') (by simp)
  · rw [show stage = _ from he] at hn
    cases hn

theorem due_commits {id : Nat} {batches : List Batch} {s s' : Store}
    (hc : Store.Commits id batches s s') (k : Keyspace) (origin : Option Int) :
    due k origin s.history <+: due k origin s'.history := by
  cases origin with
  | none => exact List.prefix_refl _
  | some r => exact ⟨_, by rw [due, due, hc.history, since_append]⟩

theorem Invariant.commits (h : w.Invariant) {id : Nat} {batches : List Batch} {s : Store}
    (hid : ∀ id' ∈ w.stage.watching?, id' = id) (hc : Store.Commits id batches w.store s) :
    { w with store := s }.Invariant where
  numbered := hc.numbered h.numbered
  dated := hc.isDated h.dated
  inOrder := h.inOrder.trans (due_commits hc _ _)
  following next hn := (h.following next hn).commits hid h.numbered hc
  error := h.error

theorem Invariant.outage (h : w.Invariant) (now : Nat) :
    { w with store := w.store.setAvailable now false }.Invariant := by
  obtain ⟨batches, hc⟩ := Store.tells_touch (w.stage.watching?.getD 0) w.store now
  have ht := h.commits (by simp +contextual) hc
  exact {
    numbered := ht.numbered.map Feed.cutOff_id rfl rfl
    dated := ht.dated
    inOrder := ht.inOrder
    following := fun next hn => (ht.following next hn).cutOff rfl rfl
      (Store.feed?_setAvailable_false w.store now)
    error := h.error }

theorem Invariant.move (h : w.Invariant) {now : Nat} {n : Node} {stage : WatchStage}
    (hs : watchStep now w.node w.stage = .move n stage) :
    { w with node := n, stage := stage, handed := w.received }.Invariant := by
  have hm := watchMove hs
  have hk : n.keyspace = w.node.keyspace := congrArg (·.keyspace) hm.settings
  have hr : w.received ++ stage.handing = w.received := by rw [hm.handing, List.append_nil]
  have horder := h.inOrder
  have hfollowing := h.following
  -- what is known of the run before is known of the loop's next stage
  rw [← hr, expected, ← hk] at horder
  rw [← hr, ← hk] at hfollowing
  have herror := h.error
  generalize w.stage = before at hm hfollowing herror
  cases hm with
  | handOver feed next es =>
    exact .of_following rfl h.numbered h.dated (hfollowing next rfl) (by simp)
  | startOver next failures hc => exact absurd hc (herror _ next failures rfl)
  | stop feed next => exact .of_over rfl h.numbered h.dated horder
  | retry hn hn' hw hw' _ hfailed =>
    refine .of_following hn' h.numbered h.dated ?_ fun e next failures he =>
      absurd he (hfailed e next failures)
    rw [hw', ← hw]
    exact hfollowing _ hn

theorem ask?_openWatch {s s' : Store} {now : Nat} {range : KeyRange} {start : Int}
    {a : Except Error Nat} (h : s.ask? now (.openWatch range start) = some (a, s')) :
    (a = .ok (s.openWatch now range start).1 ∧ s' = (s.openWatch now range start).2) ∨
      (a = .error Store.offline ∧ s' = s) := by
  cases hs : s.available
  · rw [Store.ask?_of_offline hs rfl] at h
    cases h
    exact .inr ⟨rfl, rfl⟩
  · rw [Store.ask?_eq_serve hs (by simp)] at h
    cases h
    exact .inl ⟨rfl, rfl⟩

theorem ask?_nextBatch {s s' : Store} {now feed : Nat} {a : Except Error Batch}
    (h : s.ask? now (.nextBatch feed) = some (a, s')) : s.nextBatch feed = (some a, s') := by
  have hserve : s.ask? now (.nextBatch feed) = s.serve now (.nextBatch feed) := rfl
  rw [hserve] at h
  simp only [Store.serve, Request.isPut, Bool.false_and, Bool.false_eq_true, ↓reduceIte] at h
  split at h
  · next heq =>
    cases h
    exact heq
  · cases h

theorem Invariant.opening (h : w.Invariant) {next : Int} {failures : UInt32}
    (hstage : w.stage = .opening next failures) {now : Nat} {q : Request}
    {go : q.Answer → WatchStage} {a : q.Answer} {s : Store} (hs : WatchAsk w.node w.stage q go)
    (ha : w.store.ask? now q = some (a, s)) :
    Invariant ⟨w.node, go a, s, w.origin.or (q.openedAt a s), w.handed⟩ := by
  obtain ⟨node, stage, store, origin, handed⟩ := w
  obtain rfl : stage = .opening next failures := hstage
  have hf := h.following next rfl
  cases hs
  obtain ⟨rfl, rfl⟩ | ⟨rfl, rfl⟩ := ask?_openWatch ha
  · obtain ⟨_, hc⟩ := Store.tells_openWatch 0 store now (.withPrefix node.keyspace.beginning) next
    exact .of_following rfl (hc.numbered h.numbered) (hc.isDated h.dated)
      (hf.opened h.numbered h.dated now) (by simp)
  · have horigin : ∀ range start, origin.or
        (Request.openedAt (.openWatch range start) (.error Store.offline) s) = origin :=
      fun _ _ => Option.or_none
    rw [horigin]
    refine .of_following rfl h.numbered h.dated hf fun e next failures he => ?_
    cases he
    exact id

theorem Invariant.reading (h : w.Invariant) {feed : Nat} {next : Int}
    (hstage : w.stage = .reading feed next) {now : Nat} {q : Request}
    {go : q.Answer → WatchStage} {a : q.Answer} {s : Store} (hs : WatchAsk w.node w.stage q go)
    (ha : w.store.ask? now q = some (a, s)) :
    Invariant ⟨w.node, go a, s, w.origin.or (q.openedAt a s), w.handed⟩ := by
  obtain ⟨node, stage, store, origin, handed⟩ := w
  obtain rfl : stage = .reading feed next := hstage
  have hf := h.following next rfl
  have hr : handed ++ (WatchStage.reading feed next).handing = handed := List.append_nil _
  cases hs
  simp only [received, hr] at hf
  change Following store node.keyspace origin handed next (some feed) at hf
  have horigin : origin.or ((Request.nextBatch feed).openedAt a s) = origin := Option.or_none
  rw [horigin]
  cases hf with
  | @watching r _ _ _ f items hfeed ho =>
    cases items with
    | nil =>
      -- what is left is the error, since the loop would wait at a live watch
      have hl : f.live = false := by
        cases hl : f.live
        · rfl
        · have hnone := (Store.nextBatch_eq_none_iff hfeed).2 ⟨by simp [ho.pending, hl], hl⟩
          rw [ask?_nextBatch ha] at hnone
          cases hnone
      have hp : f.pending = [.error Store.offline] := by simp [ho.pending, hl]
      obtain ⟨hb, -, hrev, hhist, hnum⟩ := Store.nextBatch_of_pending hfeed hp
      rw [ask?_nextBatch ha] at hb hrev hhist hnum
      cases hb
      have hgot : handed ++ ([] : List Batch).flatMap Batch.events = handed ++ [] := rfl
      have ha := ho.account.congr hrev hhist
      refine .of_following rfl (hnum h.numbered) (h.dated.congr hrev hhist)
        (.between (hgot ▸ ha)) fun e next failures he => ?_
      cases he
      exact id
    | cons b items =>
      obtain ⟨hp, ho'⟩ := ho.read
      obtain ⟨hb, hfeed', hrev, hhist, hnum⟩ := Store.nextBatch_of_pending hfeed hp
      rw [ask?_nextBatch ha] at hb hfeed' hrev hhist hnum
      cases hb
      have hf' := Following.watching hfeed' (ho'.congr hrev hhist)
      change Invariant ⟨node, .received feed next b, _, _, _⟩
      obtain hc | hc := WatchRun.received_eq feed next b
      · rw [hc]
        exact .of_over rfl (hnum h.numbered) (h.dated.congr hrev hhist) (hhist ▸ h.inOrder)
      · rw [hc]
        split
        · next hempty =>
          have hnil : b.events = [] := List.isEmpty_iff.1 hempty
          rw [hnil] at hf'
          exact .of_following rfl (hnum h.numbered) (h.dated.congr hrev hhist) hf' (by simp)
        · exact .of_following rfl (hnum h.numbered) (h.dated.congr hrev hhist) hf' (by simp)

theorem Invariant.waiting (h : w.Invariant) {next : Int} {failures : UInt32}
    (hstage : w.stage = .waiting next failures) {now : Nat} {q : Request}
    {go : q.Answer → WatchStage} {a : q.Answer} {s : Store} (hs : WatchAsk w.node w.stage q go)
    (ha : w.store.ask? now q = some (a, s)) :
    Invariant ⟨w.node, go a, s, w.origin.or (q.openedAt a s), w.handed⟩ := by
  obtain ⟨node, stage, store, origin, handed⟩ := w
  obtain rfl : stage = .waiting next failures := hstage
  cases hs
  have hserve : store.ask? now .ready = if store.available then some ((), store) else none := rfl
  obtain rfl : store = s := by
    rw [show store.ask? now .ready = _ from ha] at hserve
    split at hserve <;> cases hserve
    rfl
  have horigin : origin.or (Request.openedAt .ready a store) = origin := Option.or_none
  rw [horigin]
  exact .of_following rfl h.numbered h.dated (h.following next rfl) (by simp)

theorem Invariant.closing (h : w.Invariant) {feed : Nat} (hstage : w.stage = .closing feed)
    {now : Nat} {q : Request} {go : q.Answer → WatchStage} {a : q.Answer} {s : Store}
    (hs : WatchAsk w.node w.stage q go) (ha : w.store.ask? now q = some (a, s)) :
    Invariant ⟨w.node, go a, s, w.origin.or (q.openedAt a s), w.handed⟩ := by
  obtain ⟨node, stage, store, origin, handed⟩ := w
  obtain rfl : stage = .closing feed := hstage
  cases hs
  have hserve : store.ask? now (.closeWatch feed) = some ((), store.closeWatch feed) := rfl
  obtain rfl : store.closeWatch feed = s := by
    rw [show store.ask? now (.closeWatch feed) = _ from ha] at hserve
    cases hserve
    rfl
  obtain ⟨_, hc⟩ := Store.tells_closeWatch (Nat.lt_succ_self feed).ne store
  have horigin : origin.or (Request.openedAt (.closeWatch feed) a (store.closeWatch feed)) =
      origin := Option.or_none
  rw [horigin]
  exact .of_over rfl (hc.numbered h.numbered) (hc.isDated h.dated) h.inOrder

theorem Step.invariant (h : Step w w') (hi : w.Invariant) : w'.Invariant := by
  cases h with
  | store hs =>
    obtain ⟨id, hid, batches, hc⟩ := hs.tells
    exact hi.commits hid hc
  | outage now => exact hi.outage now
  | @node n hn =>
    have hk : n.keyspace = w.node.keyspace := congrArg (·.keyspace) hn
    refine ⟨hi.numbered, hi.dated, ?_, fun next hnext => ?_, hi.error⟩
    · rw [expected, hk]
      exact hi.inOrder
    · rw [hk]
      exact hi.following next hnext
  | move now hs => exact hi.move hs
  | ask now hs ha =>
    obtain ⟨next, hask, rfl⟩ := watchAsk hs
    have hstage := hask
    generalize hw : w.stage = stage at hstage
    cases hstage with
    | openWatch next failures => exact hi.opening hw hask ha
    | nextBatch feed next => exact hi.reading hw hask ha
    | ready next failures => exact hi.waiting hw hask ha
    | closeWatch feed => exact hi.closing hw hask ha

theorem Reachable.invariant (h : w.Reachable) : w.Invariant := by
  obtain ⟨start, hstart, hrun⟩ := h
  induction hrun with
  | refl => exact hstart.invariant
  | tail _ hstep ih => exact hstep.invariant ih

/-- The handler gets the events of the namespace since a watch was first opened in order and each
once, however the store fails. When the loop has nothing to read, it has got them all. -/
theorem received_prefix_expected (h : w.Reachable) :
    w.received <+: w.expected ∧ (w.IsDrained → w.handed = w.expected) := by
  have hi := h.invariant
  refine ⟨hi.inOrder, ?_⟩
  rintro ⟨feed, next, hstage, hd⟩
  have hf := hi.following next (by rw [hstage]; rfl)
  rw [hstage] at hf
  have hr : w.received = w.handed := by rw [received, hstage]; exact List.append_nil _
  rw [← hr]
  exact hf.eq_of_drained hd

/-! An event comes while the watch is read, the store fails, two more come meanwhile, one of them
not in the namespace, and the watch is opened again. -/

def goOn (w : Delivery) : Delivery :=
  match watchStep 0 w.node w.stage with
  | .move n stage => { w with node := n, stage := stage, handed := w.received }
  | .ask q go none => match w.store.ask? 0 q with
    | some (a, s) => { w with
        node := (go a w.node).1, stage := (go a w.node).2, store := s
        origin := w.origin.or (q.openedAt a s) }
    | none => w
  | _ => w

theorem Reachable.tail (h : w.Reachable) (hs : Step w w') : w'.Reachable := by
  obtain ⟨start, hstart, hrun⟩ := h
  exact ⟨start, hstart, hrun.tail hs⟩

theorem Reachable.goOn (h : w.Reachable) : w.goOn.Reachable := by
  unfold Delivery.goOn
  split
  · next hs => exact h.tail (.move 0 hs)
  · next hs =>
    split
    · next ha => exact h.tail (.ask 0 hs ha)
    · exact h
  · exact h

def seed (w : Delivery) (key : String) : Delivery :=
  { w with store := w.store.seed 0 (utf8 key) [] none }

theorem Reachable.seed (h : w.Reachable) (key : String) : (w.seed key).Reachable :=
  h.tail (.store (.seed _ 0 _ _ _))

def firstRun : Delivery := ⟨Node.init default .empty .empty, .start, .empty 128, none, []⟩

/-- The first event is yet to be read when the store fails. -/
def brokenRun : Delivery :=
  let w := (firstRun.goOn.seed "/node/http/web").goOn
  ({ w with store := w.store.setAvailable 0 false }.seed "node/http/web").seed "/node/http/api"

def resumedRun : Delivery :=
  let w := brokenRun.goOn.goOn.goOn.goOn
  { w with store := w.store.setAvailable 0 true }.goOn.goOn.goOn.goOn.goOn

theorem resumedRun_reachable : resumedRun.Reachable := by
  have hfirst : firstRun.Reachable := ⟨_, ⟨rfl, ⟨_, rfl⟩, rfl, rfl⟩, .refl⟩
  have hbroken : brokenRun.Reachable :=
    ((((hfirst.goOn.seed _).goOn).tail (.outage 0)).seed _).seed _
  have hback := hbroken.goOn.goOn.goOn.goOn.tail (.store (.back _ 0))
  exact hback.goOn.goOn.goOn.goOn.goOn

theorem received_prefix_expected_resumedRun : resumedRun.Reachable ∧ resumedRun.IsDrained ∧
    resumedRun.handed =
      [.put (utf8 "/node/http/web") [] 1, .put (utf8 "/node/http/api") [] 3] ∧
    resumedRun.handed = resumedRun.expected := by
  have hd : resumedRun.IsDrained := ⟨1, 4, by rfl, by rfl⟩
  exact ⟨resumedRun_reachable, hd, by decide +kernel,
    (received_prefix_expected resumedRun_reachable).2 hd⟩

end Delivery

end ServiceDirectory
