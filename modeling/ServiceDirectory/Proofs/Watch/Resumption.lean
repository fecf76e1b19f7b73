import ServiceDirectory.Proofs.Watch.Ledger

/-! # Resuming a watch

The watch loop runs against a remote store that keeps to the rules of watches. The loop moves its
next revision past everything that the revision of an item covers, though events up to there may
still be owed. If the watch breaks off then, they are passed over for good (`keepsAll_iff`).
-/

namespace ServiceDirectory

open Activity

namespace Activity.WatchStage

/-- The revision from which the next watch will be opened, while the loop goes on. -/
def next? : WatchStage → Option Int
  | .opening next _ | .reading _ next | .handling _ next _ | .failed _ next _ | .waiting next _
  | .sleeping next _ _ => some next
  | .closing _ | .stopped => none

def watching? : WatchStage → Option Nat
  | .reading feed _ | .handling feed _ _ => some feed
  | _ => none

def handing : WatchStage → List Event
  | .handling _ _ es => es
  | _ => []

end Activity.WatchStage

structure WatchRun where
  node : Node
  stage : WatchStage
  remote : Remote
  handed : List Event
  /-- The events that the loop had passed when the watch that owed them broke off. -/
  passed : List Event

namespace WatchRun

open Remote

variable {w w' : WatchRun}

/-- The events of the run that the handler has or is about to get. -/
def received (w : WatchRun) : List Event := w.handed ++ w.stage.handing

/-- What is passed over if the stream ends in this change of the remote store. -/
def newlyPassed (w : WatchRun) (remote : Remote) : List Event :=
  match w.remote.stream, remote.stream, w.stage.next? with
  | some st, none, some next => st.owed.filter fun e => e.revision < next ∧ e ∉ w.received
  | _, _, _ => []

inductive Step : WatchRun → WatchRun → Prop
  | commit {w : WatchRun} {es : List Event} : (∀ e ∈ es, e.revision = w.remote.revision + 1) →
      Step w { w with remote := w.remote.commit es }
  | node {w : WatchRun} {n : Node} : n.settings = w.node.settings → Step w { w with node := n }
  | move {w : WatchRun} {n : Node} {stage : WatchStage} (now : Nat) :
      watchStep now w.node w.stage = .move n stage →
      Step w { w with node := n, stage := stage, handed := w.received }
  | ask {w : WatchRun} {q : Request} {go : q.Answer → Node → Node × WatchStage} {a : q.Answer}
      {remote : Remote} (now : Nat) :
      watchStep now w.node w.stage = .ask q go none → w.remote.Answers q a remote →
      Step w { w with
        node := (go a w.node).1, stage := (go a w.node).2, remote := remote
        passed := w.passed ++ w.newlyPassed remote }

/-- The loop begins; the store has some history. -/
structure IsStart (w : WatchRun) : Prop where
  stage : w.stage = .start
  revision : 0 ≤ w.remote.revision
  history : ∀ e ∈ w.remote.history, e.revision ≤ w.remote.revision
  stream : w.remote.stream = none
  firstAck : w.remote.firstAck = none
  handed : w.handed = []
  passed : w.passed = []

def Reachable (w : WatchRun) : Prop := ∃ start, IsStart start ∧ Relation.ReflTransGen Step start w

/-- The kept revision does not pass over an event that is still to be handed over. -/
def KeepsAll (w : WatchRun) (next : Int) : Prop :=
  next = 0 ∨ ∀ e ∈ w.remote.history, w.remote.IsNewer e → e ∉ w.received → next ≤ e.revision

/-! ## Runs -/

theorem foldl_max_le_iff (l : List Int) (a b : Int) :
    l.foldl max a ≤ b ↔ a ≤ b ∧ ∀ x ∈ l, x ≤ b := by
  induction l generalizing a with
  | nil => simp
  | cons x l ih => simp [ih, and_assoc]

theorem le_lastRevision (b : Batch) : ∀ e ∈ b.events, e.revision ≤ b.lastRevision := by
  have h := (foldl_max_le_iff (b.events.map Event.revision) b.revision b.lastRevision).1 le_rfl
  exact fun e he => h.2 _ (List.mem_map_of_mem he)

theorem lastRevision_le {b : Batch} {n : Int} (h : b.revision ≤ n)
    (he : ∀ e ∈ b.events, e.revision ≤ n) : b.lastRevision ≤ n :=
  (foldl_max_le_iff _ _ _).2 ⟨h, List.forall_mem_map.2 he⟩

structure Invariant (w : WatchRun) : Prop where
  ledger : ∀ next, w.stage.next? = some next →
    Ledger w.remote w.received w.passed next ∧ w.remote.stream.map (·.feed) = w.stage.watching?
  error : ∀ e next failures, w.stage = .failed e next failures → ¬ Remote.IsCancellation e

theorem IsStart.invariant (h : w.IsStart) : w.Invariant where
  ledger next hn := by
    rw [h.stage] at hn
    obtain rfl : 0 = next := Option.some.inj hn
    have hr : w.received = [] := by rw [received, h.handed, h.stage]; rfl
    rw [hr, h.passed, h.stage, h.stream]
    exact ⟨.beforeWatches h.revision h.history h.stream h.firstAck, rfl⟩
  error e next failures he := by
    rw [h.stage] at he
    cases he

theorem watchStep_failed {e : Error} (h : ¬ Remote.IsCancellation e) (now : Nat) (n : Node)
    (next : Int) (failures : UInt32) : watchStep now n (.failed e next failures) =
      .move n (if e.isUnavailable then .waiting next failures
        else .sleeping next failures
          (Clock.wake now (n.settings.backoff.delayMs failures).toNat)) := by
  cases e with
  | remote e =>
    cases e with
    | watchCanceled reason revision => exact absurd trivial h
    | _ => rfl
  | _ => rfl

theorem watchStep_move {now : Nat} {n n' : Node} {stage stage' : WatchStage}
    (hc : ∀ e next failures, stage = .failed e next failures → ¬ Remote.IsCancellation e)
    (h : watchStep now n stage = .move n' stage') :
    stage'.handing = [] ∧ (∀ e next failures, stage' ≠ .failed e next failures) ∧
      (stage'.next? = none ∨ stage'.next? = stage.next? ∧ stage'.watching? = stage.watching?) := by
  cases stage with
  | opening next failures =>
    simp only [watchStep, Progress.query] at h
    split at h <;> cases h
  | reading feed next =>
    simp only [watchStep, Progress.query] at h
    split at h <;> cases h
    exact ⟨rfl, by simp, .inl rfl⟩
  | handling feed next es =>
    cases h
    exact ⟨rfl, by simp, .inr ⟨rfl, rfl⟩⟩
  | failed e next failures =>
    rw [watchStep_failed (hc e next failures rfl)] at h
    cases h
    split <;> exact ⟨rfl, by simp, .inr ⟨rfl, rfl⟩⟩
  | waiting next failures =>
    simp only [watchStep, Progress.query] at h
    split at h <;> cases h
  | sleeping next failures wake =>
    simp only [watchStep] at h
    split at h
    · cases h
    · split at h <;> cases h
      exact ⟨rfl, by simp, .inr ⟨rfl, rfl⟩⟩
  | closing feed => cases h
  | stopped => cases h

theorem received_of_handing {w : WatchRun} (h : w.stage.handing = []) : w.received = w.handed := by
  rw [received, h, List.append_nil]

theorem newlyPassed_of_stream_none (h : w.remote.stream = none) (remote : Remote) :
    w.newlyPassed remote = [] := by
  simp [newlyPassed, h]

theorem mem_newlyPassed_iff {st : RemoteStream} {next : Int} (hst : w.remote.stream = some st)
    (hn : w.stage.next? = some next) (remote : Remote) (hr : remote.stream = none) (e : Event) :
    e ∈ w.newlyPassed remote ↔ e ∈ st.owed ∧ e.revision < next ∧ e ∉ w.received := by
  simp [newlyPassed, hst, hn, hr]

theorem newlyPassed_of_stream_some {st : RemoteStream} {remote : Remote}
    (hr : remote.stream = some st) : w.newlyPassed remote = [] := by
  unfold newlyPassed
  rw [hr]
  split <;> simp_all

theorem received_eq (feed : Nat) (next : Int) (b : Batch) :
    WatchStage.received feed next b = .closing feed ∨
      WatchStage.received feed next b = (if b.events.isEmpty then
        .reading feed (max next (b.lastRevision + 1))
      else .handling feed (max next (b.lastRevision + 1)) b.events) := by
  unfold WatchStage.received Batch.nextRevision?
  split
  · exact .inl rfl
  · next r hr =>
    split at hr
    · cases hr
      exact .inr rfl
    · cases hr

theorem Invariant.commit (h : w.Invariant) {es : List Event}
    (hes : ∀ e ∈ es, e.revision = w.remote.revision + 1) :
    { w with remote := w.remote.commit es }.Invariant where
  ledger next hn := by
    obtain ⟨hl, hf⟩ := h.ledger next hn
    refine ⟨hl.commit hes, ?_⟩
    change (w.remote.stream.map _).map _ = _
    rw [Option.map_map, ← hf]
    rfl
  error := h.error

theorem Invariant.move (h : w.Invariant) {now : Nat} {n : Node} {stage : WatchStage}
    (hs : watchStep now w.node w.stage = .move n stage) :
    { w with node := n, stage := stage, handed := w.received }.Invariant := by
  obtain ⟨hnil, hfailed, hnext⟩ := watchStep_move h.error hs
  refine ⟨fun next hn => ?_, fun e next failures he => absurd he (hfailed e next failures)⟩
  obtain hnone | ⟨hsame, hwatching⟩ := hnext
  · rw [hnone] at hn
    cases hn
  · rw [received_of_handing (w := { w with node := n, stage := stage, handed := w.received }) hnil]
    rw [hsame] at hn
    obtain ⟨hl, hf⟩ := h.ledger next hn
    exact ⟨hl, hf.trans hwatching.symm⟩

theorem Invariant.of_ledger {n : Node} {stage : WatchStage} {r : Remote}
    {handed passed : List Event} {next : Int} (hn : stage.next? = some next)
    (hnil : stage.handing = [])
    (hl : Ledger r handed passed next) (hf : r.stream.map (·.feed) = stage.watching?)
    (he : ∀ e next failures, stage = .failed e next failures → ¬ Remote.IsCancellation e) :
    Invariant ⟨n, stage, r, handed, passed⟩ where
  ledger next' hn' := by
    obtain rfl : next = next' := Option.some.inj (hn.symm.trans hn')
    rw [received_of_handing (w := ⟨n, stage, r, handed, passed⟩) hnil]
    exact ⟨hl, hf⟩
  error := he

theorem Invariant.opening (h : w.Invariant) {next : Int} {failures : UInt32}
    (hstage : w.stage = .opening next failures) {now : Nat} {q : Request}
    {go : q.Answer → Node → Node × WatchStage} {a : q.Answer} {r : Remote}
    (hs : watchStep now w.node w.stage = .ask q go none) (ha : w.remote.Answers q a r) :
    Invariant ⟨(go a w.node).1, (go a w.node).2, r, w.handed, w.passed ++ w.newlyPassed r⟩ := by
  obtain ⟨hl, hf⟩ := h.ledger next (by rw [hstage]; rfl)
  rw [received_of_handing (by rw [hstage]; rfl)] at hl
  rw [hstage] at hf hs
  have hnone : w.remote.stream = none := Option.map_eq_none_iff.1 hf
  rw [newlyPassed_of_stream_none hnone, List.append_nil]
  simp only [watchStep, Progress.query] at hs
  split at hs <;> cases hs
  cases ha with
  | opened _ _ feed => exact .of_ledger rfl rfl (hl.opened hnone feed) rfl (by simp)
  | refused _ _ he =>
    have hsame : { w.remote with stream := none } = w.remote := by rw [← hnone]
    rw [hsame]
    exact .of_ledger rfl rfl hl (by rw [hnone]; rfl) (by simpa using he)

theorem Invariant.reading (h : w.Invariant) {feed : Nat} {next : Int}
    (hstage : w.stage = .reading feed next) {now : Nat} {q : Request}
    {go : q.Answer → Node → Node × WatchStage} {a : q.Answer} {r : Remote}
    (hs : watchStep now w.node w.stage = .ask q go none) (ha : w.remote.Answers q a r) :
    Invariant ⟨(go a w.node).1, (go a w.node).2, r, w.handed, w.passed ++ w.newlyPassed r⟩ := by
  have hnext : w.stage.next? = some next := by rw [hstage]; rfl
  obtain ⟨hl, hf⟩ := h.ledger next hnext
  have hreceived : w.received = w.handed := received_of_handing (by rw [hstage]; rfl)
  rw [hstage] at hs
  simp only [watchStep, Progress.query] at hs
  split at hs <;> cases hs
  -- the loop is over if the batch has the last revision of all
  have hclosing : ∀ passed, Invariant ⟨w.node, .closing feed, r, w.handed, passed⟩ := fun _ =>
    ⟨(fun _ hn => by cases hn), fun _ _ _ he => by cases he⟩
  cases ha with
  | @acknowledged st revision hst hack =>
    rw [newlyPassed_of_stream_some rfl, List.append_nil]
    change Invariant ⟨w.node, .received _ next ⟨revision, []⟩, _, w.handed, w.passed⟩
    obtain hc | hc := received_eq st.feed next ⟨revision, []⟩
    · rw [hc]
      exact hclosing _
    · rw [hc]
      exact .of_ledger rfl rfl (hreceived ▸ hl.acknowledged hst hack) rfl (by simp)
  | @yielded st es rest revision hst hack howed hes hle hfloor hrevision =>
    rw [newlyPassed_of_stream_some rfl, List.append_nil]
    change Invariant ⟨w.node, .received _ next ⟨revision, es⟩, _, w.handed, w.passed⟩
    obtain hc | hc := received_eq st.feed next ⟨revision, es⟩
    · rw [hc]
      exact hclosing _
    · have hempty : es.isEmpty = false := by simpa using hes
      have hlast := lastRevision_le (b := ⟨revision, es⟩) hrevision
        fun e he => (hle e he).trans hrevision
      rw [hc, hempty]
      refine ⟨fun next' hn => ?_, fun _ _ _ he => by cases he⟩
      cases hn
      refine ⟨?_, rfl⟩
      have hyielded := hl.yielded revision hst hack howed
        (le_lastRevision ⟨revision, es⟩) hlast
      rwa [hreceived] at hyielded
  | @brokeOff st e hst he =>
    have hlost := hl.brokeOff hst fun e =>
      mem_newlyPassed_iff hst hnext { w.remote with stream := none } rfl e
    rw [hreceived] at hlost
    exact .of_ledger rfl rfl hlost rfl (by simpa using he)

theorem Invariant.waiting (h : w.Invariant) {next : Int} {failures : UInt32}
    (hstage : w.stage = .waiting next failures) {now : Nat} {q : Request}
    {go : q.Answer → Node → Node × WatchStage} {a : q.Answer} {r : Remote}
    (hs : watchStep now w.node w.stage = .ask q go none) (ha : w.remote.Answers q a r) :
    Invariant ⟨(go a w.node).1, (go a w.node).2, r, w.handed, w.passed ++ w.newlyPassed r⟩ := by
  obtain ⟨hl, hf⟩ := h.ledger next (by rw [hstage]; rfl)
  rw [received_of_handing (by rw [hstage]; rfl)] at hl
  rw [hstage] at hf hs
  have hnone : w.remote.stream = none := Option.map_eq_none_iff.1 hf
  rw [newlyPassed_of_stream_none hnone, List.append_nil]
  simp only [watchStep, Progress.query] at hs
  split at hs <;> cases hs
  cases ha
  exact .of_ledger rfl rfl hl (by rw [hnone]; rfl) (by simp)

theorem Step.invariant (h : Step w w') (hi : w.Invariant) : w'.Invariant := by
  cases h with
  | commit hes => exact hi.commit hes
  | node _ => exact ⟨hi.ledger, hi.error⟩
  | move now hs => exact hi.move hs
  | ask now hs ha =>
    cases hstage : w.stage with
    | opening next failures => exact hi.opening hstage hs ha
    | reading feed next => exact hi.reading hstage hs ha
    | waiting next failures => exact hi.waiting hstage hs ha
    | handling feed next es => rw [hstage] at hs; cases hs
    | failed e next failures =>
      rw [hstage, watchStep_failed (hi.error e next failures hstage)] at hs
      cases hs
    | sleeping next failures wake =>
      rw [hstage] at hs
      simp only [watchStep] at hs
      split at hs
      · cases hs
      · split at hs <;> cases hs
    | closing feed =>
      rw [hstage] at hs
      cases hs
      exact ⟨(fun _ hn => by cases hn), fun _ _ _ he => by cases he⟩
    | stopped => rw [hstage] at hs; cases hs

theorem Reachable.invariant (h : w.Reachable) : w.Invariant := by
  obtain ⟨start, hstart, hrun⟩ := h
  induction hrun with
  | refl => exact hstart.invariant
  | tail _ hstep ih => exact hstep.invariant ih

theorem passed_subset (h : Relation.ReflTransGen Step w w') : w.passed ⊆ w'.passed := by
  induction h with
  | refl => exact List.Subset.refl _
  | tail _ hstep ih =>
    cases hstep with
    | ask _ _ _ => exact List.subset_append_of_subset_left _ ih
    | _ => exact ih

theorem KeepsAll.le_of_not_mem {next : Int} (hk : w.KeepsAll next)
    (hl : Ledger w.remote w.received w.passed next) {e : Event} (he : e ∈ w.remote.history)
    (hnew : w.remote.IsNewer e) (hr : e ∉ w.received) : next ≤ e.revision := by
  obtain hz | hk := hk
  · exact absurd hz (hl.ne_zero_of_isNewer hnew)
  · exact hk e he hnew hr

theorem KeepsAll.passed_eq_nil {next : Int} (hk : w.KeepsAll next)
    (hl : Ledger w.remote w.received w.passed next) : w.passed = [] := by
  apply List.eq_nil_iff_forall_not_mem.2
  intro e he
  obtain ⟨hh, hnew, hlt, hr⟩ := hl.passed_mem e he
  have hle := hk.le_of_not_mem hl hh hnew hr
  omega

theorem KeepsAll.received_or_le {next : Int} (hk : w.KeepsAll next)
    (hl : Ledger w.remote w.received w.passed next) {st : RemoteStream}
    (hst : w.remote.stream = some st) {e : Event} (he : e ∈ st.owed) :
    e ∈ w.received ∨ next ≤ e.revision := by
  by_cases hr : e ∈ w.received
  · exact .inl hr
  · right
    obtain hnew | ⟨hz, hpos⟩ := hl.owed_cases hst he
    · exact hk.le_of_not_mem hl ((hl.stream st hst).owed e he).1 hnew hr
    · omega

theorem keepsAll_of_ledger {next : Int} (hl : Ledger w.remote w.received w.passed next)
    (hp : w.passed = [])
    (ho : ∀ st ∈ w.remote.stream, ∀ e ∈ st.owed, e ∈ w.received ∨ next ≤ e.revision) :
    w.KeepsAll next := by
  right
  intro e he hnew hr
  have hno : e ∉ w.passed := by simp [hp]
  cases hst : w.remote.stream with
  | none => exact ((hl.closed hst e he hnew).resolve_left hr).resolve_left hno
  | some st =>
    by_cases hstart : st.start ≤ e.revision
    · have hown := ((hl.stream st hst).complete e he hstart).resolve_left hr
      exact (ho st hst e hown).resolve_left hr
    · obtain hr' | hp' := (hl.stream st hst).before e he hnew (Int.not_le.1 hstart)
      · exact absurd hr' hr
      · exact absurd hp' hno

/-- The kept revision passes over no event exactly if no watch broke off while it owed an event that
the revision had passed, and the open watch owes none such. What was passed over is never handed
over; once the open watch owes nothing, all other events newer than the first acknowledgement have
been. -/
theorem keepsAll_iff (h : w.Reachable) {next : Int} (hn : w.stage.next? = some next) :
    (w.KeepsAll next ↔ w.passed = [] ∧
      ∀ st ∈ w.remote.stream, ∀ e ∈ st.owed, e ∈ w.received ∨ next ≤ e.revision) ∧
    (∀ w', Relation.ReflTransGen Step w w' → ∀ next', w'.stage.next? = some next' →
      ∀ e ∈ w.passed, e ∉ w'.received) ∧
    (∀ st ∈ w.remote.stream, st.owed = [] →
      ∀ e ∈ w.remote.history, w.remote.IsNewer e → e ∈ w.received ∨ e ∈ w.passed) := by
  obtain ⟨hl, -⟩ := h.invariant.ledger next hn
  refine ⟨?_, ?_, ?_⟩
  · constructor
    · intro hk
      exact ⟨hk.passed_eq_nil hl, fun st hst e he => hk.received_or_le hl hst he⟩
    · rintro ⟨hp, ho⟩
      exact keepsAll_of_ledger hl hp ho
  · intro w' hrun next' hn' e he
    obtain ⟨start, hstart, hrun₀⟩ := h
    have hw' : w'.Reachable := ⟨start, hstart, hrun₀.trans hrun⟩
    obtain ⟨hl', -⟩ := hw'.invariant.ledger next' hn'
    exact (hl'.passed_mem e (passed_subset hrun he)).2.2.2
  · intro st hst hnil e he hnew
    have hs := hl.stream st hst
    by_cases hstart : st.start ≤ e.revision
    · left
      refine (hs.complete e he hstart).resolve_right ?_
      simp [hnil]
    · exact hs.before e he hnew (Int.not_le.1 hstart)

/-! A service is registered during an outage, and the watch that is to tell of it breaks off after
its acknowledgement. -/

def missedEvent : Event := .put (utf8 "/node/http/web") [] 1

def outage : Error := .unavailable "offline"

def missingRun (stage : WatchStage) (r : Remote) : WatchRun :=
  ⟨Node.init default .empty .empty, stage, r, [], []⟩

def earlyStream (acknowledgement : Option Int) : RemoteStream := ⟨0, acknowledgement, 1, [], 0⟩

def lateStream (acknowledgement : Option Int) : RemoteStream :=
  ⟨1, acknowledgement, 1, [missedEvent], 1⟩

def missedEnd : WatchRun :=
  { missingRun (.failed outage 2 0) ⟨1, [missedEvent], none, some 0⟩ with passed := [missedEvent] }

theorem Step.of_ask {q : Request} {go : q.Answer → Node → Node × WatchStage} {a : q.Answer}
    {remote : Remote} (hs : watchStep 0 w.node w.stage = .ask q go none)
    (ha : w.remote.Answers q a remote)
    (h : w' = ⟨(go a w.node).1, (go a w.node).2, remote, w.handed,
      w.passed ++ w.newlyPassed remote⟩) : Step w w' := h ▸ .ask 0 hs ha

theorem missedEnd_reachable : missedEnd.Reachable := by
  have hstart : (missingRun .start ⟨0, [], none, none⟩).IsStart :=
    ⟨rfl, le_rfl, by simp [missingRun], rfl, rfl, rfl, rfl⟩
  have hopen : Step (missingRun .start ⟨0, [], none, none⟩)
      (missingRun (.reading 0 0) ⟨0, [], some (earlyStream (some 0)), none⟩) :=
    .of_ask rfl (.opened _ _ 0) rfl
  have hack : Step (missingRun (.reading 0 0) ⟨0, [], some (earlyStream (some 0)), none⟩)
      (missingRun (.reading 0 1) ⟨0, [], some (earlyStream none), some 0⟩) :=
    .of_ask rfl (@Remote.Answers.acknowledged _ (earlyStream (some 0)) 0 rfl rfl) rfl
  have hbreak : Step (missingRun (.reading 0 1) ⟨0, [], some (earlyStream none), some 0⟩)
      (missingRun (.failed outage 1 0) ⟨0, [], none, some 0⟩) :=
    .of_ask rfl (@Remote.Answers.brokeOff _ (earlyStream none) outage rfl id) rfl
  have hwait : Step (missingRun (.failed outage 1 0) ⟨0, [], none, some 0⟩)
      (missingRun (.waiting 1 0) ⟨0, [], none, some 0⟩) := .move 0 rfl
  have hcommit : Step (missingRun (.waiting 1 0) ⟨0, [], none, some 0⟩)
      (missingRun (.waiting 1 0) ⟨1, [missedEvent], none, some 0⟩) :=
    @Step.commit _ [missedEvent] (by simp [missedEvent, Event.revision, missingRun])
  have hready : Step (missingRun (.waiting 1 0) ⟨1, [missedEvent], none, some 0⟩)
      (missingRun (.opening 1 0) ⟨1, [missedEvent], none, some 0⟩) := .of_ask rfl .ready rfl
  have hreopen : Step (missingRun (.opening 1 0) ⟨1, [missedEvent], none, some 0⟩)
      (missingRun (.reading 1 1) ⟨1, [missedEvent], some (lateStream (some 1)), some 0⟩) :=
    .of_ask rfl (.opened _ _ 1) rfl
  have hack' : Step
      (missingRun (.reading 1 1) ⟨1, [missedEvent], some (lateStream (some 1)), some 0⟩)
      (missingRun (.reading 1 2) ⟨1, [missedEvent], some (lateStream none), some 0⟩) :=
    .of_ask rfl (@Remote.Answers.acknowledged _ (lateStream (some 1)) 1 rfl rfl) rfl
  have hbreak' : Step
      (missingRun (.reading 1 2) ⟨1, [missedEvent], some (lateStream none), some 0⟩) missedEnd :=
    .of_ask rfl (@Remote.Answers.brokeOff _ (lateStream none) outage rfl id) rfl
  exact ⟨_, hstart, .head hopen <| .head hack <| .head hbreak <| .head hwait <| .head hcommit <|
    .head hready <| .head hreopen <| .head hack' <| .single hbreak'⟩

theorem keepsAll_iff_missedEnd :
    missedEnd.Reachable ∧ missedEnd.stage.next? = some 2 ∧
      (missedEnd.KeepsAll 2 ↔ missedEnd.passed = [] ∧
        ∀ st ∈ missedEnd.remote.stream, ∀ e ∈ st.owed, e ∈ missedEnd.received ∨ 2 ≤ e.revision) :=
  ⟨missedEnd_reachable, rfl, (keepsAll_iff missedEnd_reachable rfl).1⟩

/-- The kept revision may pass over an event that was not handed over. -/
theorem not_forall_keepsAll : ¬ ∀ w : WatchRun, w.Reachable → ∀ next, w.stage.next? = some next →
    w.KeepsAll next := by
  intro h
  obtain h0 | hle := h missedEnd missedEnd_reachable 2 rfl
  · cases h0
  · have hrev := hle missedEvent (List.mem_singleton.2 rfl) ⟨0, rfl, Int.one_pos⟩ (by decide)
    exact absurd hrev (by decide)

end WatchRun

end ServiceDirectory
