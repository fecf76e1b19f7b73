import ServiceDirectory.Node.Creation
import ServiceDirectory.Proofs.Activity.Parts
import ServiceDirectory.Proofs.Activity.PointerRun
import Mathlib.Logic.Relation

/-! # The lease pointer

The task that acquires and keeps the lease writes the pointer before it adopts a lease, and neither
the end of a lease nor anybody else takes the pointer away. So the pointer names the lease of the
node but for the moment between its writing and the adoption, and a lease that comes after another
was granted and written under the pointer since (`lease_agrees`).
-/

namespace ServiceDirectory

open Activity

/-! ## Stages -/

/-- The lease that the pointer names, and that is not adopted yet. -/
def Activity.GrantStage.named? : GrantStage → Option Int
  | .pointed lease => some lease
  | _ => none

def Activity.GrantStage.isAdopted : GrantStage → Bool
  | .finishing (.ok _) => true
  | _ => false

def Activity.creation? : Activity → Option GrantStage
  | acquiring (.creating stage) => some stage
  | leaseLoop (.replacing _ _ stage) => some stage
  | _ => none

def Activity.named? : Activity → Option Int
  | acquiring (.pointed lease) | acquiring (.alive lease _) | acquiring (.inheriting lease _ _) =>
    some lease
  | acquiring (.creating stage) | leaseLoop (.replacing _ _ stage) => stage.named?
  | _ => none

def Activity.isLeased : Activity → Bool
  | acquiring (.finishing (.ok _)) | leaseLoop _ => true
  | acquiring (.creating stage) => stage.isAdopted
  | _ => false

def Activity.isLeaseTask : Activity → Bool
  | acquiring _ | leaseLoop _ => true
  | _ => false

theorem Activity.isLeaseTask_of_creation? {a : Activity} {stage : GrantStage}
    (h : a.creation? = some stage) : a.isLeaseTask = true := by
  unfold Activity.creation? at h
  split at h
  · rfl
  · rfl
  · cases h

structure Activity.IsPlain (a : Activity) : Prop where
  task : a.isLeaseTask = true
  named : a.named? = none
  granted : ∀ id, a.creation? ≠ some (.granted id)

theorem Activity.IsPlain.creation_ne_pointed {a : Activity} (h : a.IsPlain) (id : Int) :
    a.creation? ≠ some (.pointed id) := by
  intro hc
  have hnamed := h.named
  unfold Activity.creation? at hc
  split at hc
  · cases hc; cases hnamed
  · cases hc; cases hnamed
  · cases hc

theorem Activity.IsPlain.ne_inheriting {a : Activity} (h : a.IsPlain) (lease : Int)
    (batches : List (List TxnOp)) (found : Inherited) :
    a ≠ .acquiring (.inheriting lease batches found) := by
  rintro rfl
  cases h.named

theorem Activity.named?_eq_none {a : Activity} (hl : a.isLeased = true)
    (hc : ∀ id, a.creation? ≠ some (.pointed id)) : a.named? = none := by
  cases a with
  | acquiring stage =>
    cases stage with
    | creating stage =>
      cases stage with
      | pointed id => exact absurd rfl (hc id)
      | _ => rfl
    | pointed id => cases hl
    | alive id keys => cases hl
    | inheriting id batches found => cases hl
    | _ => rfl
  | leaseLoop stage =>
    cases stage with
    | replacing tick attempt stage =>
      cases stage with
      | pointed id => exact absurd rfl (hc id)
      | _ => rfl
    | _ => rfl
  | _ => rfl

namespace PointerRun

variable {w w' : PointerRun} {store : Store} {activity : Activity} {node : Node}
  {value : Bytes} {id : Int} {events : List LeaseEvent}

/-! ## What every turn keeps -/

/-- The pointer names the lease in the hands of the task, or else the lease of the node. A lease in
the hands of the task was granted, and then written under the pointer, since the last adoption. -/
structure Invariant (w : PointerRun) : Prop where
  task : w.activity.isLeaseTask = true
  used : w.store.IsUsed w.now
  unbound : w.store.IsUnbound w.pointer
  leased : w.node.lease.isSome = w.activity.isLeased
  names : ∀ lease, w.activity.named?.or w.node.lease = some lease → w.store.Names w.pointer lease
  nonzero : w.node.lease ≠ some 0
  published : w.node.published = w.node.lease.getD 0
  adopted : w.log.findSome? LeaseEvent.adopted? = w.node.lease
  granted : ∀ id, w.activity.creation? = some (.granted id) →
    IsLeaseNumber id ∧ .granted id ∈ sinceAdoption w.log
  pointed : ∀ id, w.activity.creation? = some (.pointed id) →
    HandsOver w.pointer id (sinceAdoption w.log)
  orderly : IsOrderly w.pointer w.log
  started : .started ∈ w.log → w.node.lease ≠ none
  reads : ∀ lease batches found, w.activity = .acquiring (.inheriting lease batches found) →
    ∀ ops ∈ batches, ∀ op ∈ ops, ¬ op.Writes w.pointer

/-- The store is in use, and what is under the pointer is as it was. -/
structure Keeps (w : PointerRun) (store : Store) : Prop where
  used : store.IsUsed w.now
  pointer : store.entries.find? w.pointer = w.store.entries.find? w.pointer

theorem Invariant.keeps (h : w.Invariant) : w.Keeps w.store := ⟨h.used, rfl⟩

theorem Keeps.names (hk : w.Keeps store) (h : w.store.Names w.pointer id) :
    store.Names w.pointer id := by
  rwa [Store.Names, Store.value?, hk.pointer]

theorem Invariant.elsewhere (h : w.Invariant) (he : w.Elsewhere store) : w.Keeps store := by
  cases he with
  | request hs hq => exact ⟨h.used.serve hs, h.used.find?_serve h.unbound hs hq⟩
  | seed value bound hne =>
    exact ⟨h.used.seed _ value bound, h.used.find?_seed h.unbound hne value bound⟩
  | revoke id => exact ⟨h.used.revoke id, h.used.find?_revoke h.unbound id⟩
  | setAvailable up => exact ⟨h.used.setAvailable up, h.used.find?_setAvailable h.unbound up⟩
  | pausePuts paused => exact ⟨h.used.pausePuts paused, rfl⟩

theorem Invariant.answered (h : w.Invariant) {q : Request} {a : q.Answer}
    (ha : w.Answered q a store) (hq : ∀ op ∈ q.operations, ¬ op.Writes w.pointer) :
    w.Keeps store := by
  cases ha with
  | served hs _ _ => exact ⟨h.used.serve hs, h.used.find?_serve h.unbound hs hq⟩
  | refused _ => exact h.keeps
  | streamed a _ => exact h.keeps

theorem Invariant.next (h : w.Invariant) (hk : w.Keeps store) (he : ∀ e ∈ events, e.adopted? = none)
    (hstarted : .started ∈ events → w.node.lease ≠ none) (htask : activity.isLeaseTask = true)
    (hleased : activity.isLeased = w.activity.isLeased)
    (hnames : ∀ lease, activity.named?.or w.node.lease = some lease →
      store.Names w.pointer lease)
    (hgranted : ∀ id, activity.creation? = some (.granted id) →
      IsLeaseNumber id ∧ .granted id ∈ sinceAdoption (events ++ w.log))
    (hpointed : ∀ id, activity.creation? ≠ some (.pointed id))
    (hreads : ∀ lease batches found, activity = .acquiring (.inheriting lease batches found) →
      ∀ ops ∈ batches, ∀ op ∈ ops, ¬ op.Writes w.pointer) :
    Invariant { w with activity, store, log := events ++ w.log } where
  task := htask
  used := hk.used
  unbound := h.unbound.of_find? hk.pointer
  leased := h.leased.trans hleased.symm
  names := hnames
  nonzero := h.nonzero
  published := h.published
  adopted := (findSome?_append_of_quiet he _).trans h.adopted
  granted := hgranted
  pointed id hid := absurd hid (hpointed id)
  orderly := h.orderly.append he
  started hm := (List.mem_append.1 hm).elim hstarted h.started
  reads := hreads

theorem Invariant.plain (h : w.Invariant) (hk : w.Keeps store) (hp : activity.IsPlain)
    (hleased : activity.isLeased = w.activity.isLeased)
    (hnamed : w.activity.isLeased = false ∨ w.activity.named? = none) :
    Invariant (w.goOn w.node activity store []) := by
  rw [goOn_self]
  refine h.next hk (by simp) (by simp) hp.task hleased
    (fun lease hl => hk.names (h.names lease ?_))
    (fun id hid => absurd hid (hp.granted id)) hp.creation_ne_pointed
    fun lease batches found hact => absurd hact (hp.ne_inheriting lease batches found)
  -- A lease in hand may be given up only while the node has none that the pointer should name.
  rw [hp.named, Option.none_or] at hl
  rcases hnamed with hno | hno
  · rw [← h.leased, hl] at hno
    cases hno
  · rw [hno, Option.none_or, hl]

theorem Invariant.keep (h : w.Invariant) (hl : w.activity.isLeased = true)
    (hn : w.activity.named? = none) :
    Invariant (w.goOn w.node keepLease w.store [.started]) := by
  have hlease : w.node.lease ≠ none := by
    rw [← Option.isSome_iff_ne_none, h.leased, hl]
  rw [goOn_self]
  exact h.next h.keeps (by simp [LeaseEvent.adopted?]) (fun _ => hlease) rfl hl.symm
    (fun lease hname => h.names lease (hn ▸ hname)) (fun _ => nofun) (fun _ => nofun)
    fun _ _ _ => nofun

theorem Invariant.holding (h : w.Invariant) (hk : w.Keeps store) {id : Int}
    (htask : activity.isLeaseTask = true) (hnamed : activity.named? = some id)
    (hname : store.Names w.pointer id) (hleased : activity.isLeased = w.activity.isLeased)
    (hcreation : activity.creation? = none)
    (hreads : ∀ lease batches found, activity = .acquiring (.inheriting lease batches found) →
      ∀ ops ∈ batches, ∀ op ∈ ops, ¬ op.Writes w.pointer) :
    Invariant (w.goOn w.node activity store []) := by
  rw [goOn_self]
  refine h.next hk (by simp) (by simp) htask hleased (fun lease hl => ?_)
    (fun id hid => ?_) (fun id hid => ?_) hreads
  · rw [hnamed] at hl
    cases hl
    exact hname
  · rw [hcreation] at hid
    cases hid
  · rw [hcreation] at hid
    cases hid

theorem Invariant.adopt (h : w.Invariant) (hid : w.activity.named? = some id)
    (hover : w.node.lease = none ∨ HandsOver w.pointer id (sinceAdoption w.log))
    (hp : activity.IsPlain) (hleased : activity.isLeased = true) :
    Invariant (w.goOn (w.node.adopt id) activity w.store []) := by
  have hname : w.store.Names w.pointer id := h.names id (by rw [hid]; rfl)
  rw [goOn_adopt]
  refine ⟨hp.task, h.used, h.unbound, hleased.symm, fun lease hl => ?_, fun hzero => ?_, rfl, rfl,
    fun id hc => absurd hc (hp.granted id), fun id hc => absurd hc (hp.creation_ne_pointed id), ?_,
    fun _ => nofun,
    fun lease batches found hact => absurd hact (hp.ne_inheriting lease batches found)⟩
  · rw [hp.named, Option.none_or] at hl
    cases hl
    exact hname
  · exact hname.ne_zero (Option.some.inj hzero)
  · refine h.orderly.cons fun new hnew => ?_
    cases hnew
    exact hover.imp_left h.adopted.trans

/-! ## Creating a lease -/

structure Creates (wrap : GrantStage → Activity) (leased : Bool) : Prop where
  creation : ∀ stage, (wrap stage).creation? = some stage
  named : ∀ stage, (wrap stage).named? = stage.named?
  isLeased : ∀ stage, (wrap stage).isLeased = (leased || stage.isAdopted)
  step : ∀ (stage : GrantStage) (me now maxTxnOps : Nat) (n : Node), ∃ rest,
    (wrap stage).step me now maxTxnOps n = (grantStep n stage).within wrap rest ∧
      ∀ n result, ∃ activity, rest n result = .move n activity ∧ activity.IsPlain ∧
        activity.isLeased = (leased || (GrantStage.finishing result).isAdopted)

theorem Creates.isPlain {wrap : GrantStage → Activity} {leased : Bool} (hw : Creates wrap leased)
    (result : Except Error Int) : (wrap (.finishing result)).IsPlain where
  task := isLeaseTask_of_creation? (hw.creation _)
  named := hw.named _
  granted id := by rw [hw.creation]; exact nofun

theorem Creates.ne_inheriting {wrap : GrantStage → Activity} {leased : Bool}
    (hw : Creates wrap leased) (stage : GrantStage) (lease : Int) (batches : List (List TxnOp))
    (found : Inherited) : wrap stage ≠ .acquiring (.inheriting lease batches found) := by
  intro heq
  have hc := hw.creation stage
  rw [heq] at hc
  cases hc

theorem creates_acquiring : Creates (fun stage => acquiring (.creating stage)) false where
  creation _ := rfl
  named _ := rfl
  isLeased _ := rfl
  step stage me now maxTxnOps n := by
    refine ⟨_, Progress.within_within .., fun n result => ?_⟩
    cases result with
    | ok id => exact ⟨_, rfl, ⟨rfl, rfl, fun _ => nofun⟩, rfl⟩
    | error e =>
      refine ⟨_, rfl, ?_⟩
      dsimp only
      unfold AcquireStage.failed
      split <;> exact ⟨⟨rfl, rfl, fun _ => nofun⟩, rfl⟩

theorem creates_replacing (tick : Nat) (attempt : UInt32) :
    Creates (fun stage => leaseLoop (.replacing tick attempt stage)) true where
  creation _ := rfl
  named _ := rfl
  isLeased _ := rfl
  step stage me now maxTxnOps n := by
    refine ⟨_, Progress.within_within .., fun n result => ?_⟩
    cases result with
    | ok id => exact ⟨_, rfl, ⟨rfl, rfl, fun _ => nofun⟩, rfl⟩
    | error e =>
      refine ⟨_, rfl, ?_⟩
      dsimp only
      split <;> exact ⟨⟨rfl, rfl, fun _ => nofun⟩, rfl⟩

theorem Invariant.answered_grant (h : w.Invariant) {ttl : Int} {a : (Request.grant ttl).Answer}
    (ha : w.Answered (.grant ttl) a store) :
    (∃ e, a = .error e) ∨ ∃ id, a = .ok id ∧ IsLeaseNumber id := by
  cases ha with
  | served hs _ hmax =>
    obtain ⟨rfl, hpos⟩ := h.used.of_serve_grant hs
    exact .inr ⟨_, rfl, hpos, hmax⟩
  | refused he => cases he; exact .inl ⟨_, rfl⟩
  | streamed a hq => exact absurd rfl hq

theorem Invariant.answered_put (h : w.Invariant) {a : (Request.put w.pointer value none).Answer}
    (ha : w.Answered (.put w.pointer value none) a store) :
    (∃ e, a = .error e ∧ store = w.store) ∨
      a = .ok () ∧ store.IsUsed w.now ∧
        ∃ revision, store.entries.find? w.pointer = some ⟨w.pointer, value, revision, 0⟩ := by
  cases ha with
  | served hs _ _ =>
    obtain ⟨rfl, hf⟩ := Store.find?_of_serve_put hs
    exact .inr ⟨rfl, h.used.serve hs, hf⟩
  | refused he => cases he; exact .inl ⟨_, rfl, rfl⟩
  | streamed a hq => exact absurd rfl hq

theorem Invariant.grant (h : w.Invariant) (hk : w.Keeps store) (hid : IsLeaseNumber id)
    {wrap : GrantStage → Activity} {leased : Bool} (hw : Creates wrap leased)
    (hleased : w.activity.isLeased = leased) (hnamed : w.activity.named? = none) :
    Invariant (w.goOn w.node (wrap (.granted id)) store [.granted id]) := by
  rw [goOn_self]
  refine h.next hk (by simp [LeaseEvent.adopted?]) (by simp)
    (isLeaseTask_of_creation? (hw.creation _)) (by rw [hw.isLeased, hleased]; exact Bool.or_false _)
    (fun lease hl => hk.names (h.names lease ?_)) (fun id' hc => ?_) (fun id' hc => ?_) ?_
  · rw [hw.named] at hl
    rwa [hnamed]
  · rw [hw.creation] at hc
    cases hc
    exact ⟨hid, .head _⟩
  · rw [hw.creation] at hc
    cases hc
  · exact fun lease batches found heq => absurd heq (hw.ne_inheriting _ lease batches found)

theorem Invariant.write (h : w.Invariant) (hid : IsLeaseNumber id)
    (hgranted : .granted id ∈ sinceAdoption w.log)
    {wrap : GrantStage → Activity} {leased : Bool} (hw : Creates wrap leased)
    (hleased : w.activity.isLeased = leased) (hused : store.IsUsed w.now)
    {revision : Int} (hf : store.entries.find? w.pointer =
      some ⟨w.pointer, utf8 (Text.intText id), revision, 0⟩) :
    Invariant (w.goOn w.node (wrap (.pointed id)) store
      [.written w.pointer (utf8 (Text.intText id)) none]) := by
  have hvalue := leaseOfPointer?_intText hid
  have hname : store.Names w.pointer id := by
    rw [Store.Names, Store.value?, hf]
    exact hvalue
  rw [goOn_self]
  refine ⟨isLeaseTask_of_creation? (hw.creation _), hused, fun kv hkv => ?_, ?_,
    fun lease hl => ?_, h.nonzero, h.published, h.adopted, fun id' hc => ?_, fun id' hc => ?_, ?_,
    fun hm => h.started (by simpa using hm), ?_⟩
  · cases hf.symm.trans hkv
    rfl
  · rw [h.leased, hleased, hw.isLeased]
    exact (Bool.or_false leased).symm
  · rw [hw.named] at hl
    cases hl
    exact hname
  · rw [hw.creation] at hc
    cases hc
  · rw [hw.creation] at hc
    cases hc
    obtain ⟨middle, earlier, heq⟩ := List.append_of_mem hgranted
    exact ⟨_, [], middle, earlier, congrArg (_ :: ·) heq, hvalue⟩
  · exact h.orderly.append (by simp [LeaseEvent.adopted?])
  · exact fun lease batches found heq => absurd heq (hw.ne_inheriting _ lease batches found)

theorem Invariant.turn_creation (h : w.Invariant) {wrap : GrantStage → Activity} {leased : Bool}
    (hw : Creates wrap leased) {stage : GrantStage} (hact : w.activity = wrap stage)
    (ht : w.Turn w') : w'.Invariant := by
  obtain ⟨rest, hstep, hrest⟩ := hw.step stage w.task w.now w.store.maxTxnOps w.node
  have hp : w.progress = (grantStep w.node stage).within wrap rest := by rw [progress, hact, hstep]
  have hleased : w.activity.isLeased = (leased || stage.isAdopted) := by rw [hact, hw.isLeased]
  have hnamed : w.activity.named? = stage.named? := by rw [hact, hw.named]
  have hcreation : w.activity.creation? = some stage := by rw [hact, hw.creation]
  have hfailed : ∀ (e : Error) {store : Store}, w.Keeps store → stage.isAdopted = false →
      stage.named? = none → Invariant (w.goOn w.node (wrap (.finishing (.error e))) store []) :=
    fun e _ hk ha hn => h.plain hk (hw.isPlain _)
      (by rw [hw.isLeased, hleased, ha]; rfl) (.inr (hnamed.trans hn))
  cases stage with
  | start =>
    obtain ⟨a, store, ha, rfl⟩ := ht.of_query hp
    have hk := h.answered ha nofun
    rcases h.answered_grant ha with ⟨e, rfl⟩ | ⟨id, rfl, hid⟩
    · exact hfailed e hk rfl rfl
    · exact h.grant hk hid hw (hleased.trans (Bool.or_false _)) hnamed
  | granted id =>
    obtain ⟨a, store, ha, rfl⟩ := ht.of_query hp
    obtain ⟨hnumber, hgranted⟩ := h.granted id hcreation
    rcases h.answered_put ha with ⟨e, rfl, rfl⟩ | ⟨rfl, hused, revision, hf⟩
    · exact hfailed e h.keeps rfl rfl
    · exact h.write hnumber hgranted hw (hleased.trans (Bool.or_false _)) hused hf
  | pointed id =>
    obtain rfl := ht.of_move hp
    exact h.adopt hnamed (.inr (h.pointed id hcreation)) (hw.isPlain _)
      (by rw [hw.isLeased]; exact Bool.or_true leased)
  | finishing result =>
    obtain ⟨activity, hmove, hplain, hl⟩ := hrest w.node result
    obtain rfl := ht.of_move (hp.trans hmove)
    exact h.plain h.keeps hplain (hl.trans hleased.symm) (.inr hnamed)

/-! ## Acquiring -/

theorem isPlain_failed (e : Error) : (acquiring (.failed e)).IsPlain ∧
    (acquiring (.failed e)).isLeased = false := by
  unfold AcquireStage.failed
  split <;> exact ⟨⟨rfl, rfl, fun _ => nofun⟩, rfl⟩

theorem answered_get {a : (Request.get w.pointer).Answer}
    (ha : w.Answered (.get w.pointer) a store) :
    (∃ e, a = .error e) ∨ a = .ok (store.value? w.pointer) := by
  cases ha with
  | served hs _ _ =>
    unfold Store.serve at hs
    split at hs
    · cases hs
    · cases hs
      exact .inr rfl
  | refused he => cases he; exact .inl ⟨_, rfl⟩
  | streamed a hq => exact absurd rfl hq

theorem not_writes_of_mem_batched {keys : List Bytes} {max : Nat} {ops : List TxnOp}
    (hops : ops ∈ batched (getOps keys) max) {op : TxnOp} (hop : op ∈ ops) (key : Bytes) :
    ¬ op.Writes key := by
  obtain ⟨_, -, rfl⟩ := List.mem_map.1 (mem_of_mem_batchesOf hops hop)
  exact id

theorem Invariant.turn_acquiring (h : w.Invariant) {stage : AcquireStage}
    (hact : w.activity = .acquiring stage) (ht : w.Turn w') : w'.Invariant := by
  have hp : w.progress = (acquireStep w.store.maxTxnOps w.node stage).within acquiring
      fun n r => .done n (.acquired r) := by
    rw [progress, hact]
    rfl
  have hfailed : ∀ (e : Error) {store : Store}, w.Keeps store → w.activity.isLeased = false →
      Invariant (w.goOn w.node (acquiring (.failed e)) store []) := fun e _ hk hl =>
    h.plain hk (isPlain_failed e).1 ((isPlain_failed e).2.trans hl.symm) (.inl hl)
  cases stage with
  | start =>
    have hl : w.activity.isLeased = false := by rw [hact]; rfl
    obtain ⟨a, store, ha, rfl⟩ := ht.of_query hp
    have hk := h.answered ha nofun
    rcases answered_get ha with ⟨e, rfl⟩ | rfl
    · exact hfailed e hk hl
    · dsimp only
      split
      · next lease hname => exact h.holding hk rfl rfl hname hl.symm rfl fun _ _ _ => nofun
      · exact h.plain hk ⟨rfl, rfl, fun _ => nofun⟩ hl.symm (.inl hl)
  | pointed lease =>
    have hl : w.activity.isLeased = false := by rw [hact]; rfl
    have hname := h.names lease (by rw [hact]; rfl)
    obtain ⟨a, store, ha, rfl⟩ := ht.of_query hp
    have hk := h.answered ha nofun
    cases a with
    | error e => exact hfailed e hk hl
    | ok status =>
      dsimp only
      split
      · exact h.holding hk rfl rfl (hk.names hname) hl.symm rfl fun _ _ _ => nofun
      · exact h.plain hk ⟨rfl, rfl, fun _ => nofun⟩ hl.symm (.inl hl)
  | alive lease keys =>
    have hl : w.activity.isLeased = false := by rw [hact]; rfl
    have hname := h.names lease (by rw [hact]; rfl)
    by_cases hroom : hasRoom w.store.maxTxnOps = true
    · rw [acquireStep, if_pos hroom] at hp
      obtain rfl := ht.of_move hp
      refine h.holding h.keeps rfl rfl hname hl.symm rfl fun _ _ _ heq ops hops op hop => ?_
      cases heq
      exact not_writes_of_mem_batched hops hop w.pointer
    · rw [acquireStep, if_neg hroom] at hp
      exact absurd hp ht.progress_ne.2.1
  | inheriting lease batches found =>
    have hl : w.activity.isLeased = false := by rw [hact]; rfl
    have hreads := h.reads lease batches found hact
    cases batches with
    | nil =>
      obtain rfl := ht.of_move hp
      -- nothing was adopted before, so no lease of the node is left behind
      have hnone : w.node.lease = none := by simpa [hl] using h.leased
      exact h.adopt (by rw [hact]; rfl) (.inl hnone) ⟨rfl, rfl, fun _ => nofun⟩ rfl
    | cons ops batches =>
      obtain ⟨a, store, ha, rfl⟩ := ht.of_query hp
      have hk := h.answered ha (hreads ops (.head _))
      cases a with
      | error e => exact hfailed e hk hl
      | ok replies =>
        have hname := h.names lease (by rw [hact]; rfl)
        refine h.holding hk rfl rfl (hk.names hname) hl.symm rfl fun _ _ _ heq ops hops => ?_
        cases heq
        exact hreads ops (.tail _ hops)
  | creating stage => exact h.turn_creation creates_acquiring hact ht
  | waiting =>
    obtain ⟨a, store, ha, rfl⟩ := ht.of_query hp
    exact h.plain (h.answered ha nofun) ⟨rfl, rfl, fun _ => nofun⟩ (by rw [hact]; rfl)
      (.inr (by rw [hact]; rfl))
  | finishing result =>
    rcases ht.of_acquired hp with ⟨found, rfl, rfl⟩ | ⟨e, rfl, rfl⟩
    · exact h.keep (by rw [hact]; rfl) (by rw [hact]; rfl)
    · exact h.plain h.keeps ⟨rfl, rfl, fun _ => nofun⟩ (by rw [hact]; rfl)
        (.inr (by rw [hact]; rfl))

/-! ## Keeping -/

def isIdle : LeaseLoopStage → Bool
  | .replacing _ _ (.granted _) | .replacing _ _ (.pointed _) => false
  | _ => true

theorem isPlain_of_isIdle {stage : LeaseLoopStage} (h : isIdle stage = true) :
    (leaseLoop stage).IsPlain := by
  cases stage with
  | replacing tick attempt stage =>
    cases stage with
    | granted id => cases h
    | pointed id => cases h
    | _ => exact ⟨rfl, rfl, fun _ => nofun⟩
  | _ => exact ⟨rfl, rfl, fun _ => nofun⟩

inductive Tends (n : Node) : Progress Node LeaseLoopStage Unit → Prop
  | wait : Tends n .wait
  | crash : Tends n .crash
  | done : Tends n (.done n ())
  | move {stage : LeaseLoopStage} : isIdle stage = true → Tends n (.move n stage)
  | ask {q : Request} {next : q.Answer → LeaseLoopStage} : q.operations = [] →
      (∀ a, answered q a = []) → (∀ a, isIdle (next a) = true) → Tends n (.query q next)
  | await {stream : Nat} {next : Except Error Renewal → LeaseLoopStage}
      {otherwise : Option (Node × LeaseLoopStage)} : (∀ a, isIdle (next a) = true) →
      (∀ x ∈ otherwise, x.1 = n ∧ isIdle x.2 = true) →
      Tends n (.ask (.nextRenewal stream) (fun a n => (n, next a)) otherwise)

theorem isIdle_failed (tick : Nat) (e : Error) : isIdle (.failed tick e) = true := by
  unfold LeaseLoopStage.failed
  split <;> rfl

theorem isIdle_renewed (tick stream : Nat) (r : Renewal) :
    isIdle (.renewed tick stream r) = true := by
  unfold LeaseLoopStage.renewed
  split <;> rfl

theorem tends_of_not_creating (now : Nat) (n : Node) {stage : LeaseLoopStage}
    (h : (leaseLoop stage).creation? = none) : Tends n (leaseLoopStep now n stage) := by
  cases stage with
  | start =>
    rw [leaseLoopStep]
    split
    · exact .crash
    · exact .move rfl
  | idle tick stream =>
    rw [leaseLoopStep]
    split
    · exact .done
    · split
      · exact .move rfl
      · exact .wait
  | renewing tick stream =>
    refine .move ?_
    split <;> rfl
  | opening tick lease =>
    refine .ask rfl (fun _ => rfl) fun a => ?_
    cases a with
    | ok stream => rfl
    | error e => exact isIdle_failed tick e
  | sending tick stream lease =>
    refine .ask rfl (fun _ => rfl) fun a => ?_
    cases a with
    | ok _ => rfl
    | error e => exact isIdle_failed tick e
  | awaiting tick stream deadline =>
    refine .await (fun a => ?_) fun x hx => ?_
    · cases a with
      | ok r => exact isIdle_renewed tick stream r
      | error e => exact isIdle_failed tick e
    · split at hx
      · cases hx
        exact ⟨rfl, isIdle_failed tick timedOut⟩
      · cases hx
  | recovering tick =>
    rw [leaseLoopStep]
    split
    · exact .done
    · exact .ask rfl (fun _ => rfl) fun _ => rfl
  | replacing tick attempt stage => cases h
  | replaceWaiting tick attempt =>
    rw [leaseLoopStep]
    split
    · exact .move rfl
    · exact .ask rfl (fun _ => rfl) fun _ => rfl
  | replaceSleeping tick attempt wake =>
    rw [leaseLoopStep]
    split
    · exact .move rfl
    · split
      · exact .move rfl
      · exact .wait

theorem Invariant.turn_leaseLoop (h : w.Invariant) {stage : LeaseLoopStage}
    (hact : w.activity = .leaseLoop stage) (ht : w.Turn w') : w'.Invariant := by
  cases hc : (leaseLoop stage).creation? with
  | some creation =>
    cases stage with
    | replacing tick attempt stage => exact h.turn_creation (creates_replacing tick attempt) hact ht
    | _ => cases hc
  | none =>
    have hp : w.progress = (leaseLoopStep w.now w.node stage).within leaseLoop
        fun n _ => .done n .stopped := by
      rw [progress, hact]
      rfl
    -- while no lease is being created, the pointer names the lease of the node
    have hno : w.activity.named? = none := by
      rw [hact]
      exact named?_eq_none rfl fun id => by rw [hc]; exact nofun
    have hplain : ∀ {stage : LeaseLoopStage} {store : Store}, w.Keeps store →
        isIdle stage = true → Invariant (w.goOn w.node (leaseLoop stage) store []) :=
      fun hk hidle => h.plain hk (isPlain_of_isIdle hidle) (by rw [hact]; rfl) (.inr hno)
    have htends := tends_of_not_creating w.now w.node hc
    generalize leaseLoopStep w.now w.node stage = p at hp htends
    cases htends with
    | wait => exact absurd hp ht.progress_ne.1
    | crash => exact absurd hp ht.progress_ne.2.1
    | done => exact absurd hp (ht.progress_ne.2.2 w.node)
    | move hidle =>
      obtain rfl := ht.of_move hp
      exact hplain h.keeps hidle
    | ask hq hanswered hidle =>
      obtain ⟨a, store, ha, rfl⟩ := ht.of_query hp
      rw [hanswered]
      exact hplain (h.answered ha (by rw [hq]; exact nofun)) (hidle a)
    | await hidle hotherwise =>
      rcases ht.of_ask hp with ⟨a, store, ha, rfl⟩ | ⟨x, hx, rfl⟩
      · exact hplain (h.answered ha nofun) (hidle a)
      · obtain ⟨⟨node, stage'⟩, hx', rfl⟩ := Option.map_eq_some_iff.1 hx
        obtain ⟨hnode, hidle'⟩ := hotherwise _ hx'
        obtain rfl : node = w.node := hnode
        exact hplain h.keeps hidle'

/-! ## Runs -/

theorem Invariant.turn (h : w.Invariant) (ht : w.Turn w') : w'.Invariant := by
  have htask := h.task
  cases hact : w.activity with
  | acquiring stage => exact h.turn_acquiring hact ht
  | leaseLoop stage => exact h.turn_leaseLoop hact ht
  | _ => rw [hact] at htask; cases htask

theorem Invariant.step (h : w.Invariant) (hs : Step w w') : w'.Invariant := by
  cases hs with
  | turn ht => exact h.turn ht
  | elsewhere he =>
    have hk := h.elsewhere he
    exact { h with
      used := hk.used
      unbound := h.unbound.of_find? hk.pointer
      names := fun lease hl => hk.names (h.names lease hl) }
  | @node node hset hlease hpublished hadoptions =>
    have hpointer : pointer { w with node } = w.pointer := by
      rw [pointer, hset, pointer]
    exact {
      task := h.task
      used := h.used
      unbound := by rw [hpointer]; exact h.unbound
      leased := by rw [hlease]; exact h.leased
      names := by rw [hpointer, hlease]; exact h.names
      nonzero := by rw [hlease]; exact h.nonzero
      published := by rw [hlease, hpublished]; exact h.published
      adopted := by rw [hlease]; exact h.adopted
      granted := h.granted
      pointed := by rw [hpointer]; exact h.pointed
      orderly := by rw [hpointer]; exact h.orderly
      started := by rw [hlease]; exact h.started
      reads := by rw [hpointer]; exact h.reads }
  | elapse hle => exact { h with used := h.used.wait hle }

theorem IsStart.invariant (h : w.IsStart) : w.Invariant where
  task := by rw [h.activity]; rfl
  used := h.used
  unbound := h.unbound
  leased := by rw [h.lease, h.activity]; rfl
  names := by rw [h.lease, h.activity]; exact nofun
  nonzero := by rw [h.lease]; exact nofun
  published := by rw [h.lease]; exact h.published
  adopted := by rw [h.lease, h.log]; rfl
  granted := by rw [h.activity]; exact nofun
  pointed := by rw [h.activity]; exact nofun
  orderly := by rw [h.log]; exact isOrderly_nil _
  started := by rw [h.log]; exact nofun
  reads := by rw [h.activity]; exact nofun

theorem IsStart.invariant_of_run (h : w.IsStart) (hr : Relation.ReflTransGen Step w w') :
    w'.Invariant := by
  induction hr with
  | refl => exact h.invariant
  | tail _ hs ih => exact ih.step hs

/-- Once a lease was acquired the node always has one. But for the moment between the writing of the
pointer and the adoption of a lease, the pointer names the lease of the node, and it is the one that
was published. The lease is the one that was adopted last, and each that was adopted after another
was granted and then written under the pointer since. -/
theorem lease_agrees {origin : PointerRun} (hs : origin.IsStart)
    (hr : Relation.ReflTransGen Step origin w) :
    (.started ∈ w.log → ∃ lease, w.node.lease = some lease ∧ lease ≠ 0) ∧
      (∀ lease, w.node.lease = some lease → (∀ id, w.activity.creation? ≠ some (.pointed id)) →
        w.store.Names w.pointer lease ∧ w.node.published = lease) ∧
      w.node.lease = w.log.findSome? LeaseEvent.adopted? ∧ IsOrderly w.pointer w.log := by
  have h := hs.invariant_of_run hr
  refine ⟨fun hstarted => ?_, fun lease hl hc => ⟨h.names lease ?_, ?_⟩, h.adopted.symm, h.orderly⟩
  · obtain ⟨lease, hl⟩ := Option.ne_none_iff_exists'.1 (h.started hstarted)
    exact ⟨lease, hl, fun hzero => h.nonzero (hl.trans (congrArg some hzero))⟩
  · have hleased : w.activity.isLeased = true := by rw [← h.leased, hl]; rfl
    rw [named?_eq_none hleased hc, hl]
    rfl
  · rw [h.published, hl]
    rfl

/-! A node that is alone with its store is granted a lease; the lease is revoked before it is ever
renewed, and another is granted. -/

def next (w : PointerRun) : PointerRun :=
  match w.progress with
  | .move node activity => w.goOn node activity w.store []
  | .ask q go _ => match w.store.serve w.now q with
    | some (a, store) =>
      if store.broken = false ∧ store.lastLease ≤ Int64.maxValue.toInt then
        w.goOn (go a w.node).1 (go a w.node).2 store (answered q a)
      else w
    | none => w
  | .done node (.acquired (.ok _)) => w.goOn node keepLease w.store [.started]
  | _ => w

theorem run_next (w : PointerRun) (turns : Nat) :
    Relation.ReflTransGen Step w (next^[turns] w) := by
  have hone : ∀ w : PointerRun, Relation.ReflTransGen Step w w.next := by
    intro w
    unfold next
    split
    · next hp => exact .single (.turn (.move hp))
    · next hp =>
      split
      · next hs =>
        split
        · next hb => exact .single (.turn (.ask hp (.served hs hb.1 hb.2)))
        · exact .refl
      · exact .refl
    · next hp => exact .single (.turn (.acquired hp))
    · exact .refl
  induction turns generalizing w with
  | zero => exact .refl
  | succ turns ih => exact (hone w).trans (ih w.next)

def nodeRun : PointerRun :=
  ⟨0, acquire, Node.init (Config.standard "node-1").nodeSettings .empty .empty, .empty 128, 0, []⟩

def keptRun : PointerRun := next^[7] nodeRun

def replacedRun : PointerRun := next^[8] { keptRun with store := keptRun.store.revoke 0 7001 }

theorem lease_agrees_replaced : nodeRun.IsStart ∧ Relation.ReflTransGen Step nodeRun replacedRun ∧
    .started ∈ replacedRun.log ∧
    replacedRun.log.filterMap LeaseEvent.adopted? = [7002, 7001] ∧
    replacedRun.activity.creation? = none ∧
    replacedRun.store.Names replacedRun.pointer 7002 ∧ replacedRun.node.published = 7002 ∧
    IsOrderly replacedRun.pointer replacedRun.log := by
  have hs : nodeRun.IsStart := ⟨rfl, rfl, rfl, .empty 128 0, nofun, rfl⟩
  have hr : Relation.ReflTransGen Step nodeRun replacedRun :=
    (run_next nodeRun 7).trans
      (.head (.elsewhere (.revoke 7001)) (run_next { keptRun with store := _ } 8))
  have hl : replacedRun.node.lease = some 7002 := by decide +kernel
  have hidle : replacedRun.activity.creation?.isNone = true := by decide +kernel
  have hc : replacedRun.activity.creation? = none := Option.isNone_iff_eq_none.1 hidle
  obtain ⟨-, hagrees, -, horderly⟩ := lease_agrees hs hr
  obtain ⟨hnames, hpublished⟩ := hagrees 7002 hl fun id => by rw [hc]; exact nofun
  exact ⟨hs, hr, by decide +kernel, by decide +kernel, hc, hnames, hpublished, horderly⟩

end PointerRun

end ServiceDirectory
