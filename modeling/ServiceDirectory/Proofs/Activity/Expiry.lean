import Mathlib.Logic.Relation
import ServiceDirectory.Proofs.Activity.Scene
import ServiceDirectory.Proofs.Registry.Timers

/-! # Expiry of hosted rows

Any number of clients register, unregister and keep alive the rows of a node, and a timer that has
run out starts the removal of its row, which waits for locks like every other task. At any time
every row has one timer, which is newer than all that were armed before it
(`timersFor_of_reachable`). A removal by a timer comes only after the row has been left alone for
its time, and one whose timer was replaced before does nothing (`expires_in_time`).
-/

namespace ServiceDirectory

open Activity

inductive Activity.IsCall : Activity → Prop
  | register {id : ServiceId} {hostname : String} {port : UInt16} {ttl : UInt32}
      {metadata : Metadata} {s : Service} :
      Service.make id hostname port ttl metadata = .ok s → s.toRow.IsStorable → IsCall (.register s)
  | unregister {id : ServiceId} : id.IsStorable → IsCall (.unregister id)
  | touch {id : ServiceId} : id.IsStorable → IsCall (.touch id)

/-- A step of a task, whatever the answer to its request is. -/
inductive Activity.GoesOn (me now maxTxnOps : Nat) (n : Node) (a : Activity) :
    Node → Option Activity → Prop
  | move {n' : Node} {a' : Activity} : a.step me now maxTxnOps n = .move n' a' →
      GoesOn me now maxTxnOps n a n' (some a')
  | done {n' : Node} {outcome : Outcome} : a.step me now maxTxnOps n = .done n' outcome →
      GoesOn me now maxTxnOps n a n' none
  | answered {q : Request} {go : q.Answer → Node → Node × Activity}
      {otherwise : Option (Node × Activity)} (answer : q.Answer) :
      a.step me now maxTxnOps n = .ask q go otherwise →
      GoesOn me now maxTxnOps n a (go answer n).1 (some (go answer n).2)

/-- The id that the next step of the task touches: that of a registration or of a keep-alive. -/
def Activity.touched? : Activity → Option ServiceId
  | .row (.register r) .inside => some r.id
  | .keepAlive id .inside => some id
  | _ => none

def Activity.RowStage.isBefore : RowStage → Bool
  | .start | .queued | .locked | .inside => true
  | .forwarding _ _ | .finishing _ => false

/-- What a step of a change of a row does to the registry and to the stage. -/
inductive Activity.RowAction.Goes (a : RowAction) (now : Nat) (n : Node) :
    RowStage → Node → Option RowStage → Prop
  | waited {stage stage' : RowStage} {n' : Node} : stage.isBefore = true → stage ≠ .inside →
      stage'.isBefore = true → n'.registry = n.registry → Goes a now n stage n' (some stage')
  | changed : Goes a now n .inside (a.perform now { n with mutex := none }).1
      (some (a.perform now { n with mutex := none }).2)
  | forwarded {request : Option Request} (result : RowResult) :
      Goes a now n (.forwarding request result) n (some (.finishing result))
  | ended {n' : Node} (result : RowResult) : n'.registry = n.registry →
      Goes a now n (.finishing result) n' none

theorem Activity.goesOn_row {me now maxTxnOps : Nat} {n n' : Node} {a : RowAction}
    {stage : RowStage}
    {next : Option Activity} (h : (Activity.row a stage).GoesOn me now maxTxnOps n n' next) :
    ∃ stage', next = stage'.map (Activity.row a) ∧ a.Goes now n stage n' stage' := by
  cases h with
  | move hs =>
    cases moved_of_step rfl hs with
    | row hmoved =>
      refine ⟨some _, rfl, ?_⟩
      cases hmoved with
      | claimed => exact .waited rfl nofun rfl rfl
      | took _ => exact .waited rfl nofun rfl rfl
      | entered _ => exact .waited rfl nofun rfl rfl
      | performed => exact .changed
      | skipped result => exact .forwarded result
  | done hs =>
    cases finished_of_step rfl hs with
    | row a result => exact ⟨none, rfl, .ended result rfl⟩
  | answered answer hs =>
    obtain ⟨next, hasked, hgo⟩ := asked_of_step rfl hs
    rw [hgo]
    cases hasked with
    | row a q result => exact ⟨some _, rfl, .forwarded result⟩

theorem Activity.goesOn_keepAlive {me now maxTxnOps : Nat} {n n' : Node} {id : ServiceId}
    {stage : KeepAliveStage} {next : Option Activity}
    (h : (Activity.keepAlive id stage).GoesOn me now maxTxnOps n n' next)
    {found : Bool} {registry : Registry}
    (hr : n.registry.keepAlive now id = .ok (found, registry)) :
    (stage = .start ∧ n'.registry = n.registry ∧ next = some (.keepAlive id .inside)) ∨
      stage = .inside ∧ n'.registry = registry ∧ next = none := by
  cases h with
  | move hs =>
    cases moved_of_step rfl hs with
    | entered id _ => exact .inl ⟨rfl, rfl, rfl⟩
  | done hs =>
    obtain ⟨_, _, hstep, hrest⟩ := Progress.within_eq_done hs
    cases hrest
    obtain ⟨rfl, registry', rfl, ⟨-, e, he⟩ | ⟨found', hk⟩⟩ := keepAliveStep_done hstep
    · cases he.symm.trans hr
    · cases hk.symm.trans hr
      exact .inr ⟨rfl, rfl, rfl⟩
  | answered answer hs =>
    obtain ⟨_, hasked, _⟩ := asked_of_step rfl hs
    cases hasked

/-- The removal by a timer that was replaced or called off: it waits on, or it has ended without
anything to send. -/
inductive Activity.IsSpent (r : Registry) (id : ServiceId) (generation : Nat) : Activity → Prop
  | pending {stage : RowStage} : stage.isBefore = true → r.isCurrent id generation = false →
      IsSpent r id generation (.row (.expire id generation) stage)
  | ended (result : RowResult) :
      IsSpent r id generation (.row (.expire id generation) (.finishing result))

/-- A spent removal changes nothing but locks, and stays spent. -/
theorem Activity.IsSpent.goesOn {me now maxTxnOps generation : Nat} {n n' : Node} {id : ServiceId}
    {a : Activity} {next : Option Activity} (hs : a.IsSpent n.registry id generation)
    (h : a.GoesOn me now maxTxnOps n n' next) :
    n'.registry = n.registry ∧ ∀ a', next = some a' → a'.IsSpent n.registry id generation := by
  cases hs with
  | @pending stage hbefore hc =>
    obtain ⟨stage', rfl, hgoes⟩ := goesOn_row h
    cases hgoes with
    | waited _ _ hbefore' hr =>
      exact ⟨hr, fun a' hnext => Option.some.inj hnext ▸ .pending hbefore' hc⟩
    | changed =>
      have he : n.registry.expire id generation = (none, n.registry) :=
        Registry.expire_of_not_isCurrent hc
      rw [RowAction.perform, he]
      exact ⟨rfl, fun a' hnext => Option.some.inj hnext ▸ .ended _⟩
    | forwarded result => cases hbefore
    | ended result _ => cases hbefore
  | ended result =>
    obtain ⟨stage', hstage, hgoes⟩ := goesOn_row h
    cases hgoes with
    | waited hbefore _ _ _ => cases hbefore
    | ended _ hr => exact ⟨hr, fun a' hnext => by cases hstage.symm.trans hnext⟩

theorem Activity.IsSpent.not_ask {me now maxTxnOps generation : Nat} {n : Node} {id : ServiceId}
    {a : Activity} (hs : a.IsSpent n.registry id generation) (q : Request)
    (go : q.Answer → Node → Node × Activity) (otherwise : Option (Node × Activity)) :
    a.step me now maxTxnOps n ≠ .ask q go otherwise := by
  intro hstep
  cases hs with
  | pending hbefore _ =>
    obtain ⟨_, hasked, _⟩ := asked_of_step rfl hstep
    cases hasked
    cases hbefore
  | ended result =>
    obtain ⟨_, hasked, _⟩ := asked_of_step rfl hstep
    cases hasked

structure TimerRun where
  node : Node
  tasks : Nat → Option Activity
  next : Nat
  maxTxnOps : Nat
  now : Nat
  log : List Touch

namespace TimerRun

variable {w w' : TimerRun} {i generation : Nat} {id : ServiceId} {a : Activity} {n : Node}

def set (w : TimerRun) (i : Nat) (n : Node) (a : Option Activity) : TimerRun :=
  { w with node := n, tasks := Function.update w.tasks i a }

def spawn (w : TimerRun) (n : Node) (a : Activity) : TimerRun :=
  { w.set w.next n (some a) with next := w.next + 1 }

def logAfter (w : TimerRun) (a : Activity) (n : Node) : List Touch :=
  match a.touched? with
  | some id => n.registry.touch w.now id :: w.log
  | none => w.log

inductive Step : TimerRun → TimerRun → Prop
  | call {w : TimerRun} {a : Activity} : a.IsCall → Step w (w.spawn w.node a)
  | goOn {w : TimerRun} {i : Nat} {a : Activity} {n : Node} {a' : Option Activity} :
      w.tasks i = some a → a.GoesOn i w.now w.maxTxnOps w.node n a' →
      Step w { w.set i n a' with log := w.logAfter a n }
  | calledOff {w : TimerRun} {i : Nat} {a : Activity} : w.tasks i = some a →
      Step w (w.set i (Activity.drop i w.node) none)
  | fire {w : TimerRun} {id : ServiceId} {t : Timer} :
      w.node.registry.timers.find? id = some t → t.fired = false →
      t.armedAt + t.ttl.toNat * 1000 ≤ w.now →
      Step w (w.spawn { w.node with registry := w.node.registry.markFired id }
        (.expire id t.generation))
  /-- A timer runs out while it is replaced, and its removal starts nevertheless. -/
  | fireReplaced {w : TimerRun} {touch : Touch} {t : Timer} : touch ∈ w.log → t ∈ touch.timer →
      touch.time + t.ttl.toNat * 1000 ≤ w.now →
      w.node.registry.isCurrent touch.id t.generation = false →
      Step w (w.spawn w.node (.expire touch.id t.generation))
  | wait {w : TimerRun} {now : Nat} : w.now ≤ now → Step w { w with now }
  | elsewhere {w : TimerRun} {n : Node} : n.registry.rows = w.node.registry.rows →
      n.registry.timers = w.node.registry.timers →
      n.registry.generation = w.node.registry.generation → Step w { w with node := n }

/-- Nothing is hosted yet, or the rows that an earlier run left behind were restored in
some order. -/
inductive IsStart : TimerRun → Prop
  | fresh {n : Node} (maxTxnOps now : Nat) : n.registry.rows = Table.empty →
      n.registry.timers = Dictionary.empty →
      IsStart ⟨n, fun _ => none, 0, maxTxnOps, now, []⟩
  | restored {n : Node} {found : Inherited} {rows : List Row} {count : Nat} {registry : Registry}
      (maxTxnOps now : Nat) : n.registry.rows = Table.empty →
      n.registry.timers = Dictionary.empty → rows.Perm (decodeInherited n.keyspace found) →
      (∀ row ∈ rows, row.IsStorable) → n.registry.restore now rows = .ok (count, registry) →
      IsStart ⟨{ n with registry }, fun _ => none, 0, maxTxnOps, now,
        Registry.restored now rows { n.registry with rows := Table.empty } []⟩

def Reachable (w : TimerRun) : Prop := ∃ start, IsStart start ∧ Relation.ReflTransGen Step start w

/-- A timer of the id, with this generation, was armed as long ago as it takes it to run out. -/
def HasRunOut (w : TimerRun) (id : ServiceId) (generation : Nat) : Prop :=
  ∃ touch ∈ w.log, touch.id = id ∧ ∃ t ∈ touch.timer,
    t.generation = generation ∧ touch.time + t.ttl.toNat * 1000 ≤ w.now

inductive Admits (w : TimerRun) : Activity → Prop
  | row {a : RowAction} {stage : RowStage} : a.IsProper →
      (∀ id generation, a = .expire id generation → w.HasRunOut id generation) →
      Admits w (.row a stage)
  | keepAlive {id : ServiceId} {stage : KeepAliveStage} : id.IsStorable →
      Admits w (.keepAlive id stage)

structure Invariant (w : TimerRun) : Prop where
  registry : w.node.registry.KeepsTime w.log
  tasks : ∀ i a, w.tasks i = some a → i < w.next ∧ w.Admits a

/-! ## Single steps -/

theorem tasks_set_self (w : TimerRun) (i : Nat) (n : Node) (a : Option Activity) :
    (w.set i n a).tasks i = a := Function.update_self ..

theorem tasks_set_of_ne (w : TimerRun) {i j : Nat} (h : j ≠ i) (n : Node) (a : Option Activity) :
    (w.set i n a).tasks j = w.tasks j := Function.update_of_ne h ..

theorem HasRunOut.mono (h : w.HasRunOut id generation) (hlog : w.log <:+ w'.log)
    (hnow : w.now ≤ w'.now) : w'.HasRunOut id generation := by
  obtain ⟨touch, hmem, hid, t, ht, hg, hle⟩ := h
  exact ⟨touch, hlog.subset hmem, hid, t, ht, hg, hle.trans hnow⟩

theorem Admits.mono (h : w.Admits a) (hlog : w.log <:+ w'.log) (hnow : w.now ≤ w'.now) :
    w'.Admits a := by
  cases h with
  | row ha hout => exact .row ha fun id generation he => (hout id generation he).mono hlog hnow
  | keepAlive hid => exact .keepAlive hid

theorem admits_call (h : a.IsCall) : w.Admits a := by
  cases h with
  | @register _ _ _ _ _ s hmake hstorable =>
    have hp : RowAction.IsProper (.register s.toRow) :=
      ⟨⟨hstorable, Row.isCanonical_toRow s⟩, Service.isValid_of_make hmake⟩
    exact .row hp nofun
  | unregister hid => exact .row (a := .unregister _) hid nofun
  | touch hid => exact .keepAlive hid

/-! ## The invariant -/

theorem perform_turn {a : RowAction} (ha : a.IsProper) (hp : n.registry.IsProper) :
    Registry.Turn w.now n.registry w.log (a.perform w.now n).1.registry
      (w.logAfter (.row a .inside) (a.perform w.now n).1) := by
  cases a with
  | register row =>
    obtain ⟨outcome, r', hr, ht⟩ := Registry.register_turn hp w.now ha.1 ha.2 w.log
    simp only [RowAction.perform, hr]
    exact ht
  | unregister id =>
    obtain ⟨removed, r', hr, ht⟩ := Registry.unregister_turn hp w.now ha w.log
    simp only [RowAction.perform, hr]
    exact ht
  | expire id generation => exact Registry.expire_turn hp w.now ha generation w.log

theorem goesOn_turn (hp : w.node.registry.IsProper) (ha : w.Admits a) {next : Option Activity}
    (h : a.GoesOn i w.now w.maxTxnOps w.node n next) :
    Registry.Turn w.now w.node.registry w.log n.registry (w.logAfter a n) ∧
      ∀ a', next = some a' → w.Admits a' := by
  cases ha with
  | @row a stage ha hout =>
    obtain ⟨stage', rfl, hgoes⟩ := goesOn_row h
    refine ⟨?_, fun a' hnext => ?_⟩
    · cases hgoes with
      | waited _ hne _ hr =>
        have hlog : w.logAfter (.row a stage) n = w.log := by
          cases a <;> cases stage <;> first | rfl | exact absurd rfl hne
        rw [hlog, hr]
        exact .kept rfl rfl rfl
      | changed => exact perform_turn (n := { w.node with mutex := none }) ha hp
      | forwarded result => cases a <;> exact .kept rfl rfl rfl
      | ended result hr => rw [hr]; cases a <;> exact .kept rfl rfl rfl
    · obtain ⟨stage', -, rfl⟩ := Option.map_eq_some_iff.1 hnext
      exact .row ha hout
  | @keepAlive id stage hid =>
    obtain ⟨found, r', hr, ht⟩ := Registry.keepAlive_turn hp w.now hid w.log
    rcases goesOn_keepAlive h hr with ⟨rfl, hn, rfl⟩ | ⟨rfl, hn, rfl⟩
    · rw [hn]
      exact ⟨.kept rfl rfl rfl, fun a' ha' => Option.some.inj ha' ▸ .keepAlive hid⟩
    · subst hn
      exact ⟨ht, fun a' ha' => by cases ha'⟩

theorem IsStart.invariant (h : w.IsStart) : w.Invariant := by
  refine ⟨?_, fun i a ha => ?_⟩
  · cases h with
    | fresh maxTxnOps now hr ht =>
      refine Registry.keepsTime_empty ⟨hr ▸ Table.isProper_empty, fun id row hid => ?_⟩
        (fun id => by rw [hr, Table.row?_empty]) ht
      rw [hr, Table.row?_empty] at hid
      cases hid
    | @restored n found rows count registry maxTxnOps now hr ht hperm hst hrestore =>
      have hrows : ∀ row ∈ rows, row.IsProper ∧ row.id.isValid = true := fun row hrow =>
        isProper_of_mem_decodeInherited (hperm.mem_iff.1 hrow) (hst row hrow)
      obtain ⟨r', hr', h'⟩ := Registry.restore_keepsTime ht now hrows
      cases hrestore.symm.trans hr'
      exact h'
  · cases h <;> cases ha

theorem Invariant.update (hi : w.Invariant) (hr : w'.node.registry.KeepsTime w'.log)
    (hlog : w.log <:+ w'.log) (hnow : w.now ≤ w'.now) (hnext : w.next ≤ w'.next)
    (htasks : ∀ j a, w'.tasks j = some a → w.tasks j = some a ∨ j < w'.next ∧ w'.Admits a) :
    w'.Invariant := by
  refine ⟨hr, fun j a hj => ?_⟩
  rcases htasks j a hj with hj | h
  · obtain ⟨hlt, ha⟩ := hi.tasks j a hj
    exact ⟨hlt.trans_le hnext, ha.mono hlog hnow⟩
  · exact h

theorem tasks_spawn {a' : Activity} (h : (w.spawn n a).tasks i = some a') :
    w.tasks i = some a' ∨ i = w.next ∧ a' = a := by
  by_cases hi : i = w.next
  · subst hi
    rw [spawn, tasks_set_self] at h
    exact .inr ⟨rfl, (Option.some.inj h).symm⟩
  · rw [spawn, tasks_set_of_ne w hi] at h
    exact .inl h

theorem Invariant.spawn (hi : w.Invariant) (hr : n.registry.KeepsTime w.log) (ha : w.Admits a) :
    (w.spawn n a).Invariant := by
  refine hi.update hr (List.suffix_refl _) (Nat.le_refl _) (Nat.le_succ _) fun j a' hj => ?_
  rcases tasks_spawn hj with hj | ⟨rfl, rfl⟩
  · exact .inl hj
  · exact .inr ⟨Nat.lt_succ_self _, ha.mono (List.suffix_refl _) (Nat.le_refl _)⟩

theorem Invariant.set (hi : w.Invariant) {log : List Touch} {next : Option Activity}
    (hr : n.registry.KeepsTime log) (hlog : w.log <:+ log) (hlt : i < w.next)
    (ha : ∀ a, next = some a → w.Admits a) : Invariant { w.set i n next with log } := by
  refine hi.update hr hlog (Nat.le_refl _) (Nat.le_refl _) fun j a' hj => ?_
  by_cases hji : j = i
  · subst hji
    exact .inr ⟨hlt, (ha a' ((tasks_set_self w j n next).symm.trans hj)).mono hlog (Nat.le_refl _)⟩
  · exact .inl ((tasks_set_of_ne w hji n next).symm.trans hj)

/-- A removal that is started by a timer that has run out. -/
theorem Invariant.admits_expire (hi : w.Invariant) {touch : Touch} {t : Timer}
    (htouch : touch ∈ w.log) (ht : t ∈ touch.timer)
    (hle : touch.time + t.ttl.toNat * 1000 ≤ w.now) :
    w.Admits (.expire touch.id t.generation) := by
  refine .row (a := .expire _ _) (hi.registry.touches touch htouch t ht).1.id
    fun id generation he => ?_
  cases he
  exact ⟨touch, htouch, rfl, t, ht, rfl, hle⟩

theorem Invariant.exists_touch (hi : w.Invariant) {t : Timer}
    (ht : w.node.registry.timers.find? id = some t) :
    ∃ touch ∈ w.log, touch.id = id ∧ touch.timer = some t.unfired ∧ touch.time = t.armedAt := by
  cases hr : w.node.registry.rows.row? id with
  | none => cases (hi.registry.untimed id hr).symm.trans ht
  | some row =>
    obtain ⟨touch, t', hlast, -, ht', htimer⟩ := hi.registry.timed id row hr
    cases ht.symm.trans ht'
    have hmem := mem_of_lastTouch? hlast
    have hid : touch.id = id := by simpa using List.find?_some hlast
    exact ⟨touch, hmem, hid, htimer, (hi.registry.touches touch hmem _ htimer).1.armedAt.symm⟩

theorem Step.invariant (h : Step w w') (hi : w.Invariant) : w'.Invariant := by
  cases h with
  | call ha => exact hi.spawn hi.registry (admits_call ha)
  | goOn ha hgoes =>
    obtain ⟨hlt, hadmits⟩ := hi.tasks _ _ ha
    obtain ⟨hturn, hnext⟩ := goesOn_turn hi.registry.proper hadmits hgoes
    exact hi.set (hturn.keepsTime hi.registry) hturn.suffix hlt hnext
  | calledOff ha =>
    exact hi.set hi.registry (List.suffix_refl _) (hi.tasks _ _ ha).1 fun a' ha' => by cases ha'
  | @fire id t ht _ hle =>
    obtain ⟨touch, hmem, rfl, htimer, htime⟩ := hi.exists_touch ht
    have hle : touch.time + t.unfired.ttl.toNat * 1000 ≤ w.now := by rw [htime]; exact hle
    exact hi.spawn (hi.registry.markFired _) (hi.admits_expire (t := t.unfired) hmem htimer hle)
  | fireReplaced htouch ht hle _ => exact hi.spawn hi.registry (hi.admits_expire htouch ht hle)
  | wait hle => exact hi.update hi.registry (List.suffix_refl _) hle (Nat.le_refl _) fun _ _ => .inl
  | elsewhere hr ht hg =>
    have hturn : Registry.Turn w.now w.node.registry w.log _ w.log := .kept hr ht hg
    exact hi.update (hturn.keepsTime hi.registry) (List.suffix_refl _) (Nat.le_refl _)
      (Nat.le_refl _) fun _ _ => .inl

theorem Reachable.invariant (h : w.Reachable) : w.Invariant := by
  obtain ⟨start, hs, hr⟩ := h
  induction hr with
  | refl => exact hs.invariant
  | tail _ h ih => exact h.invariant ih

/-- Every row has exactly one timer, and nothing else has one: the timer is armed with the time of
the row that is stored, and it is newer than all timers that were armed before it. -/
theorem timersFor_of_reachable (h : w.Reachable) (id : ServiceId) :
    match w.node.row? id with
    | none => w.node.registry.timersFor id = []
    | some r => ∃ t newer touch earlier, w.node.registry.timersFor id = [t] ∧ t.ttl = r.ttl ∧
      w.log = newer ++ touch :: earlier ∧ touch.id = id ∧ (∀ e ∈ newer, e.id ≠ id) ∧
        touch.timer = some t.unfired ∧
          ∀ e ∈ earlier, ∀ u ∈ e.timer, u.generation < t.generation :=
  h.invariant.registry.timersFor_spec id

/-! ## Removals -/

/-- A removal by a timer that takes a row away takes its own, once the last touch of the row is as
long ago as the row says. -/
theorem Invariant.expired (hi : w.Invariant) {stage : RowStage} {next : Option Activity}
    (ha : w.tasks i = some (.row (.expire id generation) stage))
    (h : (Activity.row (.expire id generation) stage).GoesOn i w.now w.maxTxnOps w.node n next)
    {id' : ServiceId} (hbefore : w.node.row? id' ≠ none) (hafter : n.row? id' = none) :
    ∃ touch row, lastTouch? w.log id' = some touch ∧ touch.row = some row ∧
      touch.time + row.ttl.toNat * 1000 ≤ w.now := by
  have hp := hi.registry.proper
  obtain ⟨-, hadmits⟩ := hi.tasks i _ ha
  cases hadmits with
  | row hid hout =>
    obtain ⟨stage', -, hgoes⟩ := goesOn_row h
    cases hgoes with
    | waited _ _ _ hr => exact absurd (by rwa [Node.row?, hr] at hafter) hbefore
    | changed =>
      rcases Registry.expire_cases hp hid generation with ⟨-, he⟩ | ⟨hc, he⟩
      · have hafter : (w.node.registry.expire id generation).2.rows.row? id' = none := hafter
        rw [he] at hafter
        exact absurd hafter hbefore
      · have hafter : (w.node.registry.expire id generation).2.rows.row? id' = none := hafter
        rw [he] at hafter
        have hafter : (w.node.registry.rows.erase id).row? id' = none := hafter
        rw [hp.rows.wellFormed.row?_erase hid] at hafter
        split at hafter
        · next heq =>
          -- the removal takes its own row only, whose last touch has armed the timer
          subst heq
          obtain ⟨touch, hmem, -, t, ht, hg, hle⟩ := hout _ _ rfl
          obtain ⟨row, hrow, httl⟩ := (hi.registry.touches touch hmem t ht).1.row
          exact ⟨touch, row, hi.registry.lastTouch?_of_isCurrent hc hmem ht hg, hrow, httl ▸ hle⟩
        · exact absurd hafter hbefore
    | forwarded result => exact absurd hafter hbefore
    | ended result hr => exact absurd (by rwa [Node.row?, hr] at hafter) hbefore

/-- Whatever else takes place, a spent removal stays spent. -/
theorem Invariant.isSpent_of_turn (hi : w.Invariant) {log : List Touch}
    (ht : Registry.Turn w.now w.node.registry w.log w'.node.registry log)
    (htasks : ∀ a, w'.tasks i = some a → w.tasks i = some a)
    (hs : ∀ a, w.tasks i = some a → a.IsSpent w.node.registry id generation) (a : Activity)
    (ha : w'.tasks i = some a) : a.IsSpent w'.node.registry id generation := by
  have ha := htasks a ha
  cases hs a ha with
  | pending hbefore hc =>
    obtain ⟨-, hadmits⟩ := hi.tasks i _ ha
    cases hadmits with
    | row hid hout =>
      obtain ⟨touch, hmem, -, t, ht', rfl, -⟩ := hout _ _ rfl
      exact .pending hbefore (ht.not_isCurrent (hi.registry.touches touch hmem t ht').2 hc)
  | ended result => exact .ended result

theorem Invariant.isSpent_step (hi : w.Invariant) (h : Step w w') (hlt : i < w.next)
    (hs : ∀ a, w.tasks i = some a → a.IsSpent w.node.registry id generation) :
    i < w'.next ∧ ∀ a, w'.tasks i = some a → a.IsSpent w'.node.registry id generation := by
  have spawned : ∀ {n : Node} {b : Activity} (a : Activity), (w.spawn n b).tasks i = some a →
      w.tasks i = some a := by
    intro n b a ha
    rcases tasks_spawn ha with ha | ⟨rfl, -⟩
    · exact ha
    · exact absurd hlt (Nat.lt_irrefl _)
  cases h with
  | call hcall => exact ⟨Nat.lt_succ_of_lt hlt, hi.isSpent_of_turn (.kept rfl rfl rfl) spawned hs⟩
  | @goOn j b n next hb hgoes =>
    refine ⟨hlt, ?_⟩
    by_cases hij : i = j
    · subst hij
      obtain ⟨hn, hnext⟩ := (hs b hb).goesOn hgoes
      intro a ha
      have ha : next = some a := (tasks_set_self w i n next).symm.trans ha
      exact (congrArg (a.IsSpent · id generation) hn).mpr (hnext a ha)
    · obtain ⟨hturn, -⟩ := goesOn_turn hi.registry.proper (hi.tasks j b hb).2 hgoes
      exact hi.isSpent_of_turn hturn
        (fun a ha => (tasks_set_of_ne w hij n next).symm.trans ha) hs
  | @calledOff j b hb =>
    refine ⟨hlt, hi.isSpent_of_turn (.kept rfl rfl rfl) (fun a ha => ?_) hs⟩
    by_cases hij : i = j
    · subst hij
      rw [tasks_set_self] at ha
      cases ha
    · rwa [tasks_set_of_ne w hij] at ha
  | fire ht hfired hle =>
    exact ⟨Nat.lt_succ_of_lt hlt, hi.isSpent_of_turn (.fired _) spawned hs⟩
  | fireReplaced htouch ht hle hc =>
    exact ⟨Nat.lt_succ_of_lt hlt, hi.isSpent_of_turn (.kept rfl rfl rfl) spawned hs⟩
  | wait hle => exact ⟨hlt, hi.isSpent_of_turn (.kept rfl rfl rfl) (fun _ ha => ha) hs⟩
  | elsewhere hr ht hg => exact ⟨hlt, hi.isSpent_of_turn (.kept hr ht hg) (fun _ ha => ha) hs⟩

theorem Invariant.isSpent_of_run (hi : w.Invariant) (hlt : i < w.next)
    (hs : ∀ a, w.tasks i = some a → a.IsSpent w.node.registry id generation)
    (hr : Relation.ReflTransGen Step w w') (a : Activity) (ha : w'.tasks i = some a) :
    a.IsSpent w'.node.registry id generation := by
  have hall : w'.Invariant ∧ i < w'.next ∧
      ∀ a, w'.tasks i = some a → a.IsSpent w'.node.registry id generation := by
    clear ha
    induction hr with
    | refl => exact ⟨hi, hlt, hs⟩
    | tail _ h ih => exact ⟨h.invariant ih.1, ih.1.isSpent_step h ih.2.1 ih.2.2⟩
  exact hall.2.2 a ha

/-- A timer takes a row away no earlier than the row has been left alone for its time. A removal by
a timer that was replaced or called off before the row is looked at changes no rows and no timers,
and asks for nothing, whatever else takes place before it ends. -/
theorem expires_in_time (h : w.Reachable) {stage : RowStage}
    (ha : w.tasks i = some (.row (.expire id generation) stage)) :
    (∀ n next id', (Activity.row (.expire id generation) stage).GoesOn i w.now w.maxTxnOps w.node n
        next → w.node.row? id' ≠ none → n.row? id' = none →
      ∃ touch row, lastTouch? w.log id' = some touch ∧ touch.row = some row ∧
        touch.time + row.ttl.toNat * 1000 ≤ w.now) ∧
    (stage.isBefore = true → w.node.registry.isCurrent id generation = false →
      ∀ w' a, Relation.ReflTransGen Step w w' → w'.tasks i = some a →
        (∀ q go otherwise, a.step i w'.now w'.maxTxnOps w'.node ≠ .ask q go otherwise) ∧
        ∀ n next, a.GoesOn i w'.now w'.maxTxnOps w'.node n next →
          n.registry.rows = w'.node.registry.rows ∧
            n.registry.timers = w'.node.registry.timers) := by
  have hi := h.invariant
  refine ⟨fun n next id' hgoes hbefore hafter => hi.expired ha hgoes hbefore hafter,
    fun hbefore hc w' a hr ha' => ?_⟩
  -- a removal whose timer was replaced is spent, and stays so along the run
  have hs : ∀ b, w.tasks i = some b → b.IsSpent w.node.registry id generation := by
    intro b hb
    cases ha.symm.trans hb
    exact .pending hbefore hc
  have hs' := hi.isSpent_of_run (hi.tasks i _ ha).1 hs hr a ha'
  refine ⟨hs'.not_ask, fun n next hgoes => ?_⟩
  obtain ⟨hn, -⟩ := hs'.goesOn hgoes
  exact ⟨by rw [hn], by rw [hn]⟩

/-! A service is registered, and its timer runs out; meanwhile it may be kept alive. -/

section

def goOn (w : TimerRun) (i : Nat) : TimerRun :=
  match w.tasks i with
  | none => w
  | some a => match a.step i w.now w.maxTxnOps w.node with
    | .move n a' => { w.set i n (some a') with log := w.logAfter a n }
    | .done n _ => { w.set i n none with log := w.logAfter a n }
    | _ => w

def elapse (w : TimerRun) (ms : Nat) : TimerRun := { w with now := w.now + ms }

def ringing (w : TimerRun) (id : ServiceId) : TimerRun :=
  match w.node.registry.timers.find? id with
  | none => w
  | some t =>
    if t.fired = false ∧ t.armedAt + t.ttl.toNat * 1000 ≤ w.now then
      w.spawn { w.node with registry := w.node.registry.markFired id } (.expire id t.generation)
    else w

def webStart : TimerRun := ⟨Node.init default .empty .empty, fun _ => none, 0, 1, 0, []⟩

/-- The service is hosted, and its timer has run out just now. -/
def webRinging : TimerRun :=
  ((goOn · 0)^[6] (webStart.spawn webStart.node (.register Scene.webService)) |>.elapse
    30000).ringing Scene.webService.id

def webDue : TimerRun := (goOn · 1)^[3] webRinging

def webKept : TimerRun :=
  (goOn · 2)^[2] ((goOn · 1)^[2] webRinging |>.spawn ((goOn · 1)^[2] webRinging).node
    (.touch Scene.webService.id))

theorem Reachable.tail (h : w.Reachable) (hs : Step w w') : w'.Reachable := by
  obtain ⟨start, hstart, hr⟩ := h
  exact ⟨start, hstart, hr.tail hs⟩

theorem Reachable.goOn (h : w.Reachable) (i : Nat) : (w.goOn i).Reachable := by
  unfold TimerRun.goOn
  split
  · exact h
  · next a ha =>
    split
    · next hs => exact h.tail (.goOn ha (.move hs))
    · next hs => exact h.tail (.goOn ha (.done hs))
    · exact h

theorem Reachable.iterate_goOn (h : w.Reachable) (i steps : Nat) :
    ((TimerRun.goOn · i)^[steps] w).Reachable := by
  induction steps generalizing w with
  | zero => exact h
  | succ steps ih => exact ih (h.goOn i)

theorem Reachable.ringing (h : w.Reachable) (id : ServiceId) : (w.ringing id).Reachable := by
  unfold TimerRun.ringing
  split
  · exact h
  · next t ht =>
    split
    · next hdue => exact h.tail (.fire ht hdue.1 hdue.2)
    · exact h

theorem webStart_isStart : webStart.IsStart := .fresh 1 0 rfl rfl

theorem webRinging_reachable : webRinging.Reachable := by
  have hmake : Service.make Scene.webService.id Scene.webService.hostname Scene.webService.port
      Scene.webService.ttl Scene.webService.metadata = .ok Scene.webService := rfl
  have hstart : webStart.Reachable := ⟨webStart, webStart_isStart, .refl⟩
  have hcalled := hstart.tail (.call (.register hmake (by decide +kernel)))
  exact ((hcalled.iterate_goOn 0 6).tail (.wait (Nat.le_add_right _ 30000))).ringing _

theorem webDue_reachable : webDue.Reachable := webRinging_reachable.iterate_goOn 1 3

theorem webKept_reachable : webKept.Reachable := by
  have hid : Scene.webService.id.IsStorable := by decide +kernel
  exact ((webRinging_reachable.iterate_goOn 1 2).tail (.call (.touch hid))).iterate_goOn 2 2

theorem timersFor_of_reachable_webRinging : webRinging.Reachable ∧
    ∃ t newer touch earlier, webRinging.node.registry.timersFor Scene.webService.id = [t] ∧
      t.ttl = 30 ∧ webRinging.log = newer ++ touch :: earlier ∧ touch.id = Scene.webService.id ∧
        (∀ e ∈ newer, e.id ≠ Scene.webService.id) ∧ touch.timer = some t.unfired ∧
          ∀ e ∈ earlier, ∀ u ∈ e.timer, u.generation < t.generation := by
  have hrow : webRinging.node.row? Scene.webService.id = some Scene.webService.toRow := by
    decide +kernel
  have h := timersFor_of_reachable webRinging_reachable Scene.webService.id
  rw [hrow] at h
  exact ⟨webRinging_reachable, h⟩

/-- The removal takes the row away after thirty seconds, or is spent if the row was kept alive. -/
theorem expires_in_time_web :
    (∃ touch row, lastTouch? webDue.log Scene.webService.id = some touch ∧ touch.row = some row ∧
      touch.time + row.ttl.toNat * 1000 ≤ webDue.now) ∧
    ∀ w' a, Relation.ReflTransGen Step webKept w' → w'.tasks 1 = some a →
      (∀ q go otherwise, a.step 1 w'.now w'.maxTxnOps w'.node ≠ .ask q go otherwise) ∧
      ∀ n next, a.GoesOn 1 w'.now w'.maxTxnOps w'.node n next →
        n.registry.rows = w'.node.registry.rows ∧
          n.registry.timers = w'.node.registry.timers := by
  have hdue : webDue.tasks 1 = some (.row (.expire Scene.webService.id 1) .inside) := rfl
  have hkept : webKept.tasks 1 = some (.row (.expire Scene.webService.id 1) .locked) := rfl
  have hbefore : webDue.node.row? Scene.webService.id = some Scene.webService.toRow := by
    decide +kernel
  have hafter : ((RowAction.expire Scene.webService.id 1).perform webDue.now
      { webDue.node with mutex := none }).1.row? Scene.webService.id = none := by decide +kernel
  have hspent : webKept.node.registry.isCurrent Scene.webService.id 1 = false := by decide +kernel
  exact ⟨(expires_in_time webDue_reachable hdue).1 _ _ _ (.move rfl) (by simp [hbefore]) hafter,
    (expires_in_time webKept_reachable hkept).2 rfl hspent⟩

end

end TimerRun

end ServiceDirectory
