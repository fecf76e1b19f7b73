import ServiceDirectory.Activity
import ServiceDirectory.Proofs.Keyspace.RoundTrip
import ServiceDirectory.Proofs.Store.Unbound

/-! # Runs of the lease task

A node acquires a lease and keeps it, whatever becomes of the store and of its leases: every call
may fail with any error, and every keep-alive may be answered by anything. Nobody else writes the
key of the pointer. A run records what was granted, written and adopted, so that a lease that comes
after another can be told to have been handed over.
-/

namespace ServiceDirectory

open Activity

/-! ## Pointers -/

def IsLeaseNumber (id : Int) : Prop := 0 < id ∧ id ≤ Int64.maxValue.toInt

theorem leaseOfPointer?_intText {id : Int} (h : IsLeaseNumber id) :
    leaseOfPointer? (utf8 (Text.intText id)) = some id := by
  obtain ⟨hpos, hmax⟩ := h
  obtain ⟨n, rfl⟩ := Int.eq_ofNat_of_zero_le hpos.le
  have htrim : Text.trimChars (Text.natText n).toList = (Text.natText n).toList :=
    Text.trimChars_of_isDigit fun _ hc => Text.isDigit_of_mem_natText hc
  have htext : Text.intText (n : Int) = Text.natText n := rfl
  have hne : n ≠ 0 := by omega
  simp [leaseOfPointer?, htext, text?_utf8, htrim, Text.int64?_natText hmax, hne]

theorem ne_zero_of_leaseOfPointer? {value : Bytes} {id : Int}
    (h : leaseOfPointer? value = some id) : id ≠ 0 := by
  obtain ⟨text, -, h⟩ := Option.bind_eq_some_iff.1 h
  obtain ⟨n, -, h⟩ := Option.bind_eq_some_iff.1 h
  split at h
  · cases h
  · next hne => exact Option.some.inj h ▸ hne

def Store.Names (s : Store) (key : Bytes) (lease : Int) : Prop :=
  (s.value? key).bind leaseOfPointer? = some lease

theorem Store.Names.ne_zero {s : Store} {key : Bytes} {lease : Int} (h : s.Names key lease) :
    lease ≠ 0 := by
  obtain ⟨_, -, h⟩ := Option.bind_eq_some_iff.1 h
  exact ne_zero_of_leaseOfPointer? h

/-! ## Runs -/

inductive LeaseEvent
  | granted (lease : Int)
  | written (key value : Bytes) (bound : Option Int)
  | adopted (lease : Int)
  | started
  deriving DecidableEq

def LeaseEvent.adopted? : LeaseEvent → Option Int
  | adopted lease => some lease
  | _ => none

/-- A task that acquires or keeps the lease of its node. -/
structure PointerRun where
  task : Nat
  activity : Activity
  node : Node
  store : Store
  now : Nat
  log : List LeaseEvent

namespace PointerRun

variable {w w' : PointerRun} {store : Store} {activity : Activity} {node : Node}
  {key : Bytes} {events log : List LeaseEvent}

def pointer (w : PointerRun) : Bytes := utf8 w.node.settings.pointerKey

def progress (w : PointerRun) : Progress Node Activity Outcome :=
  w.activity.step w.task w.now w.store.maxTxnOps w.node

/-- What the answer to a request tells to have happened. -/
def answered : (q : Request) → q.Answer → List LeaseEvent
  | .grant _, a => match (a : Except Error Int) with
    | .ok id => [.granted id]
    | .error _ => []
  | .put key value bound, a => match (a : Except Error Unit) with
    | .ok _ => [.written key value bound]
    | .error _ => []
  | _, _ => []

def adoption (n n' : Node) : List LeaseEvent :=
  if n'.adoptions = n.adoptions then [] else n'.lease.toList.map .adopted

def goOn (w : PointerRun) (node : Node) (activity : Activity) (store : Store)
    (events : List LeaseEvent) : PointerRun :=
  { w with node, activity, store, log := adoption w.node node ++ events ++ w.log }

/-- The answer that a request gets. Neither the clock of the store nor its numbers for leases have
run out. -/
inductive Answered (w : PointerRun) : (q : Request) → q.Answer → Store → Prop
  | served {q : Request} {a : q.Answer} {store : Store} : w.store.serve w.now q = some (a, store) →
      store.broken = false → store.lastLease ≤ Int64.maxValue.toInt → Answered w q a store
  | refused {q : Request} {e : Error} {a : q.Answer} : q.refused? e = some a →
      Answered w q a w.store
  | streamed {q : Request} (a : q.Answer) : q.stream? ≠ none → Answered w q a w.store

inductive Turn (w : PointerRun) : PointerRun → Prop
  | move {node : Node} {activity : Activity} : w.progress = .move node activity →
      Turn w (w.goOn node activity w.store [])
  | ask {q : Request} {go : q.Answer → Node → Node × Activity}
      {otherwise : Option (Node × Activity)} {a : q.Answer} {store : Store} :
      w.progress = .ask q go otherwise → w.Answered q a store →
      Turn w (w.goOn (go a w.node).1 (go a w.node).2 store (answered q a))
  | otherwise {q : Request} {go : q.Answer → Node → Node × Activity} {node : Node}
      {activity : Activity} : w.progress = .ask q go (some (node, activity)) →
      Turn w (w.goOn node activity w.store [])
  | acquired {node : Node} {found : Inherited} : w.progress = .done node (.acquired (.ok found)) →
      Turn w (w.goOn node keepLease w.store [.started])
  | failed {node : Node} {e : Error} : w.progress = .done node (.acquired (.error e)) →
      Turn w (w.goOn node acquire w.store [])

/-- What others do to the store. They leave the pointer alone. -/
inductive Elsewhere (w : PointerRun) : Store → Prop
  | request {q : Request} {a : q.Answer} {store : Store} : w.store.serve w.now q = some (a, store) →
      (∀ op ∈ q.operations, ¬ op.Writes w.pointer) → Elsewhere w store
  | seed {key : Bytes} (value : Bytes) (bound : Option Int) : key ≠ w.pointer →
      Elsewhere w (w.store.seed w.now key value bound)
  | revoke (id : Int) : Elsewhere w (w.store.revoke w.now id)
  | setAvailable (up : Bool) : Elsewhere w (w.store.setAvailable w.now up)
  | pausePuts (paused : Bool) : Elsewhere w { w.store with putsPaused := paused }

inductive Step : PointerRun → PointerRun → Prop
  | turn {w w' : PointerRun} : w.Turn w' → Step w w'
  | elsewhere {w : PointerRun} {store : Store} : Elsewhere w store → Step w { w with store }
  | node {w : PointerRun} {node : Node} : node.settings = w.node.settings →
      node.lease = w.node.lease → node.published = w.node.published →
      node.adoptions = w.node.adoptions → Step w { w with node }
  | elapse {w : PointerRun} {later : Nat} : w.now ≤ later → Step w { w with now := later }

/-- A node is about to acquire its first lease. What the pointer holds, if anything, is bound to no
lease, as every node writes it. -/
structure IsStart (w : PointerRun) : Prop where
  activity : w.activity = acquire
  lease : w.node.lease = none
  published : w.node.published = 0
  used : w.store.IsUsed w.now
  unbound : w.store.IsUnbound w.pointer
  log : w.log = []

/-! ## Events -/

def sinceAdoption (log : List LeaseEvent) : List LeaseEvent := log.takeWhile (·.adopted?.isNone)

/-- A lease was granted, and then the key was made to name it, bound to no lease. -/
def HandsOver (key : Bytes) (lease : Int) (events : List LeaseEvent) : Prop :=
  ∃ value later middle earlier,
    events = later ++ .written key value none :: (middle ++ .granted lease :: earlier) ∧
      leaseOfPointer? value = some lease

/-- Between two adoptions that follow each other the later lease was granted and written. -/
def IsOrderly (key : Bytes) (log : List LeaseEvent) : Prop :=
  ∀ later between earlier old new,
    log = later ++ .adopted new :: (between ++ .adopted old :: earlier) →
    (∀ e ∈ between, e.adopted? = none) → HandsOver key new between

theorem sinceAdoption_append (he : ∀ e ∈ events, e.adopted? = none) (log : List LeaseEvent) :
    sinceAdoption (events ++ log) = events ++ sinceAdoption log := by
  induction events with
  | nil => rfl
  | cons e events ih =>
    have hhead : e.adopted?.isNone = true := by rw [he e (.head _)]; rfl
    rw [List.cons_append, sinceAdoption, List.takeWhile_cons, if_pos hhead]
    exact congrArg (e :: ·) (ih fun e h => he e (.tail _ h))

theorem findSome?_append_of_quiet (he : ∀ e ∈ events, e.adopted? = none) (log : List LeaseEvent) :
    (events ++ log).findSome? LeaseEvent.adopted? = log.findSome? LeaseEvent.adopted? := by
  rw [List.findSome?_append, List.findSome?_eq_none_iff.2 he, Option.none_or]

theorem isOrderly_nil (key : Bytes) : IsOrderly key [] := by
  intro later between earlier old new h
  simp at h

theorem IsOrderly.cons (h : IsOrderly key log) {e : LeaseEvent}
    (he : ∀ new, e = .adopted new → log.findSome? LeaseEvent.adopted? = none ∨
      HandsOver key new (sinceAdoption log)) : IsOrderly key (e :: log) := by
  intro later between earlier old new heq hbetween
  cases later with
  | nil =>
    obtain ⟨rfl, rfl⟩ := List.cons.inj heq
    rcases he new rfl with hnone | hover
    · rw [findSome?_append_of_quiet hbetween] at hnone
      cases hnone
    · rw [sinceAdoption_append hbetween] at hover
      have hlast : sinceAdoption (.adopted old :: earlier) = [] := rfl
      rwa [hlast, List.append_nil] at hover
  | cons x later =>
    obtain ⟨-, rfl⟩ := List.cons.inj heq
    exact h later between earlier old new rfl hbetween

theorem IsOrderly.append (h : IsOrderly key log) (he : ∀ e ∈ events, e.adopted? = none) :
    IsOrderly key (events ++ log) := by
  induction events with
  | nil => exact h
  | cons e events ih =>
    refine IsOrderly.cons (ih fun e hm => he e (.tail _ hm)) fun new hnew => ?_
    have hnone := he e (.head _)
    rw [hnew] at hnone
    cases hnone

/-! ## The next turn -/

theorem Turn.of_move (ht : w.Turn w') (hp : w.progress = .move node activity) :
    w' = w.goOn node activity w.store [] := by
  cases ht with
  | move h => cases hp.symm.trans h; rfl
  | ask h _ => cases hp.symm.trans h
  | otherwise h => cases hp.symm.trans h
  | acquired h => cases hp.symm.trans h
  | failed h => cases hp.symm.trans h

theorem Turn.of_ask {q : Request} {go : q.Answer → Node → Node × Activity}
    {otherwise : Option (Node × Activity)} (ht : w.Turn w')
    (hp : w.progress = .ask q go otherwise) :
    (∃ a store, w.Answered q a store ∧
      w' = w.goOn (go a w.node).1 (go a w.node).2 store (answered q a)) ∨
      ∃ x, otherwise = some x ∧ w' = w.goOn x.1 x.2 w.store [] := by
  cases ht with
  | move h => cases hp.symm.trans h
  | ask h ha => cases hp.symm.trans h; exact .inl ⟨_, _, ha, rfl⟩
  | otherwise h => cases hp.symm.trans h; exact .inr ⟨_, rfl, rfl⟩
  | acquired h => cases hp.symm.trans h
  | failed h => cases hp.symm.trans h

theorem Turn.of_query {q : Request} {go : q.Answer → Node → Node × Activity} (ht : w.Turn w')
    (hp : w.progress = .ask q go none) : ∃ a store, w.Answered q a store ∧
      w' = w.goOn (go a w.node).1 (go a w.node).2 store (answered q a) := by
  rcases ht.of_ask hp with h | ⟨_, h, _⟩
  · exact h
  · cases h

theorem Turn.of_acquired {result : Except Error Inherited} (ht : w.Turn w')
    (hp : w.progress = .done node (.acquired result)) :
    (∃ found, result = .ok found ∧ w' = w.goOn node keepLease w.store [.started]) ∨
      ∃ e, result = .error e ∧ w' = w.goOn node acquire w.store [] := by
  cases ht with
  | move h => cases hp.symm.trans h
  | ask h _ => cases hp.symm.trans h
  | otherwise h => cases hp.symm.trans h
  | acquired h => cases hp.symm.trans h; exact .inl ⟨_, rfl, rfl⟩
  | failed h => cases hp.symm.trans h; exact .inr ⟨_, rfl, rfl⟩

/-- A task that waits or has come to its end has no turn. -/
theorem Turn.progress_ne (ht : w.Turn w') :
    w.progress ≠ .wait ∧ w.progress ≠ .crash ∧ ∀ n, w.progress ≠ .done n .stopped := by
  cases ht with
  | move h => rw [h]; exact ⟨nofun, nofun, fun _ => nofun⟩
  | ask h _ => rw [h]; exact ⟨nofun, nofun, fun _ => nofun⟩
  | otherwise h => rw [h]; exact ⟨nofun, nofun, fun _ => nofun⟩
  | acquired h => rw [h]; exact ⟨nofun, nofun, fun _ => nofun⟩
  | failed h => rw [h]; exact ⟨nofun, nofun, fun _ => nofun⟩

theorem goOn_self (w : PointerRun) (activity : Activity) (store : Store)
    (events : List LeaseEvent) : w.goOn w.node activity store events =
      { w with activity, store, log := events ++ w.log } := by
  rw [goOn, adoption, if_pos rfl]
  rfl

theorem goOn_adopt (w : PointerRun) (activity : Activity) (id : Int) :
    w.goOn (w.node.adopt id) activity w.store [] =
      { w with node := w.node.adopt id, activity, log := .adopted id :: w.log } := by
  have hne : (w.node.adopt id).adoptions ≠ w.node.adoptions := Nat.succ_ne_self _
  rw [goOn, adoption, if_neg hne]
  rfl

end PointerRun

end ServiceDirectory
