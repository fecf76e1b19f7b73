import ServiceDirectory.Proofs.Activity.Steps
import ServiceDirectory.Proofs.Keyspace.RoundTrip

/-! # Scenes

A scene is a node with any number of operations under way, each between two of its steps. Any of
them may go on at any time, and the rest of the node may do what it likes, except for rows and
locks. In every scene all tasks stand by their stakes (`Scene.Invariant`), and a row that has
changed is about to be written by the task that changed it (`Step.owes_of_row_ne`).
-/

namespace ServiceDirectory

open Activity

inductive Activity.IsFresh : Activity → Prop
  | register {id : ServiceId} {hostname : String} {port : UInt16} {ttl : UInt32}
      {metadata : Metadata} {s : Service} :
      Service.make id hostname port ttl metadata = .ok s → s.toRow.IsStorable →
      IsFresh (.register s)
  | unregister {id : ServiceId} : id.IsStorable → IsFresh (.unregister id)
  | expire {id : ServiceId} (generation : Nat) : id.IsStorable → IsFresh (.expire id generation)
  | touch (id : ServiceId) : IsFresh (.touch id)
  | republish : IsFresh .republish
  | importOnce : IsFresh .importOnce
  | synchronize : IsFresh .synchronize

structure Scene where
  node : Node
  tasks : Nat → Option Task
  maxTxnOps : Nat
  outcome : Option Outcome

namespace Scene

variable {s s' : Scene} {t : Nat} {T : Task} {id : ServiceId}

def set (s : Scene) (t : Nat) (n : Node) (task : Option Task) : Scene :=
  { s with node := n, tasks := Function.update s.tasks t task }

/-- What takes place on the node itself. -/
inductive Step : Scene → Scene → Prop
  | spawn {s : Scene} {t : Nat} {activity : Activity} : s.tasks t = none → activity.IsFresh →
      Step s (s.set t s.node (some ⟨activity, fun _ => False⟩))
  | move {s : Scene} {t : Nat} {T : Task} {n : Node} {activity : Activity} (now : Nat) :
      s.tasks t = some T → T.activity.step t now s.maxTxnOps s.node = .move n activity →
      Step s (s.set t n (some (.after s.node n activity)))
  | done {s : Scene} {t : Nat} {T : Task} {n : Node} {outcome : Outcome} (now : Nat) :
      s.tasks t = some T → T.activity.step t now s.maxTxnOps s.node = .done n outcome →
      Step s { s.set t n none with outcome := some outcome }
  | crash {s : Scene} {t : Nat} {T : Task} (now : Nat) :
      s.tasks t = some T → T.activity.step t now s.maxTxnOps s.node = .crash →
      Step s { s.set t (Activity.drop t s.node) none with outcome := some .crashed }
  | calledOff {s : Scene} {t : Nat} {T : Task} :
      s.tasks t = some T → T.activity.isStale s.node = true →
      Step s (s.set t (Activity.drop t s.node) none)
  | elsewhere {s : Scene} {n : Node} : n.registry.rows = s.node.registry.rows →
      n.locks = s.node.locks → n.mutex = s.node.mutex → n.settings = s.node.settings →
      n.lease.isSome → Step s { s with node := n }

def synced? (s : Scene) : Option SyncReport :=
  match s.outcome with
  | some (.synced report) => some report
  | _ => none

/-- The task has this request to make, or has made it and waits for the answer. -/
def Asks (s : Scene) (t : Nat) (q : Request) : Prop :=
  ∃ T now go otherwise, s.tasks t = some T ∧
    T.activity.step t now s.maxTxnOps s.node = .ask q go otherwise

inductive Answered (t : Nat) (q : Request) (a : q.Answer) : Scene → Scene → Prop
  | intro {s : Scene} {T : Task} {go : q.Answer → Node → Node × Activity}
      {otherwise : Option (Node × Activity)} (now : Nat) : s.tasks t = some T →
      T.activity.step t now s.maxTxnOps s.node = .ask q go otherwise →
      Answered t q a s (s.set t (go a s.node).1 (some ⟨(go a s.node).2, T.removed⟩))

/-- The node has started, and nothing is under way. -/
structure IsStart (s : Scene) : Prop where
  tasks : ∀ t, s.tasks t = none
  locks : s.node.locks = .empty
  registry : s.node.registry.IsProper
  lease : s.node.lease.isSome

/-- The task is about to write the change that it made to the row of the id. -/
def Owes (s : Scene) (t : Nat) (id : ServiceId) : Prop :=
  ∃ T a q result, s.tasks t = some T ∧ T.activity = .row a (.forwarding (some q) result) ∧ a.id = id

structure Invariant (s : Scene) : Prop where
  node : s.node.IsSound
  tasks : ∀ t T, s.tasks t = some T → T.StandsBy s.node t
  absent : ∀ t, s.tasks t = none → ∀ id, t ∉ s.node.locks.order id

/-! ## The invariant -/

theorem IsStart.invariant (h : s.IsStart) : s.Invariant where
  node := ⟨h.locks ▸ RowLocks.sound_empty, h.registry, h.lease⟩
  tasks t T hT := by rw [h.tasks] at hT; cases hT
  absent t _ id := by rw [h.locks]; exact List.not_mem_nil

/-- A node that has a lease and has restored its rows is at a start. -/
theorem isStart_restored {n : Node} (hlocks : n.locks = .empty) (hlease : n.lease.isSome)
    {found : Inherited} (h : ∀ row ∈ decodeInherited n.keyspace found, row.IsStorable)
    (now maxTxnOps : Nat) : IsStart ⟨(restore now n found).2, fun _ => none, maxTxnOps, none⟩ := by
  obtain ⟨registry, hr, hp⟩ := restore_isProper now n h
  rw [hr]
  exact ⟨fun _ => rfl, hlocks, hp, hlease⟩

theorem tasks_set_self (s : Scene) (t : Nat) (n : Node) (task : Option Task) :
    (s.set t n task).tasks t = task := Function.update_self ..

theorem tasks_set_of_ne (s : Scene) {t t' : Nat} (h : t' ≠ t) (n : Node) (task : Option Task) :
    (s.set t n task).tasks t' = s.tasks t' := Function.update_of_ne h ..

theorem Invariant.set (h : s.Invariant) {n : Node} {task : Option Task} (hm : s.node.Moves t n)
    (hT : ∀ T, task = some T → T.StandsBy n t) (hno : task = none → ∀ id, t ∉ n.locks.order id) :
    (s.set t n task).Invariant where
  node := hm.sound
  tasks t' T hT' := by
    by_cases ht : t' = t
    · subst ht
      exact hT T (by rwa [tasks_set_self] at hT')
    · rw [tasks_set_of_ne s ht] at hT'
      exact (h.tasks t' T hT').of_moves hm ht
  absent t' hT' id := by
    by_cases ht : t' = t
    · subst ht
      exact hno (by rwa [tasks_set_self] at hT') id
    · rw [tasks_set_of_ne s ht] at hT'
      exact fun hmem => h.absent t' hT' id ((hm.mem_order_iff ht id).1 hmem)

theorem Invariant.remove (h : s.Invariant) {n : Node} (hm : s.node.Moves t n)
    (hno : ∀ id, t ∉ n.locks.order id) (outcome : Option Outcome) :
    Invariant { s.set t n none with outcome } := by
  have hs : (s.set t n none).Invariant := h.set hm (fun _ hT => by cases hT) fun _ => hno
  exact ⟨hs.node, hs.tasks, hs.absent⟩

theorem stands_todo {n : Node} {removed : ServiceId → Prop} (hno : ∀ id, t ∉ n.locks.order id)
    {todo : List ServiceId} (hn : todo.Nodup) (hs : ∀ id ∈ todo, id.IsStorable) :
    Stake.Stands ⟨[], [], todo, []⟩ n t removed where
  mem_order_iff id := by simp [hno]
  first id hid := by cases hid
  nodup := hn
  storable := hs
  told op hop := by cases hop

theorem standsBy_fresh {n : Node} {activity : Activity} (h : activity.IsFresh)
    (hno : ∀ id, t ∉ n.locks.order id) : Task.StandsBy ⟨activity, fun _ => False⟩ n t := by
  have hrow : ∀ a : RowAction, a.IsProper →
      Task.StandsBy ⟨.row a .start, fun _ => False⟩ n t := fun a ha =>
    ⟨rfl, ⟨ha, trivial⟩, stands_todo hno (List.nodup_singleton _) (by simp [ha.id_isStorable])⟩
  have hnothing : Stake.nothing.Stands n t fun _ => False :=
    stands_todo hno List.nodup_nil (by simp)
  cases h with
  | @register _ _ _ _ _ service hmake hstorable =>
    exact hrow (.register service.toRow)
      ⟨⟨hstorable, Row.isCanonical_toRow service⟩, Service.isValid_of_make hmake⟩
  | @unregister id hid => exact hrow (.unregister id) hid
  | @expire id generation hid => exact hrow (.expire id generation) hid
  | touch id => exact ⟨rfl, trivial, hnothing⟩
  | republish => exact ⟨rfl, trivial, hnothing⟩
  | importOnce => exact ⟨rfl, trivial, hnothing⟩
  | synchronize => exact ⟨rfl, trivial, hnothing⟩

theorem Step.invariant (h : Step s s') (hi : s.Invariant) : s'.Invariant := by
  cases h with
  | spawn ht hf =>
    have hno := hi.absent _ ht
    refine hi.set (.refl hi.node) (fun T hT => ?_) (fun hT => ?_)
    · cases hT
      exact standsBy_fresh hf hno
    · cases hT
  | move now hT hs =>
    obtain ⟨hm, hT', -⟩ := (hi.tasks _ _ hT).move hi.node hs
    refine hi.set hm (fun T h => ?_) (fun h => ?_)
    · cases h
      exact hT'
    · cases h
  | done now hT hs =>
    obtain ⟨hm, -, hno⟩ := (hi.tasks _ _ hT).done hi.node hs
    exact hi.remove hm hno _
  | crash now hT hs =>
    obtain ⟨hm, hno⟩ := Node.Moves.drop hi.node _
    exact hi.remove hm hno _
  | calledOff hT hs =>
    obtain ⟨hm, hno⟩ := Node.Moves.drop hi.node _
    exact hi.remove hm hno _
  | @elsewhere n hr hl hmu hs hlease =>
    have hm : ∀ me, s.node.Moves me n := fun me => .of_eq hi.node hr hl hs hlease
    exact ⟨(hm 0).sound, fun t T hT => (hi.tasks t T hT).of_moves (hm (t + 1)) (by omega),
      fun t hT id => by rw [hl]; exact hi.absent t hT id⟩

theorem Answered.invariant {q : Request} {a : q.Answer} (h : Answered t q a s s')
    (hi : s.Invariant) : s'.Invariant := by
  cases h with
  | intro now hT hs =>
    obtain ⟨hn, hT'⟩ := ((hi.tasks _ _ hT).ask hs).2 a
    rw [hn]
    refine hi.set (.refl hi.node) (fun T h => ?_) (fun h => ?_)
    · cases h
      exact hT'
    · cases h

/-! ## What a step leaves -/

theorem Step.tasks_of_isAsking (h : Step s s') (hT : s.tasks t = some T)
    (ha : T.activity.isAsking = true) : s'.tasks t = some T := by
  have hne : ∀ {u : Nat} {U : Task}, s.tasks u = some U → U.activity.isAsking ≠ true → t ≠ u := by
    rintro u U hU hn rfl
    rw [hT] at hU
    cases hU
    exact hn ha
  have hstep : ∀ {u : Nat} {U : Task} {now : Nat}, s.tasks u = some U →
      (∀ q go, U.activity.step u now s.maxTxnOps s.node ≠ .ask q go none) → t ≠ u := by
    intro u U now hU hn
    apply hne hU
    intro hask
    obtain ⟨q, go, hs⟩ := exists_ask hask u now s.maxTxnOps s.node
    exact hn q go hs
  cases h with
  | @spawn u _ hu hf =>
    have hne : t ≠ u := fun h => by rw [← h, hT] at hu; cases hu
    exact (tasks_set_of_ne s hne _ _).trans hT
  | move now hU hs =>
    exact (tasks_set_of_ne s (hstep hU fun q go => by rw [hs]; exact nofun) _ _).trans hT
  | @done u U n outcome now hU hs =>
    exact (tasks_set_of_ne s (hstep hU fun q go => by rw [hs]; exact nofun) n none).trans hT
  | @crash u U now hU hs =>
    exact (tasks_set_of_ne s (hstep hU fun q go => by rw [hs]; exact nofun)
      (Activity.drop u s.node) none).trans hT
  | calledOff hU hs =>
    refine (tasks_set_of_ne s (hne hU fun hask => ?_) _ _).trans hT
    rw [not_isStale hask] at hs
    cases hs
  | elsewhere hr hl hm hs hlease => exact hT

theorem Owes.of_tasks (h : s.Owes t id) (ht : s'.tasks t = s.tasks t) : s'.Owes t id := by
  obtain ⟨T, a, q, result, hT, ha, hid⟩ := h
  exact ⟨T, a, q, result, ht.trans hT, ha, hid⟩

theorem Owes.step (h : s.Owes t id) (hs : Step s s') : s'.Owes t id := by
  obtain ⟨T, a, q, result, hT, ha, hid⟩ := h
  exact ⟨T, a, q, result, hs.tasks_of_isAsking hT (by rw [ha]; rfl), ha, hid⟩

theorem Step.owes_of_row_ne (h : Step s s') (hi : s.Invariant)
    (hid : s'.node.row? id ≠ s.node.row? id) :
    ∃ t, s'.Owes t id ∧ ∀ T, s.tasks t = some T → T.activity.isAsking = false := by
  cases h with
  | spawn ht hf => exact absurd rfl hid
  | @move t T n activity now hT hs =>
    obtain ⟨-, -, hrow⟩ := (hi.tasks _ _ hT).move hi.node hs
    obtain ⟨a, q, result, rfl, ha⟩ := hrow id hid
    refine ⟨t, ⟨_, a, q, result, tasks_set_self .., rfl, ha⟩, fun T' hT' => ?_⟩
    rw [hT] at hT'
    cases hT'
    by_contra hask
    obtain ⟨q, go, hs'⟩ := exists_ask (by simpa using hask) t now s.maxTxnOps s.node
    rw [hs] at hs'
    cases hs'
  | done now hT hs =>
    obtain ⟨-, hr, -⟩ := (hi.tasks _ _ hT).done hi.node hs
    exact absurd (congrArg (Table.row? · id) hr) hid
  | crash now hT hs => exact absurd rfl hid
  | calledOff hT hs => exact absurd rfl hid
  | elsewhere hr hl hm hs hlease => exact absurd (congrArg (Table.row? · id) hr) hid

theorem Invariant.first_of_owes (hi : s.Invariant) (h : s.Owes t id) :
    (s.node.locks.order id).head? = some t := by
  obtain ⟨T, a, q, result, hT, ha, rfl⟩ := h
  refine (hi.tasks t T hT).stands.first a.id ?_
  rw [ha]
  exact List.mem_singleton_self _

/-- What a task asks to be written is told by the hosted rows, of ids whose locks it has. -/
theorem Invariant.told (hi : s.Invariant) {q : Request} (h : s.Asks t q) :
    ∃ T, s.tasks t = some T ∧ ∀ op ∈ q.operations, ∃ id,
      (s.node.locks.order id).head? = some t ∧ s.node.IsTold T.removed id op := by
  obtain ⟨T, now, go, otherwise, hT, hs⟩ := h
  have hst := hi.tasks t T hT
  refine ⟨T, hT, fun op hop => ?_⟩
  obtain ⟨id, hid, htold⟩ := hst.stands.told op ((hst.ask hs).1 hop)
  exact ⟨id, hst.stands.first id hid, htold⟩

/-- A request for the key of an id leaves there what the node hosts for the id. -/
theorem Invariant.find?_foldl_apply (hi : s.Invariant) {q : Request} (hq : s.Asks t q)
    (hid : id.isValid = true) (hop : ∃ op ∈ q.operations, op.key = s.node.keyspace.key id)
    (d : StoredValues) : (q.operations.foldl TxnOp.apply d).find? (s.node.keyspace.key id) =
      (s.node.row? id).map Keyspace.valueOf := by
  obtain ⟨T, hT, htold⟩ := hi.told hq
  refine TxnOp.find?_foldl_apply _ _ (fun op hop hk d => ?_) hop
  obtain ⟨id', -, ht⟩ := htold op hop
  obtain rfl := Keyspace.key_injective hid ht.isValid (hk.symm.trans ht.key_eq)
  exact ht.find?_apply hi.node.registry d

theorem Step.settings (h : Step s s') (hi : s.Invariant) : s'.node.settings = s.node.settings := by
  cases h with
  | spawn ht hf => rfl
  | move now hT hs => exact ((hi.tasks _ _ hT).move hi.node hs).1.settings
  | done now hT hs => exact ((hi.tasks _ _ hT).done hi.node hs).1.settings
  | crash now hT hs => rfl
  | calledOff hT hs => rfl
  | elsewhere hr hl hm hs hlease => exact hs

theorem Answered.spec {q : Request} {a : q.Answer} (h : Answered t q a s s') (hi : s.Invariant) :
    s'.node = s.node ∧ s.Asks t q ∧ ∀ t', t' ≠ t → s'.tasks t' = s.tasks t' := by
  cases h with
  | @intro T go otherwise now hT hs =>
    have hn := (((hi.tasks t T hT).ask hs).2 a).1
    exact ⟨hn, ⟨T, now, go, otherwise, hT, hs⟩, fun t' ht => tasks_set_of_ne s ht _ _⟩

theorem Invariant.isAsking (hi : s.Invariant) {q : Request} (h : s.Asks t q) :
    ∃ T, s.tasks t = some T ∧ T.activity.isAsking = true := by
  obtain ⟨T, now, go, otherwise, hT, hs⟩ := h
  exact ⟨T, hT, isAsking_of_ask (hi.tasks t T hT).isOperation hs⟩

theorem Invariant.exists_key_of_owes (hi : s.Invariant) (h : s.Owes t id) {q : Request}
    (hq : s.Asks t q) : ∃ op ∈ q.operations, op.key = s.node.keyspace.key id := by
  obtain ⟨T, a, q', result, hT, ha, rfl⟩ := h
  obtain ⟨T', now, go, otherwise, hT', hs⟩ := hq
  obtain rfl : T = T' := Option.some.inj (hT.symm.trans hT')
  have hst := hi.tasks t T hT
  obtain ⟨activity, removed⟩ := T
  obtain rfl : activity = _ := ha
  cases hs
  obtain ⟨op, hop⟩ := hst.isProper.2
  have hmem : op ∈ q.operations := hop ▸ List.mem_singleton_self op
  obtain ⟨id', hid, htold⟩ := hst.stands.told op hmem
  rw [List.mem_singleton.1 hid] at htold
  exact ⟨op, hmem, htold.key_eq⟩

/-! ## Single steps, computed -/

def goOn (s : Scene) (t now : Nat) : Scene :=
  match s.tasks t with
  | none => s
  | some T => match T.activity.step t now s.maxTxnOps s.node with
    | .move n activity => s.set t n (some (.after s.node n activity))
    | .done n outcome => { s.set t n none with outcome := some outcome }
    | _ => s

def asking? (s : Scene) (t now : Nat) : Option Request :=
  match s.tasks t with
  | none => none
  | some T => match T.activity.step t now s.maxTxnOps s.node with
    | .ask q _ _ => some q
    | _ => none

def reply (s : Scene) (t now : Nat) (q : Request) (a : q.Answer) : Scene :=
  match s.tasks t with
  | none => s
  | some T => match T.activity.step t now s.maxTxnOps s.node with
    | .ask q' go _ =>
      if h : q = q' then s.set t (go (h ▸ a) s.node).1 (some ⟨(go (h ▸ a) s.node).2, T.removed⟩)
      else s
    | _ => s

theorem goOn_eq_or_step (s : Scene) (t now : Nat) : s.goOn t now = s ∨ Step s (s.goOn t now) := by
  unfold goOn
  split
  · exact .inl rfl
  · next T hT =>
    split
    · next hs => exact .inr (.move now hT hs)
    · next hs => exact .inr (.done now hT hs)
    · exact .inl rfl

theorem tasks_goOn_of_ne {t' now : Nat} (h : t' ≠ t) : (s.goOn t now).tasks t' = s.tasks t' := by
  unfold goOn
  split
  · rfl
  · split
    · exact tasks_set_of_ne s h _ _
    · next n _ _ => exact tasks_set_of_ne s h n none
    · rfl

theorem tasks_reply_of_ne {t' now : Nat} (h : t' ≠ t) (q : Request) (a : q.Answer) :
    (s.reply t now q a).tasks t' = s.tasks t' := by
  unfold reply
  split
  · rfl
  · split
    · split
      · exact tasks_set_of_ne s h _ _
      · rfl
    · rfl

theorem asks_of_asking? {now : Nat} {q : Request} (h : s.asking? t now = some q) :
    s.Asks t q := by
  unfold asking? at h
  split at h
  · cases h
  · next T hT =>
    split at h
    · next hs => cases h; exact ⟨T, now, _, _, hT, hs⟩
    · cases h

theorem answered_reply {now : Nat} {q : Request} (h : s.asking? t now = some q) (a : q.Answer) :
    Answered t q a s (s.reply t now q a) := by
  unfold asking? at h
  split at h
  · cases h
  · next T hT =>
    split at h
    · next hs =>
      cases h
      simp only [reply, hT, hs, ↓reduceDIte]
      exact .intro now hT hs
    · cases h

/-! A node that has started registers a service. -/

def webService : Service := ⟨⟨"node", "http", "web"⟩, "localhost", 80, 30, Dictionary.empty⟩

def started : Scene :=
  ⟨{ Node.init default .empty .empty with lease := some 7001 }, fun _ => none, 1, none⟩

def registering : Scene :=
  started.set 0 started.node (some ⟨.register webService, fun _ => False⟩)

theorem started_isStart : started.IsStart :=
  ⟨fun _ => rfl, rfl, ⟨Table.isProper_empty, fun _ _ h => by cases h⟩, rfl⟩

theorem step_registering : Step started registering := by
  have hmake : Service.make webService.id webService.hostname webService.port webService.ttl
      webService.metadata = .ok webService := rfl
  exact .spawn rfl (.register hmake (by decide +kernel))

end Scene

end ServiceDirectory
