import ServiceDirectory.Proofs.Activity.Deadlock
import ServiceDirectory.Proofs.Activity.Republishing
import ServiceDirectory.Proofs.Mirror.Fitting
import ServiceDirectory.Proofs.Table.Provenance

/-! # What gets into the tables

Whatever a task is busy with, a step of it changes the tables of its node in one of four ways only:
by a change of one hosted row, by a batch of events, by a scan that was read or by the keys that
were left under a lease (`Activity.tables_of_leads`). All that comes with events, scans and leases
was decoded, so whatever has run on a node before, its table of all services has only decoded rows,
and its own table only those and the rows of valid services (`Crew.IsRun.isFilled`).
-/

namespace ServiceDirectory

open Activity

/-! ## What a step can come to -/

namespace Progress

variable {σ τ ρ τ' ρ' : Type} {p : Progress σ τ ρ} {stage : τ → τ'}
  {rest : σ → ρ → Progress σ τ' ρ'} {s s' s₁ : σ} {next : Option τ} {next' : Option τ'}

/-- The state that a step leaves, whatever the answer to its request is, and the stage that comes
next if this is not the end. -/
inductive Leads (s : σ) : Progress σ τ ρ → σ → Option τ → Prop
  | move (s' : σ) (t : τ) : Leads s (.move s' t) s' (some t)
  | answered {q : Request} {go : q.Answer → σ → σ × τ} {otherwise : Option (σ × τ)}
      (answer : q.Answer) : Leads s (.ask q go otherwise) (go answer s).1 (some (go answer s).2)
  | unanswered {q : Request} {go : q.Answer → σ → σ × τ} (s' : σ) (t : τ) :
      Leads s (.ask q go (some (s', t))) s' (some t)
  | done (s' : σ) (r : ρ) : Leads s (.done s' r) s' none

theorem Leads.eq_of_move {t : τ} (h : (Progress.move s₁ t : Progress σ τ ρ).Leads s s' next) :
    s' = s₁ := by
  cases h
  rfl

theorem Leads.eq_of_done {r : ρ} (h : (Progress.done s₁ r : Progress σ τ ρ).Leads s s' next) :
    s' = s₁ := by
  cases h
  rfl

theorem Leads.of_within (h : (p.within stage rest).Leads s s' next')
    (hrest : ∀ s₁ r s₂ next, (rest s₁ r).Leads s s₂ next → s₂ = s₁) :
    ∃ next, p.Leads s s' next := by
  cases p with
  | wait => cases h
  | move s₁ t => cases h; exact ⟨_, .move _ _⟩
  | ask q go otherwise =>
    cases otherwise with
    | none => cases h with | answered answer => exact ⟨_, .answered answer⟩
    | some o =>
      cases h with
      | answered answer => exact ⟨_, .answered answer⟩
      | unanswered => exact ⟨_, .unanswered o.1 o.2⟩
  | done s₁ r =>
    obtain rfl := hrest s₁ r s' next' h
    exact ⟨_, .done _ r⟩
  | crash => cases h

theorem Leads.stage_of_within {f : ρ → ρ'} {t' : τ'}
    (h : (p.within stage fun s r => Progress.done s (f r)).Leads s s' (some t')) :
    ∃ t, t' = stage t := by
  cases p with
  | wait => cases h
  | move s₁ t => cases h; exact ⟨t, rfl⟩
  | ask q go otherwise =>
    cases otherwise with
    | none => cases h with | answered answer => exact ⟨_, rfl⟩
    | some o =>
      cases h with
      | answered answer => exact ⟨_, rfl⟩
      | unanswered => exact ⟨o.2, rfl⟩
  | done s₁ r => cases h
  | crash => cases h

end Progress

def Node.tables (n : Node) : Table × Table := (n.registry.rows, n.globalRows)

/-- What a step is about to take into the tables. -/
inductive Intake
  | change (action : RowAction)
  | events (events : List Event)
  | scan (kvs : List KeyValue)
  | inherited (found : Inherited)

namespace Activity

def RowAction.intake? (a : RowAction) : RowStage → Option Intake
  | .inside => some (.change a)
  | _ => none

def ImportStage.intake? : ImportStage → Option Intake
  | .read kvs => some (.scan kvs)
  | _ => none

def SyncStage.intake? : SyncStage → Option Intake
  | .importing stage => stage.intake?
  | .republishing _ _ => none

def StartStage.intake? : StartStage → Option Intake
  | .importing stage => stage.intake?
  | .acquiring _ => none
  | .restoring found => some (.inherited found)

def WatchStage.intake? : WatchStage → Option Intake
  | .handling _ _ events => some (.events events)
  | _ => none

def SyncLoopStage.intake? : SyncLoopStage → Option Intake
  | .running _ _ stage => stage.intake?
  | _ => none

end Activity

def Activity.intake? : Activity → Option Intake
  | .row action stage => action.intake? stage
  | .importing stage => stage.intake?
  | .syncing stage => stage.intake?
  | .starting stage => stage.intake?
  | .watchLoop stage => stage.intake?
  | .syncLoop stage => stage.intake?
  | .keepAlive _ _ | .republishing _ | .acquiring _ | .leaseLoop _ => none

def Node.takeIn (now : Nat) (n : Node) : Option Intake → Node
  | none => n
  | some (.change action) => (action.perform now n).1
  | some (.events events) => n.handleEvents events
  | some (.scan kvs) => (reconcileRead n kvs).2
  | some (.inherited found) => (restore now n found).2

namespace Activity

variable {n n' : Node} {me now maxTxnOps : Nat}

theorem RowAction.tables_perform (a : RowAction) (now : Nat) (n : Node) (mutex : Option Nat) :
    (a.perform now { n with mutex }).1.tables = (a.perform now n).1.tables := by
  cases a with
  | register row =>
    simp only [RowAction.perform]
    cases n.registry.register now row <;> rfl
  | unregister id =>
    simp only [RowAction.perform]
    cases n.registry.unregister id <;> rfl
  | expire id generation => rfl

theorem RowAction.tables_of_leads {a : RowAction} {stage : RowStage} {next : Option RowStage}
    (h : (a.step me now n stage).Leads n n' next) :
    n'.tables = (n.takeIn now (a.intake? stage)).tables := by
  cases stage with
  | start => cases h; rfl
  | queued =>
    simp only [RowAction.step] at h
    split at h <;> cases h
    rfl
  | locked =>
    simp only [RowAction.step] at h
    split at h <;> cases h
    rfl
  | inside => cases h; exact a.tables_perform now n none
  | forwarding request result => cases request <;> cases h <;> rfl
  | finishing result => cases h; rfl

theorem keepAlive_tables_of_leads {id : ServiceId} {stage : KeepAliveStage}
    {next : Option KeepAliveStage} (h : (keepAliveStep id me now n stage).Leads n n' next) :
    n'.tables = n.tables := by
  cases stage with
  | start =>
    simp only [keepAliveStep] at h
    split at h <;> cases h
    rfl
  | inside =>
    simp only [keepAliveStep] at h
    split at h
    · cases h; rfl
    · next hk => cases h; exact congrArg (·, n.globalRows) (rows_keepAlive hk)

theorem import_tables_of_leads (now : Nat) {stage : ImportStage} {next : Option ImportStage}
    (h : (importStep n stage).Leads n n' next) :
    n'.tables = (n.takeIn now stage.intake?).tables := by
  cases stage <;> cases h <;> rfl

theorem republish_tables_of_leads {stage : RepublishStage} {next : Option RepublishStage}
    (h : (republishStep me maxTxnOps n stage).Leads n n' next) : n'.tables = n.tables := by
  cases stage with
  | start =>
    simp only [republishStep] at h
    split at h
    · cases h; rfl
    · split at h <;> cases h <;> rfl
  | locking lease todo held => cases todo <;> cases h <;> rfl
  | queued lease id todo held =>
    simp only [republishStep] at h
    split at h <;> cases h
    rfl
  | reading lease held =>
    simp only [republishStep] at h
    split at h
    · cases h; rfl
    · cases h; rfl
    · split at h <;> cases h
      rfl
  | writing batches count held => cases batches <;> cases h <;> rfl
  | finishing result held =>
    cases h
    rw [Node.releaseRow_foldl]
    rfl

theorem sync_tables_of_leads (now : Nat) {stage : SyncStage} {next : Option SyncStage}
    (h : (syncStep me maxTxnOps n stage).Leads n n' next) :
    n'.tables = (n.takeIn now stage.intake?).tables := by
  cases stage with
  | importing stage =>
    obtain ⟨_, h⟩ := h.of_within fun _ _ _ _ h => h.eq_of_move
    exact import_tables_of_leads now h
  | republishing imported stage =>
    obtain ⟨_, h⟩ := h.of_within fun _ _ _ _ h => h.eq_of_done
    exact republish_tables_of_leads h

theorem grant_tables_of_leads {stage : GrantStage} {next : Option GrantStage}
    (h : (grantStep n stage).Leads n n' next) : n'.tables = n.tables := by
  cases stage <;> cases h <;> rfl

theorem acquire_tables_of_leads {stage : AcquireStage} {next : Option AcquireStage}
    (h : (acquireStep maxTxnOps n stage).Leads n n' next) : n'.tables = n.tables := by
  cases stage with
  | alive lease keys =>
    simp only [acquireStep] at h
    split at h <;> cases h
    rfl
  | inheriting lease batches found => cases batches <;> cases h <;> rfl
  | creating stage =>
    obtain ⟨_, h⟩ := h.of_within fun _ _ _ _ h => h.eq_of_move
    exact grant_tables_of_leads h
  | _ => cases h; rfl

theorem start_tables_of_leads {stage : StartStage} {next : Option StartStage}
    (h : (startStep now maxTxnOps n stage).Leads n n' next) :
    n'.tables = (n.takeIn now stage.intake?).tables := by
  cases stage with
  | importing stage =>
    obtain ⟨_, h⟩ := h.of_within fun _ _ _ _ h => h.eq_of_move
    exact import_tables_of_leads now h
  | acquiring stage =>
    simp only [startStep] at h
    split at h
    · cases h; rfl
    · obtain ⟨_, h⟩ := h.of_within fun s₁ r s₂ next h => by cases r <;> cases h <;> rfl
      exact acquire_tables_of_leads h
  | restoring found =>
    simp only [startStep] at h
    split at h
    · cases h
    · simp only [StartStage.intake?, Node.takeIn]
      split at h
      · next heq => cases h; rw [heq]; rfl
      · next heq => cases h; rw [heq]

theorem watch_tables_of_leads {stage : WatchStage} {next : Option WatchStage}
    (h : (watchStep now n stage).Leads n n' next) :
    n'.tables = (n.takeIn now stage.intake?).tables := by
  cases stage with
  | failed e next failures =>
    unfold watchStep at h
    split at h <;> try contradiction
    all_goals cases h; rfl
  | sleeping next failures wake =>
    simp only [watchStep] at h
    split at h
    · cases h; rfl
    · split at h <;> cases h
      rfl
  | opening next failures => simp only [watchStep] at h; split at h <;> cases h <;> rfl
  | reading feed next => simp only [watchStep] at h; split at h <;> cases h <;> rfl
  | waiting next failures => simp only [watchStep] at h; split at h <;> cases h <;> rfl
  | _ => cases h; rfl

theorem leaseLoop_tables_of_leads {stage : LeaseLoopStage} {next : Option LeaseLoopStage}
    (h : (leaseLoopStep now n stage).Leads n n' next) : n'.tables = n.tables := by
  cases stage with
  | replacing tick attempt stage =>
    obtain ⟨_, h⟩ := h.of_within fun _ _ _ _ h => h.eq_of_move
    exact grant_tables_of_leads h
  | awaiting tick stream deadline =>
    simp only [leaseLoopStep] at h
    split at h <;> cases h <;> rfl
  | idle tick stream =>
    simp only [leaseLoopStep] at h
    split at h
    · cases h; rfl
    · split at h <;> cases h
      rfl
  | replaceSleeping tick attempt wake =>
    simp only [leaseLoopStep] at h
    split at h
    · cases h; rfl
    · split at h <;> cases h
      rfl
  | start => simp only [leaseLoopStep] at h; split at h <;> cases h; rfl
  | recovering tick => simp only [leaseLoopStep] at h; split at h <;> cases h <;> rfl
  | replaceWaiting tick attempt => simp only [leaseLoopStep] at h; split at h <;> cases h <;> rfl
  | _ => cases h; rfl

theorem syncLoop_tables_of_leads {stage : SyncLoopStage} {next : Option SyncLoopStage}
    (h : (syncLoopStep me now maxTxnOps n stage).Leads n n' next) :
    n'.tables = (n.takeIn now stage.intake?).tables := by
  cases stage with
  | start => simp only [syncLoopStep] at h; split at h <;> cases h; rfl
  | idle tick adoptions =>
    simp only [syncLoopStep] at h
    split_ifs at h <;> cases h <;> rfl
  | running tick adoptions stage =>
    obtain ⟨_, h⟩ := h.of_within fun _ _ _ _ h => h.eq_of_move
    exact sync_tables_of_leads now h

end Activity

open Progress

variable {n n' : Node} {me now maxTxnOps : Nat} {a : Activity}

/-- A step of a task leaves the tables as taking in does what it is about to take in. -/
theorem Activity.tables_of_leads {next : Option Activity}
    (h : (a.step me now maxTxnOps n).Leads n n' next) :
    n'.tables = (n.takeIn now a.intake?).tables := by
  cases a with
  | row action stage =>
    obtain ⟨_, h⟩ := h.of_within fun _ _ _ _ h => h.eq_of_done
    exact RowAction.tables_of_leads h
  | keepAlive id stage =>
    obtain ⟨_, h⟩ := h.of_within fun _ _ _ _ h => h.eq_of_done
    exact keepAlive_tables_of_leads h
  | importing stage =>
    obtain ⟨_, h⟩ := h.of_within fun _ _ _ _ h => h.eq_of_done
    exact import_tables_of_leads now h
  | republishing stage =>
    obtain ⟨_, h⟩ := h.of_within fun _ _ _ _ h => h.eq_of_done
    exact republish_tables_of_leads h
  | syncing stage =>
    obtain ⟨_, h⟩ := h.of_within fun _ _ _ _ h => h.eq_of_done
    exact sync_tables_of_leads now h
  | acquiring stage =>
    obtain ⟨_, h⟩ := h.of_within fun _ _ _ _ h => h.eq_of_done
    exact acquire_tables_of_leads h
  | starting stage =>
    obtain ⟨_, h⟩ := h.of_within fun _ _ _ _ h => h.eq_of_done
    exact start_tables_of_leads h
  | watchLoop stage =>
    obtain ⟨_, h⟩ := h.of_within fun _ _ _ _ h => h.eq_of_done
    exact watch_tables_of_leads h
  | leaseLoop stage =>
    obtain ⟨_, h⟩ := h.of_within fun _ _ _ _ h => h.eq_of_done
    exact leaseLoop_tables_of_leads h
  | syncLoop stage =>
    obtain ⟨_, h⟩ := h.of_within fun _ _ _ _ h => h.eq_of_done
    exact syncLoop_tables_of_leads h

/-- A registration brings the row of a valid service, or one that was left. -/
def Activity.BringsHosted : Activity → Prop
  | .row (.register r) _ => r.IsHosted
  | _ => True

theorem Activity.BringsHosted.of_leads {a' : Activity} (ha : a.BringsHosted)
    (h : (a.step me now maxTxnOps n).Leads n n' (some a')) : a'.BringsHosted := by
  cases a with
  | row action stage =>
    obtain ⟨stage', rfl⟩ := h.stage_of_within
    cases action <;> exact ha
  | _ =>
    obtain ⟨stage', rfl⟩ := h.stage_of_within
    trivial

theorem Activity.eq_of_intake?_change {action : RowAction} (h : a.intake? = some (.change action)) :
    a = .row action .inside := by
  cases a with
  | row action' stage => cases stage <;> cases h; rfl
  | importing stage => cases stage <;> cases h
  | syncing stage =>
    cases stage with
    | importing stage => cases stage <;> cases h
    | republishing imported stage => cases h
  | starting stage =>
    cases stage with
    | importing stage => cases stage <;> cases h
    | _ => cases h
  | watchLoop stage => cases stage <;> cases h
  | syncLoop stage =>
    cases stage with
    | running tick adoptions stage =>
      cases stage with
      | importing stage => cases stage <;> cases h
      | republishing imported stage => cases h
    | _ => cases h
  | _ => cases h

/-! ## What is taken in -/

def Intake.IsStorable (k : Keyspace) : Intake → Prop
  | .change (.register r) => r.IsStorable
  | .change (.unregister id) | .change (.expire id _) => id.IsStorable
  | .events es => ∀ e ∈ es, e.Fits k
  | .scan kvs => ∀ row ∈ decodeAll k kvs, row.IsStorable
  | .inherited found => ∀ row ∈ decodeInherited k found, row.IsStorable

def Row.IsDecoded (row : Row) : Prop := ∃ (k : Keyspace) (key value : Bytes),
  k.decode key value = some row

theorem Row.IsDecoded.isHosted {row : Row} (h : row.IsDecoded) : row.IsHosted := by
  obtain ⟨_, _, _, h⟩ := h
  exact .restored h

theorem Registry.isHosted_iff {r : Registry} : r.IsHosted ↔ r.rows.HasOnly Row.IsHosted :=
  ⟨fun h => ⟨h.wellFormed, h.row⟩, fun h => ⟨h.wellFormed, h.row⟩⟩

/-- The hosted rows are registered or decoded, those of all services are decoded. -/
structure Node.IsFilled (n : Node) : Prop where
  hosted : n.registry.rows.HasOnly Row.IsHosted
  known : n.globalRows.HasOnly Row.IsDecoded

namespace Node.IsFilled

theorem of_tables (h : n.IsFilled) (ht : n'.tables = n.tables) : n'.IsFilled := by
  obtain ⟨hlocal, hglobal⟩ := Prod.mk.inj ht
  exact ⟨hlocal ▸ h.hosted, hglobal ▸ h.known⟩

theorem of_hosted {registry : Registry} (h : n.IsFilled)
    (hr : registry.rows.HasOnly Row.IsHosted) : IsFilled { n with registry } :=
  ⟨hr, h.known⟩

theorem perform (h : n.IsFilled) (now : Nat) {action : RowAction}
    (hs : (Intake.change action).IsStorable n.keyspace)
    (ha : ∀ row, action = .register row → row.IsHosted) : (action.perform now n).1.IsFilled := by
  cases action with
  | register row =>
    obtain ⟨_, r', hr, h'⟩ := (Registry.isHosted_iff.2 h.hosted).register now (ha row rfl) hs
    simp only [RowAction.perform, hr]
    exact h.of_hosted (Registry.isHosted_iff.1 h')
  | unregister id =>
    have hid : id.IsStorable := hs
    have hr := h.hosted.wellFormed.remove_eq hid
    simp only [RowAction.perform, Registry.unregister, hr]
    exact h.of_hosted (h.hosted.erase hid)
  | expire id generation =>
    have hid : id.IsStorable := hs
    have hr := h.hosted.wellFormed.remove_eq hid
    simp only [RowAction.perform, Registry.expire, Registry.disarm, hr]
    split
    · exact h.of_hosted (h.hosted.erase hid)
    · exact h.of_hosted h.hosted

theorem handleEvents (h : n.IsFilled) {events : List Event}
    (hs : ∀ e ∈ events, e.Fits n.keyspace) : (n.handleEvents events).IsFilled := by
  have hrows : ∀ row, .put row ∈ events.filterMap n.keyspace.change? → row.IsDecoded := by
    intro row hrow
    obtain ⟨e, -, he⟩ := List.mem_filterMap.1 hrow
    cases e with
    | put key value revision =>
      obtain ⟨row', hd, heq⟩ := Option.map_eq_some_iff.1 he
      cases heq
      exact ⟨n.keyspace, key, value, hd⟩
    | delete key revision =>
      obtain ⟨id, -, heq⟩ := Option.map_eq_some_iff.1 he
      cases heq
  obtain ⟨_, t', heq, h'⟩ := h.known.apply (Event.isStorable_of_mem_changes hs) hrows
  refine ⟨h.hosted, ?_⟩
  rw [Node.handleEvents, ServiceDirectory.handleEvents, heq]
  exact h'

theorem reconcileRead (h : n.IsFilled) {kvs : List KeyValue}
    (hs : ∀ row ∈ decodeAll n.keyspace kvs, row.IsStorable) :
    (reconcileRead n kvs).2.IsFilled := by
  have hrows : ∀ row ∈ decodeAll n.keyspace kvs, row.IsDecoded := fun row hrow => by
    obtain ⟨kv, -, hd⟩ := List.mem_filterMap.1 hrow
    exact ⟨n.keyspace, kv.key, kv.value, hd⟩
  obtain ⟨_, t', heq, h'⟩ := h.known.reconcile hs hrows
  rw [Activity.reconcileRead, heq]
  exact ⟨h.hosted, h'⟩

theorem restore (h : n.IsFilled) (now : Nat) {found : Inherited}
    (hs : ∀ row ∈ decodeInherited n.keyspace found, row.IsStorable) :
    (restore now n found).2.IsFilled := by
  have hrows : ∀ row ∈ decodeInherited n.keyspace found, row.IsHosted ∧ row.IsStorable := by
    intro row hrow
    obtain ⟨e, -, hd⟩ := List.mem_filterMap.1 hrow
    exact ⟨.restored hd, hs row hrow⟩
  obtain ⟨_, r', hr, h'⟩ := n.registry.isHosted_restore now hrows
  rw [Activity.restore, hr]
  exact h.of_hosted (Registry.isHosted_iff.1 h')

theorem takeIn (h : n.IsFilled) (now : Nat) (ha : a.BringsHosted)
    (hs : ∀ i, a.intake? = some i → i.IsStorable n.keyspace) :
    (n.takeIn now a.intake?).IsFilled := by
  cases hi : a.intake? with
  | none => exact h
  | some i =>
    have hst := hs i hi
    cases i with
    | change action =>
      refine h.perform now hst ?_
      rintro r rfl
      rw [Activity.eq_of_intake?_change hi] at ha
      exact ha
    | events events => exact h.handleEvents hst
    | scan kvs => exact h.reconcileRead hst
    | inherited found => exact h.restore now hst

end Node.IsFilled

/-! ## Runs -/

inductive Activity.IsStarted : Activity → Prop
  | fresh {a : Activity} : a.IsFresh → IsStarted a
  | acquire : IsStarted .acquire
  | startUp : IsStarted .startUp
  | loop {a : Activity} : a ∈ loops → IsStarted a

theorem Activity.IsStarted.bringsHosted (h : a.IsStarted) : a.BringsHosted := by
  cases h with
  | fresh h =>
    cases h with
    | register hmake _ => exact .registered hmake
    | _ => trivial
  | acquire => trivial
  | startUp => trivial
  | loop h =>
    simp only [loops, List.mem_cons, List.not_mem_nil, or_false] at h
    rcases h with rfl | rfl | rfl <;> trivial

namespace Crew

variable {c c' : Crew}

/-- Whatever can take place on a node: tasks are started, go on at any time with any answers of the
remote store, break down and are called off. What they take in can be stored. -/
inductive Turn : Crew → Crew → Prop
  | started {c : Crew} {t : Nat} {a : Activity} : c.tasks t = none → a.IsStarted →
      Turn c (c.set t c.node (some a))
  | goOn {c : Crew} {t : Nat} {a : Activity} {n : Node} {next : Option Activity}
      (now maxTxnOps : Nat) : c.tasks t = some a →
      (∀ i, a.intake? = some i → i.IsStorable c.node.keyspace) →
      (a.step t now maxTxnOps c.node).Leads c.node n next → Turn c (c.set t n next)
  | calledOff {c : Crew} {t : Nat} {a : Activity} : c.tasks t = some a →
      Turn c (c.set t (Activity.drop t c.node) none)
  | elsewhere {c : Crew} {n : Node} : n.tables = c.node.tables → Turn c ⟨n, c.tasks⟩
  | restarted {c : Crew} (settings : NodeSettings) :
      Turn c ⟨.init settings c.node.registry.rows c.node.globalRows, fun _ => none⟩

def IsRun (c : Crew) : Prop := ∃ settings,
  Relation.ReflTransGen Turn ⟨.init settings .empty .empty, fun _ => none⟩ c

structure IsFilled (c : Crew) : Prop where
  node : c.node.IsFilled
  tasks : ∀ t a, c.tasks t = some a → a.BringsHosted

theorem IsFilled.set (h : c.IsFilled) {t : Nat} {n : Node} {next : Option Activity}
    (hn : n.IsFilled) (ha : ∀ a, next = some a → a.BringsHosted) : (c.set t n next).IsFilled where
  node := hn
  tasks t' a hT := by
    by_cases ht : t' = t
    · rw [ht, tasks_set_self] at hT
      exact ha a hT
    · rw [tasks_set_of_ne c ht] at hT
      exact h.tasks t' a hT

theorem Turn.isFilled (h : Turn c c') (hc : c.IsFilled) : c'.IsFilled := by
  cases h with
  | started _ ha =>
    refine hc.set hc.node fun a heq => ?_
    cases heq
    exact ha.bringsHosted
  | goOn now maxTxnOps hT hs hleads =>
    have hb := hc.tasks _ _ hT
    refine hc.set ((hc.node.takeIn now hb hs).of_tables (Activity.tables_of_leads hleads)) ?_
    rintro a rfl
    exact hb.of_leads hleads
  | calledOff _ => exact hc.set (hc.node.of_tables rfl) fun _ heq => by cases heq
  | elsewhere ht => exact ⟨hc.node.of_tables ht, hc.tasks⟩
  | restarted settings => exact ⟨hc.node.of_tables rfl, fun _ _ hT => by cases hT⟩

theorem IsRun.isFilled (h : c.IsRun) : c.IsFilled := by
  obtain ⟨settings, h⟩ := h
  induction h with
  | refl => exact ⟨⟨Table.hasOnly_empty _, Table.hasOnly_empty _⟩, fun _ _ hT => by cases hT⟩
  | tail _ hturn ih => exact hturn.isFilled ih

end Crew

end ServiceDirectory
