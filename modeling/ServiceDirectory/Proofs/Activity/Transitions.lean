import ServiceDirectory.Proofs.Activity.Stake

/-! # What the parts of tasks can do

For each part of a task, and for the tasks that are made of them: the moves, the stages in which it
ends, those in which it asks, and those in which it waits for a lock. What else is said of the steps
of tasks follows from these.
-/

namespace ServiceDirectory

open Activity

variable {n n' : Node} {me now maxTxnOps : Nat}

namespace Progress

variable {σ τ ρ τ' ρ' : Type} {p : Progress σ τ ρ} {stage : τ → τ'}
  {rest : σ → ρ → Progress σ τ' ρ'} {s : σ}

theorem within_within {τ'' ρ'' : Type} (p : Progress σ τ ρ) (stage : τ → τ')
    (rest : σ → ρ → Progress σ τ' ρ') (stage' : τ' → τ'') (rest' : σ → ρ' → Progress σ τ'' ρ'') :
    (p.within stage rest).within stage' rest' =
      p.within (fun t => stage' (stage t)) fun s r => (rest s r).within stage' rest' := by
  cases p with
  | ask q go otherwise => cases otherwise <;> rfl
  | _ => rfl

theorem within_eq_move {t' : τ'} (h : p.within stage rest = .move s t') :
    (∃ t, p = .move s t ∧ t' = stage t) ∨ ∃ s' r, p = .done s' r ∧ rest s' r = .move s t' := by
  cases p with
  | wait => cases h
  | move s t => cases h; exact .inl ⟨t, rfl, rfl⟩
  | ask q go otherwise => cases h
  | done s' r => exact .inr ⟨s', r, rfl, h⟩
  | crash => cases h

theorem within_eq_done {r' : ρ'} (h : p.within stage rest = .done s r') :
    ∃ s' r, p = .done s' r ∧ rest s' r = .done s r' := by
  cases p with
  | wait => cases h
  | move s t => cases h
  | ask q go otherwise => cases h
  | done s' r => exact ⟨s', r, rfl, h⟩
  | crash => cases h

theorem within_eq_ask {q : Request} {go : q.Answer → σ → σ × τ'} {otherwise : Option (σ × τ')}
    (h : p.within stage rest = .ask q go otherwise) :
    (∃ go' otherwise', p = .ask q go' otherwise' ∧
      ∀ a s, go a s = ((go' a s).1, stage (go' a s).2)) ∨
    ∃ s' r, p = .done s' r ∧ rest s' r = .ask q go otherwise := by
  cases p with
  | wait => cases h
  | move s t => cases h
  | ask q go' otherwise' => cases h; exact .inl ⟨go', otherwise', rfl, fun _ _ => rfl⟩
  | done s' r => exact .inr ⟨s', r, rfl, h⟩
  | crash => cases h

theorem within_done_eq_wait_iff {f : ρ → ρ'} :
    (p.within stage fun s r => .done s (f r)) = .wait ↔ p = .wait := by
  cases p with
  | wait => exact iff_of_true rfl rfl
  | _ => exact iff_of_false nofun nofun

theorem within_move_eq_wait_iff {f : ρ → τ'} :
    (p.within stage fun s r => (.move s (f r) : Progress σ τ' ρ')) = .wait ↔ p = .wait := by
  cases p with
  | wait => exact iff_of_true rfl rfl
  | _ => exact iff_of_false nofun nofun

end Progress

/-! ## Changes of rows -/

namespace Activity.RowAction

variable {a : RowAction} {stage stage' : RowStage}

inductive Moved (n : Node) (me now : Nat) (a : RowAction) : RowStage → Node → RowStage → Prop
  | claimed : Moved n me now a .start (n.claimRow me a.id) .queued
  | took : n.ownsRow me a.id = true → Moved n me now a .queued (n.takeRow me a.id) .locked
  | entered : n.mutex = none → Moved n me now a .locked { n with mutex := some me } .inside
  | performed : Moved n me now a .inside (a.perform now { n with mutex := none }).1
      (a.perform now { n with mutex := none }).2
  | skipped (result : RowResult) : Moved n me now a (.forwarding none result) n (.finishing result)

theorem moved_of_step (h : a.step me now n stage = .move n' stage') :
    Moved n me now a stage n' stage' := by
  cases stage with
  | start => cases h; exact .claimed
  | queued =>
    simp only [step] at h
    split at h
    · next hown => cases h; exact .took hown
    · cases h
  | locked =>
    simp only [step] at h
    split at h
    · next hfree => cases h; exact .entered (Option.isNone_iff_eq_none.1 hfree)
    · cases h
  | inside => cases h; exact .performed
  | forwarding request result =>
    cases request with
    | none => cases h; exact .skipped result
    | some q => cases h
  | finishing result => cases h

theorem eq_of_step_done {result : RowResult} (h : a.step me now n stage = .done n' result) :
    stage = .finishing result ∧ n' = n.releaseRow me a.id := by
  cases stage with
  | start => cases h
  | queued => simp only [step] at h; split at h <;> cases h
  | locked => simp only [step] at h; split at h <;> cases h
  | inside => cases h
  | forwarding request result => cases request <;> cases h
  | finishing result => cases h; exact ⟨rfl, rfl⟩

theorem eq_of_step_ask {q : Request} {go : q.Answer → Node → Node × RowStage}
    {otherwise : Option (Node × RowStage)} (h : a.step me now n stage = .ask q go otherwise) :
    ∃ result, stage = .forwarding (some q) result := by
  cases stage with
  | start => cases h
  | queued => simp only [step] at h; split at h <;> cases h
  | locked => simp only [step] at h; split at h <;> cases h
  | inside => cases h
  | forwarding request result =>
    cases request with
    | none => cases h
    | some q => cases h; exact ⟨result, rfl⟩
  | finishing result => cases h

theorem step_eq_wait_iff : a.step me now n stage = .wait ↔
    stage = .queued ∧ n.ownsRow me a.id = false ∨ stage = .locked ∧ n.mutex ≠ none := by
  cases stage with
  | start => simp [step]
  | queued => simp [step]
  | locked => simp [step]
  | inside => simp [step]
  | forwarding request result => cases request <;> simp [step, Progress.query]
  | finishing result => simp [step]

end Activity.RowAction

namespace Activity

/-! ## Republishing -/

section

variable {stage stage' : RepublishStage}

inductive RepublishMoved (n : Node) (me maxTxnOps : Nat) :
    RepublishStage → Node → RepublishStage → Prop
  | gathered {ids : List ServiceId} (lease : Int) : staleIds n = .ok ids →
      RepublishMoved n me maxTxnOps .start n (.locking lease ids [])
  | claimed (lease : Int) (id : ServiceId) (todo held : List ServiceId) :
      RepublishMoved n me maxTxnOps (.locking lease (id :: todo) held) (n.claimRow me id)
        (.queued lease id todo held)
  | took {id : ServiceId} (lease : Int) (todo held : List ServiceId) : n.ownsRow me id = true →
      RepublishMoved n me maxTxnOps (.queued lease id todo held) (n.takeRow me id)
        (.locking lease todo (held ++ [id]))
  | locked (lease : Int) (held : List ServiceId) :
      RepublishMoved n me maxTxnOps (.locking lease [] held) n (.reading lease held)
  | read {lease : Int} {held : List ServiceId} {ops : List TxnOp} :
      republishOps n lease held = .ok ops → RepublishMoved n me maxTxnOps (.reading lease held) n
        (.writing (batched ops maxTxnOps) ops.length held)
  | skipped (lease : Int) (held : List ServiceId) (result : RepublishResult) :
      RepublishMoved n me maxTxnOps (.reading lease held) n (.finishing result held)
  | wrote (count : Nat) (held : List ServiceId) :
      RepublishMoved n me maxTxnOps (.writing [] count held) n (.finishing (.ok (some count)) held)

theorem republishMoved_of_step (h : republishStep me maxTxnOps n stage = .move n' stage') :
    RepublishMoved n me maxTxnOps stage n' stage' := by
  cases stage with
  | start =>
    simp only [republishStep] at h
    split at h
    · cases h
    · next lease _ =>
      split at h
      · cases h
      · cases h
      · next hids => cases h; exact .gathered lease hids
  | locking lease todo held =>
    cases todo with
    | nil => cases h; exact .locked lease held
    | cons id todo => cases h; exact .claimed lease id todo held
  | queued lease id todo held =>
    simp only [republishStep] at h
    split at h
    · next hown => cases h; exact .took lease todo held hown
    · cases h
  | reading lease held =>
    simp only [republishStep] at h
    split at h
    · cases h; exact .skipped lease held _
    · cases h; exact .skipped lease held _
    · next hops =>
      split at h
      · cases h; exact .read hops
      · cases h
  | writing batches count held =>
    cases batches with
    | nil => cases h; exact .wrote count held
    | cons ops batches => cases h
  | finishing result held => cases h

inductive RepublishFinished (n : Node) (me : Nat) : RepublishStage → Node → Prop
  | skipped : RepublishFinished n me .start n
  | released (result : RepublishResult) (held : List ServiceId) : RepublishFinished n me
      (.finishing result held) (held.foldl (fun n id => n.releaseRow me id) n)

theorem republishFinished_of_step {result : RepublishResult}
    (h : republishStep me maxTxnOps n stage = .done n' result) :
    RepublishFinished n me stage n' := by
  cases stage with
  | start =>
    simp only [republishStep] at h
    split at h
    · cases h; exact .skipped
    · split at h <;> cases h <;> exact .skipped
  | locking lease todo held => cases todo <;> cases h
  | queued lease id todo held => simp only [republishStep] at h; split at h <;> cases h
  | reading lease held =>
    simp only [republishStep] at h
    split at h
    · cases h
    · cases h
    · split at h <;> cases h
  | writing batches count held => cases batches <;> cases h
  | finishing result held => cases h; exact .released result held

inductive RepublishAsked : RepublishStage → (q : Request) → (q.Answer → RepublishStage) → Prop
  | wrote {ops : List TxnOp} {batches : List (List TxnOp)} {count : Nat} {held : List ServiceId}
      {next : (Request.txn ops).Answer → RepublishStage} :
      (∀ replies, next (.ok replies) = .writing batches count held) →
      (∀ e, ∃ result, next (.error e) = .finishing result held) →
      RepublishAsked (.writing (ops :: batches) count held) (.txn ops) next

theorem republishAsked_of_step {q : Request} {go : q.Answer → Node → Node × RepublishStage}
    {otherwise : Option (Node × RepublishStage)}
    (h : republishStep me maxTxnOps n stage = .ask q go otherwise) :
    ∃ next, RepublishAsked stage q next ∧ ∀ answer n, go answer n = (n, next answer) := by
  cases stage with
  | start =>
    simp only [republishStep] at h
    split at h
    · cases h
    · split at h <;> cases h
  | locking lease todo held => cases todo <;> cases h
  | queued lease id todo held => simp only [republishStep] at h; split at h <;> cases h
  | reading lease held =>
    simp only [republishStep] at h
    split at h
    · cases h
    · cases h
    · split at h <;> cases h
  | writing batches count held =>
    cases batches with
    | nil => cases h
    | cons ops batches =>
      cases h
      exact ⟨_, .wrote (fun _ => rfl) fun _ => ⟨_, rfl⟩, fun _ _ => rfl⟩
  | finishing result held => cases h

theorem republishStep_eq_wait_iff : republishStep me maxTxnOps n stage = .wait ↔
    ∃ lease id todo held, stage = .queued lease id todo held ∧ n.ownsRow me id = false := by
  constructor
  · intro h
    cases stage with
    | start =>
      simp only [republishStep] at h
      split at h
      · cases h
      · split at h <;> cases h
    | locking lease todo held => cases todo <;> cases h
    | queued lease id todo held =>
      simp only [republishStep] at h
      split at h
      · cases h
      · next hown => exact ⟨lease, id, todo, held, rfl, Bool.eq_false_iff.2 hown⟩
    | reading lease held =>
      simp only [republishStep] at h
      split at h
      · cases h
      · cases h
      · split at h <;> cases h
    | writing batches count held => cases batches <;> cases h
    | finishing result held => cases h
  · rintro ⟨lease, id, todo, held, rfl, hown⟩
    simp [republishStep, hown]

end

/-! ## Keeping alive -/

section

variable {id : ServiceId} {stage stage' : KeepAliveStage}

theorem keepAliveStep_move (h : keepAliveStep id me now n stage = .move n' stage') :
    stage = .start ∧ stage' = .inside ∧ n.mutex = none ∧ n' = { n with mutex := some me } := by
  cases stage with
  | start =>
    simp only [keepAliveStep] at h
    split at h
    · next hfree => cases h; exact ⟨rfl, rfl, Option.isNone_iff_eq_none.1 hfree, rfl⟩
    · cases h
  | inside =>
    simp only [keepAliveStep] at h
    split at h <;> cases h

theorem keepAliveStep_done {result : Except Error Bool}
    (h : keepAliveStep id me now n stage = .done n' result) : stage = .inside ∧
      ∃ registry, n' = { n with registry, mutex := none } ∧
        (registry = n.registry ∧ (∃ e, n.registry.keepAlive now id = .error e) ∨
          ∃ found, n.registry.keepAlive now id = .ok (found, registry)) := by
  cases stage with
  | start => simp only [keepAliveStep] at h; split at h <;> cases h
  | inside =>
    simp only [keepAliveStep] at h
    split at h
    · next e he => cases h; exact ⟨rfl, n.registry, rfl, .inl ⟨rfl, e, he⟩⟩
    · next found registry hk => cases h; exact ⟨rfl, registry, rfl, .inr ⟨found, hk⟩⟩

theorem rows_keepAlive {r r' : Registry} {found : Bool} (h : r.keepAlive now id = .ok (found, r')) :
    r'.rows = r.rows := by
  obtain ⟨row?, -, h⟩ := bind_eq_ok_iff.1 h
  cases row? <;> cases h <;> rfl

theorem keepAliveStep_ask {q : Request} {go : q.Answer → Node → Node × KeepAliveStage}
    {otherwise : Option (Node × KeepAliveStage)} :
    keepAliveStep id me now n stage ≠ .ask q go otherwise := by
  intro h
  cases stage <;> simp only [keepAliveStep] at h <;> split at h <;> cases h

theorem keepAliveStep_eq_wait_iff :
    keepAliveStep id me now n stage = .wait ↔ stage = .start ∧ n.mutex ≠ none := by
  cases stage with
  | start => simp [keepAliveStep]
  | inside =>
    simp only [keepAliveStep]
    split <;> simp

end

/-! ## Importing -/

theorem reconcileRead_node (n : Node) (kvs : List KeyValue) :
    ∃ globalRows, (reconcileRead n kvs).2 = { n with globalRows } := by
  unfold reconcileRead
  split
  · exact ⟨_, rfl⟩
  · exact ⟨n.globalRows, rfl⟩

theorem importStep_done {stage : ImportStage} {result : ImportResult}
    (h : importStep n stage = .done n' result) : ∃ globalRows, n' = { n with globalRows } := by
  cases stage with
  | start => cases h
  | read kvs =>
    obtain ⟨globalRows, hr⟩ := reconcileRead_node n kvs
    simp only [importStep] at h
    cases h
    exact ⟨globalRows, hr⟩
  | finishing result => cases h; exact ⟨n.globalRows, rfl⟩

theorem importStep_move {stage stage' : ImportStage} : importStep n stage ≠ .move n' stage' := by
  intro h
  cases stage <;> cases h

theorem importStep_ask {stage : ImportStage} {q : Request}
    {go : q.Answer → Node → Node × ImportStage} {otherwise : Option (Node × ImportStage)}
    (h : importStep n stage = .ask q go otherwise) : stage = .start ∧
      q = .getRange (.withPrefix n.keyspace.beginning) ∧
      ∃ next : q.Answer → ImportStage, ∀ answer n, go answer n = (n, next answer) := by
  cases stage <;> cases h
  exact ⟨rfl, rfl, _, fun _ _ => rfl⟩

theorem importStep_ne_wait {stage : ImportStage} : importStep n stage ≠ .wait := by
  intro h
  cases stage <;> cases h

/-! ## Operations -/

section

variable {act act' : Activity}

inductive Moved (n : Node) (me now maxTxnOps : Nat) : Activity → Node → Activity → Prop
  | row {a : RowAction} {stage stage' : RowStage} {n' : Node} :
      RowAction.Moved n me now a stage n' stage' →
      Moved n me now maxTxnOps (.row a stage) n' (.row a stage')
  | entered (id : ServiceId) : n.mutex = none → Moved n me now maxTxnOps (.keepAlive id .start)
      { n with mutex := some me } (.keepAlive id .inside)
  | republished {stage stage' : RepublishStage} {n' : Node} :
      RepublishMoved n me maxTxnOps stage n' stage' →
      Moved n me now maxTxnOps (.republishing stage) n' (.republishing stage')
  | imported (stage : ImportStage) (globalRows : Table) (imported : Option Summary) :
      Moved n me now maxTxnOps (.syncing (.importing stage)) { n with globalRows }
        (.syncing (.republishing imported .start))
  | wroteBack {stage stage' : RepublishStage} {n' : Node} (imported : Option Summary) :
      RepublishMoved n me maxTxnOps stage n' stage' →
      Moved n me now maxTxnOps (.syncing (.republishing imported stage)) n'
        (.syncing (.republishing imported stage'))

theorem moved_of_step (ho : act.isOperation = true)
    (h : act.step me now maxTxnOps n = .move n' act') : Moved n me now maxTxnOps act n' act' := by
  cases act with
  | row a stage =>
    rcases Progress.within_eq_move h with ⟨stage', hmove, rfl⟩ | ⟨_, _, _, h⟩
    · exact .row (RowAction.moved_of_step hmove)
    · cases h
  | keepAlive id stage =>
    rcases Progress.within_eq_move h with ⟨stage', hmove, rfl⟩ | ⟨_, _, _, h⟩
    · obtain ⟨rfl, rfl, hfree, rfl⟩ := keepAliveStep_move hmove
      exact .entered id hfree
    · cases h
  | importing stage =>
    rcases Progress.within_eq_move h with ⟨stage', hmove, rfl⟩ | ⟨_, _, _, h⟩
    · exact absurd hmove importStep_move
    · cases h
  | republishing stage =>
    rcases Progress.within_eq_move h with ⟨stage', hmove, rfl⟩ | ⟨_, _, _, h⟩
    · exact .republished (republishMoved_of_step hmove)
    · cases h
  | syncing stage =>
    rcases Progress.within_eq_move h with ⟨stage', hsync, rfl⟩ | ⟨_, _, _, h⟩
    · cases stage with
      | importing stage =>
        rcases Progress.within_eq_move hsync with ⟨stage', hmove, rfl⟩ | ⟨_, _, hd, hsync⟩
        · exact absurd hmove importStep_move
        · cases hsync
          obtain ⟨globalRows, rfl⟩ := importStep_done hd
          exact .imported stage globalRows _
      | republishing imported stage =>
        rcases Progress.within_eq_move hsync with ⟨stage', hmove, rfl⟩ | ⟨_, _, _, hsync⟩
        · exact .wroteBack imported (republishMoved_of_step hmove)
        · cases hsync
    · cases h
  | _ => cases ho

inductive Finished (n : Node) (me : Nat) : Activity → Node → Prop
  | row (a : RowAction) (result : RowResult) :
      Finished n me (.row a (.finishing result)) (n.releaseRow me a.id)
  | kept (id : ServiceId) {registry : Registry} : registry.rows = n.registry.rows →
      Finished n me (.keepAlive id .inside) { n with registry, mutex := none }
  | imported (stage : ImportStage) (globalRows : Table) :
      Finished n me (.importing stage) { n with globalRows }
  | republished {stage : RepublishStage} {n' : Node} : RepublishFinished n me stage n' →
      Finished n me (.republishing stage) n'
  | synced {stage : RepublishStage} {n' : Node} (imported : Option Summary) :
      RepublishFinished n me stage n' → Finished n me (.syncing (.republishing imported stage)) n'

theorem finished_of_step {outcome : Outcome} (ho : act.isOperation = true)
    (h : act.step me now maxTxnOps n = .done n' outcome) : Finished n me act n' := by
  cases act with
  | row a stage =>
    obtain ⟨_, _, hd, h⟩ := Progress.within_eq_done h
    cases h
    obtain ⟨rfl, rfl⟩ := RowAction.eq_of_step_done hd
    exact .row a _
  | keepAlive id stage =>
    obtain ⟨_, _, hd, h⟩ := Progress.within_eq_done h
    cases h
    obtain ⟨rfl, registry, rfl, ⟨rfl, -⟩ | ⟨found, hk⟩⟩ := keepAliveStep_done hd
    · exact .kept id rfl
    · exact .kept id (rows_keepAlive hk)
  | importing stage =>
    obtain ⟨_, _, hd, h⟩ := Progress.within_eq_done h
    cases h
    obtain ⟨globalRows, rfl⟩ := importStep_done hd
    exact .imported stage globalRows
  | republishing stage =>
    obtain ⟨_, _, hd, h⟩ := Progress.within_eq_done h
    cases h
    exact .republished (republishFinished_of_step hd)
  | syncing stage =>
    obtain ⟨_, _, hsync, h⟩ := Progress.within_eq_done h
    cases h
    cases stage with
    | importing stage =>
      obtain ⟨_, _, _, hsync⟩ := Progress.within_eq_done hsync
      cases hsync
    | republishing imported stage =>
      obtain ⟨_, _, hd, hsync⟩ := Progress.within_eq_done hsync
      cases hsync
      exact .synced imported (republishFinished_of_step hd)
  | _ => cases ho

inductive Asked (n : Node) : Activity → (q : Request) → (q.Answer → Activity) → Prop
  | row (a : RowAction) (q : Request) (result : RowResult) :
      Asked n (.row a (.forwarding (some q) result)) q fun _ => .row a (.finishing result)
  | scanned {q : Request} (next : q.Answer → ImportStage) :
      q = .getRange (.withPrefix n.keyspace.beginning) →
      Asked n (.importing .start) q fun answer => .importing (next answer)
  | republished {stage : RepublishStage} {q : Request} {next : q.Answer → RepublishStage} :
      RepublishAsked stage q next →
      Asked n (.republishing stage) q fun answer => .republishing (next answer)
  | synced {q : Request} (next : q.Answer → ImportStage) :
      q = .getRange (.withPrefix n.keyspace.beginning) →
      Asked n (.syncing (.importing .start)) q fun answer => .syncing (.importing (next answer))
  | wroteBack {stage : RepublishStage} {q : Request} {next : q.Answer → RepublishStage}
      (imported : Option Summary) : RepublishAsked stage q next →
      Asked n (.syncing (.republishing imported stage)) q fun answer =>
        .syncing (.republishing imported (next answer))

theorem asked_of_step {q : Request} {go : q.Answer → Node → Node × Activity}
    {otherwise : Option (Node × Activity)} (ho : act.isOperation = true)
    (h : act.step me now maxTxnOps n = .ask q go otherwise) :
    ∃ next, Asked n act q next ∧ ∀ answer n, go answer n = (n, next answer) := by
  cases act with
  | row a stage =>
    rcases Progress.within_eq_ask h with ⟨go', _, hask, hgo⟩ | ⟨_, _, _, h⟩
    · obtain ⟨result, rfl⟩ := RowAction.eq_of_step_ask hask
      cases hask
      exact ⟨_, .row a q result, hgo⟩
    · cases h
  | keepAlive id stage =>
    rcases Progress.within_eq_ask h with ⟨go', _, hask, hgo⟩ | ⟨_, _, _, h⟩
    · exact absurd hask keepAliveStep_ask
    · cases h
  | importing stage =>
    rcases Progress.within_eq_ask h with ⟨go', _, hask, hgo⟩ | ⟨_, _, _, h⟩
    · obtain ⟨rfl, hq, next, hnext⟩ := importStep_ask hask
      exact ⟨_, .scanned next hq, fun answer n => by rw [hgo, hnext]⟩
    · cases h
  | republishing stage =>
    rcases Progress.within_eq_ask h with ⟨go', _, hask, hgo⟩ | ⟨_, _, _, h⟩
    · obtain ⟨next, hasked, hnext⟩ := republishAsked_of_step hask
      exact ⟨_, .republished hasked, fun answer n => by rw [hgo, hnext]⟩
    · cases h
  | syncing stage =>
    rcases Progress.within_eq_ask h with ⟨go', _, hsync, hgo⟩ | ⟨_, _, _, h⟩
    · cases stage with
      | importing stage =>
        rcases Progress.within_eq_ask hsync with ⟨_, _, hask, hgo'⟩ | ⟨_, _, _, hsync⟩
        · obtain ⟨rfl, hq, next, hnext⟩ := importStep_ask hask
          exact ⟨_, .synced next hq, fun answer n => by rw [hgo, hgo', hnext]⟩
        · cases hsync
      | republishing imported stage =>
        rcases Progress.within_eq_ask hsync with ⟨_, _, hask, hgo'⟩ | ⟨_, _, _, hsync⟩
        · obtain ⟨next, hasked, hnext⟩ := republishAsked_of_step hask
          exact ⟨_, .wroteBack imported hasked, fun answer n => by rw [hgo, hgo', hnext]⟩
        · cases hsync
    · cases h
  | _ => cases ho

end

end Activity

end ServiceDirectory
