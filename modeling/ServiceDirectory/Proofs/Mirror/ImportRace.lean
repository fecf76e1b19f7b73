import ServiceDirectory.Proofs.Mirror.Decoded

/-! # An import beside a watch

An import reads the store and later makes the table of all services equal to what it read. The watch
hands events to the same table meanwhile. The snapshot with which the import guards the table is
taken when it writes, not when it read, so the guard does not see an event that was handed over in
between: such an event is undone unless a later one concerns the same id (`globalRows_eq_iff`).
-/

namespace ServiceDirectory

open Activity

/-- How far an import has come. Places in the log are numbers of events. -/
inductive ImportPhase
  | idle
  | scanned (kvs : List KeyValue) (log : Nat)
  /-- The table was written when so many events had been handed over. -/
  | committed (log handed : Nat)

structure ImportRace where
  origin : Store
  store : Store
  node : Node
  handed : Nat
  phase : ImportPhase

namespace ImportRace

variable {r r' : ImportRace}

def log (r : ImportRace) : List Event := r.store.history.drop r.origin.history.length

/-- What the store held after the first `n` events. -/
def contentsAfter (r : ImportRace) (n : Nat) : StoredValues :=
  replay (r.log.take n) r.origin.contents

def rowAfter (r : ImportRace) (n : Nat) (id : ServiceId) : Option Row :=
  r.node.keyspace.rowIn (r.contentsAfter n) id

def inNamespace (k : Keyspace) (es : List Event) : List Event :=
  es.filter fun e => k.range.contains e.key

inductive Step : ImportRace → ImportRace → Prop
  | store {r : ImportRace} {s : Store} : r.store.Step s → Step r { r with store := s }
  | deliver {r : ImportRace} (count : Nat) : r.handed + count ≤ r.log.length →
      Step r { r with
        node := r.node.handleEvents
          (inNamespace r.node.keyspace ((r.log.drop r.handed).take count))
        handed := r.handed + count }
  | scan {r : ImportRace} {q : Request} {go : q.Answer → Node → Node × ImportStage} {a : q.Answer}
      (now : Nat) {s : Store} {node : Node} {kvs : List KeyValue} :
      r.phase = .idle → importStep r.node .start = .ask q go none →
      r.store.serve now q = some (a, s) → go a r.node = (node, .read kvs) →
      Step r { r with
        store := s, node := node, phase := .scanned kvs { r with store := s }.log.length }
  | reconcile {r : ImportRace} {kvs : List KeyValue} {n : Nat} {node : Node}
      {result : ImportResult} :
      r.phase = .scanned kvs n → importStep r.node (.read kvs) = .done node result →
      Step r { r with node := node, phase := .committed n r.handed }

/-- The table agrees with the store, and nothing is under way. -/
structure IsStart (r : ImportRace) : Prop where
  store : r.store = r.origin
  handed : r.handed = 0
  phase : r.phase = .idle
  keyed : r.origin.IsKeyed
  storable : ∀ row ∈ decodeAll r.node.keyspace r.origin.entries.values, row.IsStorable
  globalRows : r.node.globalRows = r.origin.decodedTable r.node.keyspace

def Reachable (r : ImportRace) : Prop := ∃ start, IsStart start ∧ Relation.ReflTransGen Step start r

/-! ## The log -/

theorem log_of_follows (h : r.origin.Follows r.store) :
    r.store.history = r.origin.history ++ r.log ∧
      r.store.contents = replay r.log r.origin.contents := h.since_eq

theorem contents_eq (h : r.origin.Follows r.store) :
    r.store.contents = r.contentsAfter r.log.length := by
  rw [contentsAfter, List.take_length, (log_of_follows h).2]

theorem contentsAfter_add (r : ImportRace) (m n : Nat) :
    r.contentsAfter (m + n) = replay ((r.log.drop m).take n) (r.contentsAfter m) := by
  rw [contentsAfter, contentsAfter, ← replay_append, List.take_add]

theorem log_with_store (h : r.origin.Follows r.store) {s : Store} (hs : r.store.Follows s) :
    r.log <+: { r with store := s }.log := by
  obtain ⟨es, hh, -⟩ := hs.log
  exact ⟨es, (h.since_append hh).symm⟩

theorem contentsAfter_with_store {s : Store} {node : Node} {handed : Nat} {phase : ImportPhase}
    (h : r.log <+: { r with store := s }.log) {n : Nat} (hn : n ≤ r.log.length) :
    contentsAfter ⟨r.origin, s, node, handed, phase⟩ n = r.contentsAfter n := by
  obtain ⟨es, hes⟩ := h
  have hl : log ⟨r.origin, s, node, handed, phase⟩ = r.log ++ es := hes.symm
  rw [contentsAfter, contentsAfter, hl, List.take_append_of_le_length hn]

/-! ## What holds in every race -/

/-- Some event between the two places concerns the id. -/
def Touched (r : ImportRace) (first last : Nat) (id : ServiceId) : Prop :=
  ∃ e ∈ (r.log.take last).drop first, r.node.keyspace.parseKey e.key = some id

/-- What the table has to do with the store in a phase of the import. -/
def InPhase (r : ImportRace) : ImportPhase → Prop
  | .idle => ∀ id, r.node.globalRows.row? id = r.rowAfter r.handed id
  | .scanned kvs n =>
    n ≤ r.log.length ∧ (∀ id, r.node.globalRows.row? id = r.rowAfter r.handed id) ∧
      (∀ row ∈ decodeAll r.node.keyspace kvs, row.IsStorable) ∧
      ∀ id, (rowsById (decodeAll r.node.keyspace kvs)).find? id = r.rowAfter n id
  | .committed n handed =>
    n ≤ r.log.length ∧ handed ≤ r.handed ∧ ∀ id,
      (r.Touched handed r.handed id → r.node.globalRows.row? id = r.rowAfter r.handed id) ∧
      (¬ r.Touched handed r.handed id → r.node.globalRows.row? id = r.rowAfter n id)

structure Invariant (r : ImportRace) : Prop where
  follows : r.origin.Follows r.store
  keyed : r.origin.IsKeyed
  storable : ∀ id row, r.node.keyspace.rowIn r.origin.contents id = some row → row.IsStorable
  handed_le : r.handed ≤ r.log.length
  proper : r.node.globalRows.IsProper
  inPhase : r.InPhase r.phase

theorem IsStart.invariant (h : r.IsStart) : r.Invariant where
  follows := h.store ▸ .refl _
  keyed := h.keyed
  storable id row hrow := by
    obtain rfl := (Keyspace.rowIn_eq_some_iff.1 hrow).1
    exact h.storable row ((mem_decodeAll_values_iff h.keyed).2 hrow)
  handed_le := h.handed ▸ Nat.zero_le _
  proper := h.globalRows ▸ Store.decodedTable_isProper h.storable
  inPhase := by
    rw [h.phase]
    intro id
    have hc : r.contentsAfter 0 = r.origin.contents := rfl
    rw [h.globalRows, Store.row?_decodedTable h.keyed h.storable, rowAfter, h.handed, hc]

theorem isStorable_of_rowIn_replay {k : Keyspace} {es : List Event} {d : StoredValues}
    (hes : ∀ e ∈ es, e.IsReadable k) (hd : ∀ id row, k.rowIn d id = some row → row.IsStorable)
    {id : ServiceId} {row : Row} (h : k.rowIn (replay es d) id = some row) : row.IsStorable := by
  induction es generalizing d with
  | nil => exact hd id row h
  | cons e es ih =>
    refine ih (fun e he => hes e (.tail _ he)) (fun id row hr => ?_) h
    have he := hes e (.head _)
    by_cases hk : k.parseKey e.key = some id
    · cases hc : k.change? e with
      | none => exact absurd hk (change?_eq_none_iff hc id he)
      | some c =>
        obtain ⟨hk', hrow⟩ := Keyspace.change?_row? hc d
        rw [hk] at hk'
        cases hk'
        rw [hr] at hrow
        have hp := he.change_isProper hc
        cases c with
        | put row' => exact Option.some.inj hrow ▸ hp.storable
        | delete id' => cases hrow
    · rw [Keyspace.rowIn_apply_of_ne hk] at hr
      exact hd id row hr

theorem Invariant.rowAfter_isStorable (h : r.Invariant)
    (hread : ∀ e ∈ r.log, e.IsReadable r.node.keyspace) {n : Nat} {id : ServiceId} {row : Row}
    (hrow : r.rowAfter n id = some row) : row.IsStorable :=
  isStorable_of_rowIn_replay (fun e he => hread e (List.mem_of_mem_take he)) h.storable hrow

/-! ## Steps of the store -/

theorem InPhase.with_store {phase : ImportPhase} (h : r.InPhase phase) {s : Store}
    (hlog : r.log <+: { r with store := s }.log) (hhanded : r.handed ≤ r.log.length) :
    { r with store := s }.InPhase phase := by
  have hle := hlog.length_le
  have hrow : ∀ n ≤ r.log.length, ∀ id, { r with store := s }.rowAfter n id = r.rowAfter n id :=
    fun n hn id => congrArg (r.node.keyspace.rowIn · id) (contentsAfter_with_store hlog hn)
  cases phase with
  | idle => exact fun id => (h id).trans (hrow _ hhanded id).symm
  | scanned kvs n =>
    obtain ⟨hn, htable, hst, hscan⟩ := h
    exact ⟨hn.trans hle, fun id => (htable id).trans (hrow _ hhanded id).symm, hst,
      fun id => (hscan id).trans (hrow _ hn id).symm⟩
  | committed n handed =>
    obtain ⟨hn, hle', htable⟩ := h
    have htouched : ∀ id, { r with store := s }.Touched handed r.handed id ↔
        r.Touched handed r.handed id := by
      intro id
      obtain ⟨es, hes⟩ := hlog
      rw [Touched, Touched, ← hes, List.take_append_of_le_length hhanded]
    refine ⟨hn.trans hle, hle', fun id => ⟨fun ht => ?_, fun ht => ?_⟩⟩
    · exact ((htable id).1 ((htouched id).1 ht)).trans (hrow _ hhanded id).symm
    · exact ((htable id).2 fun h => ht ((htouched id).2 h)).trans (hrow _ hn id).symm

theorem Invariant.with_store (h : r.Invariant) {s : Store} (hs : r.store.Follows s) :
    { r with store := s }.Invariant where
  follows := h.follows.trans hs
  keyed := h.keyed
  storable := h.storable
  handed_le := h.handed_le.trans (log_with_store h.follows hs).length_le
  proper := h.proper
  inPhase := h.inPhase.with_store (log_with_store h.follows hs) h.handed_le

/-! ## Steps of the node -/

def window (r : ImportRace) (count : Nat) : List Event := (r.log.drop r.handed).take count

theorem rowAfter_add_of_ne {count : Nat} {id : ServiceId}
    (h : ¬ ∃ e ∈ r.window count, r.node.keyspace.parseKey e.key = some id) :
    r.rowAfter (r.handed + count) id = r.rowAfter r.handed id := by
  rw [rowAfter, rowAfter, contentsAfter_add]
  exact Keyspace.rowIn_replay_of_ne fun e he hk => h ⟨e, he, hk⟩

theorem touched_add_iff {first : Nat} (h : first ≤ r.handed) (count : Nat) (id : ServiceId) :
    r.Touched first (r.handed + count) id ↔ r.Touched first r.handed id ∨
      ∃ e ∈ r.window count, r.node.keyspace.parseKey e.key = some id := by
  have hlog : (r.log.take (r.handed + count)).drop first =
      (r.log.take r.handed).drop first ++ r.window count := by
    rw [window, List.take_add]
    by_cases hl : r.handed ≤ r.log.length
    · rw [List.drop_append_of_le_length (by rw [List.length_take]; omega)]
    · rw [List.drop_of_length_le (Nat.le_of_not_le hl), List.take_nil, List.append_nil,
        List.append_nil]
  rw [Touched, Touched, hlog]
  simp only [List.mem_append, or_and_right, exists_or]

theorem Invariant.handleEvents_eq (h : r.Invariant)
    (hread : ∀ e ∈ r.log, e.IsReadable r.node.keyspace) (count : Nat) :
    (r.node.handleEvents (inNamespace r.node.keyspace (r.window count))).globalRows.IsProper ∧
      ∀ id, (r.node.handleEvents
          (inNamespace r.node.keyspace (r.window count))).globalRows.row? id =
        if ∃ e ∈ r.window count, r.node.keyspace.parseKey e.key = some id then
          r.rowAfter (r.handed + count) id
        else r.node.globalRows.row? id := by
  have hes : ∀ e ∈ r.window count, e.IsReadable r.node.keyspace :=
    fun e he => hread e (List.mem_of_mem_drop (List.mem_of_mem_take he))
  have htable : (r.node.handleEvents (inNamespace r.node.keyspace (r.window count))).globalRows =
      (r.window count).foldl (mirror r.node.keyspace) r.node.globalRows := by
    rw [← ServiceDirectory.handleEvents_eq h.proper hes, ← handleEvents_filter_range]
    rfl
  rw [htable]
  refine ⟨foldl_mirror_isProper h.proper hes, fun id => ?_⟩
  rw [row?_foldl_mirror h.proper hes (r.contentsAfter r.handed), window, ← contentsAfter_add]
  rfl

theorem Invariant.deliver (h : r.Invariant) (hread : ∀ e ∈ r.log, e.IsReadable r.node.keyspace)
    {count : Nat} (hle : r.handed + count ≤ r.log.length) :
    { r with
      node := r.node.handleEvents (inNamespace r.node.keyspace (r.window count))
      handed := r.handed + count }.Invariant := by
  obtain ⟨hproper, hrow⟩ := h.handleEvents_eq hread count
  refine ⟨h.follows, h.keyed, h.storable, hle, hproper, ?_⟩
  -- a table that shows the store at one place of the log moves along with the log
  have hahead : (∀ id, r.node.globalRows.row? id = r.rowAfter r.handed id) → ∀ id,
      (r.node.handleEvents (inNamespace r.node.keyspace (r.window count))).globalRows.row? id =
        r.rowAfter (r.handed + count) id := by
    intro htable id
    rw [hrow]
    split
    · rfl
    · next hne => rw [htable, rowAfter_add_of_ne hne]
  have hp := h.inPhase
  change InPhase { r with
    node := r.node.handleEvents (inNamespace r.node.keyspace (r.window count))
    handed := r.handed + count } r.phase
  cases hphase : r.phase with
  | idle =>
    rw [hphase] at hp
    exact hahead hp
  | scanned kvs n =>
    rw [hphase] at hp
    exact ⟨hp.1, hahead hp.2.1, hp.2.2⟩
  | committed n handed =>
    rw [hphase] at hp
    obtain ⟨hn, hhanded, htable⟩ := hp
    refine ⟨hn, hhanded.trans (Nat.le_add_right _ _), fun id => ?_⟩
    have htouched := touched_add_iff hhanded count id
    -- the rows that the import wrote stay until an event of the window concerns them
    by_cases hw : ∃ e ∈ r.window count, r.node.keyspace.parseKey e.key = some id
    · constructor
      · intro _
        exact (hrow id).trans (if_pos hw)
      · intro hno
        exact absurd (htouched.2 (.inr hw)) hno
    · have hsame := (hrow id).trans (if_neg hw)
      constructor
      · intro ht
        have ht' := (htouched.1 ht).resolve_right hw
        exact hsame.trans (((htable id).1 ht').trans (rowAfter_add_of_ne hw).symm)
      · intro hno
        exact hsame.trans ((htable id).2 fun ht => hno (htouched.2 (.inl ht)))

theorem importStep_read (n : Node) (kvs : List KeyValue) :
    importStep n (.read kvs) = .done (reconcileRead n kvs).2 (reconcileRead n kvs).1 := rfl

theorem Invariant.reconcile (h : r.Invariant) {kvs : List KeyValue} {n : Nat}
    (hphase : r.phase = .scanned kvs n) {node : Node} {result : ImportResult}
    (hstep : importStep r.node (.read kvs) = .done node result) :
    { r with node := node, phase := .committed n r.handed }.Invariant := by
  have hp := h.inPhase
  rw [hphase] at hp
  obtain ⟨hn, -, hst, hscan⟩ := hp
  obtain ⟨summary, t, ht, hproper, hrow⟩ := h.proper.reconcile_eq (decodeAll_isProper hst)
  simp only [importStep, reconcileRead, ht, Progress.done.injEq] at hstep
  obtain ⟨rfl, -⟩ := hstep
  refine ⟨h.follows, h.keyed, h.storable, h.handed_le, hproper, hn, le_rfl, fun id => ⟨?_, ?_⟩⟩
  · rintro ⟨e, he, -⟩
    have hnil : (r.log.take r.handed).drop r.handed = [] :=
      List.drop_of_length_le (by rw [List.length_take]; omega)
    change e ∈ (r.log.take r.handed).drop r.handed at he
    rw [hnil] at he
    cases he
  · exact fun _ => (hrow id).trans (hscan id)

theorem Invariant.scan (h : r.Invariant) {q : Request}
    {go : q.Answer → Node → Node × ImportStage} {a : q.Answer} {now : Nat} {s : Store} {node : Node}
    {kvs : List KeyValue} (hread : ∀ e ∈ { r with store := s }.log, e.IsReadable r.node.keyspace)
    (hphase : r.phase = .idle) (hstep : importStep r.node .start = .ask q go none)
    (hserve : r.store.serve now q = some (a, s)) (hgo : go a r.node = (node, .read kvs)) :
    { r with
      store := s, node := node,
      phase := .scanned kvs { r with store := s }.log.length }.Invariant := by
  have hs := h.with_store (Store.follows_serve hserve)
  cases hstep
  have hserved : s = r.store.touch now ∧
      a = .ok ((r.store.touch now).entries.filter fun key _ =>
        r.node.keyspace.range.contains key).values := by
    cases hserve
    exact ⟨rfl, rfl⟩
  obtain ⟨rfl, rfl⟩ := hserved
  cases hgo
  have hkeyed := hs.follows.keyed hs.keyed
  have hcontains : ∀ key id, r.node.keyspace.parseKey key = some id →
      r.node.keyspace.range.contains key = true := fun _ _ => Keyspace.range_contains_of_parseKey
  have hscan := find?_rowsById_decodeAll (k := r.node.keyspace) hkeyed hcontains
  have hidle := hs.inPhase
  change InPhase _ r.phase at hidle
  rw [hphase] at hidle
  refine ⟨hs.follows, hs.keyed, hs.storable, hs.handed_le, hs.proper, le_rfl, hidle, ?_, ?_⟩
  · intro row hrow
    have hr := (mem_decodeAll_iff hkeyed hcontains).1 hrow
    rw [contents_eq hs.follows] at hr
    exact hs.rowAfter_isStorable hread hr
  · intro id
    refine (hscan id).trans ?_
    rw [contents_eq hs.follows]
    rfl

theorem Step.log_prefix (h : Step r r') (hf : r.origin.Follows r.store) :
    r'.origin.Follows r'.store ∧ r.log <+: r'.log ∧ r'.node.keyspace = r.node.keyspace := by
  cases h with
  | store hs => exact ⟨hf.trans hs.follows, log_with_store hf hs.follows, rfl⟩
  | deliver count hle => exact ⟨hf, List.prefix_rfl, rfl⟩
  | scan now hphase hstep hserve hgo =>
    cases hstep
    have hs := Store.follows_serve hserve
    exact ⟨hf.trans hs, log_with_store hf hs, congrArg (fun p => p.1.keyspace) hgo.symm⟩
  | reconcile hphase hstep =>
    refine ⟨hf, List.prefix_rfl, ?_⟩
    simp only [importStep, reconcileRead] at hstep
    split at hstep <;> cases hstep <;> rfl

theorem Step.invariant (h : Step r r') (hi : r.Invariant)
    (hread : ∀ e ∈ r'.log, e.IsReadable r'.node.keyspace) : r'.Invariant := by
  obtain ⟨-, hlog, hk⟩ := h.log_prefix hi.follows
  have hread' : ∀ e ∈ r.log, e.IsReadable r.node.keyspace := fun e he =>
    hk ▸ hread e (hlog.subset he)
  cases h with
  | store hs => exact hi.with_store hs.follows
  | deliver count hle => exact hi.deliver hread' hle
  | scan now hphase hstep hserve hgo =>
    exact hi.scan (fun e he => hk ▸ hread e he) hphase hstep hserve hgo
  | reconcile hphase hstep => exact hi.reconcile hphase hstep

theorem Reachable.invariant (h : r.Reachable)
    (hread : ∀ e ∈ r.log, e.IsReadable r.node.keyspace) : r.Invariant := by
  obtain ⟨start, hstart, hrun⟩ := h
  have hrun' : r.origin.Follows r.store ∧
      ((∀ e ∈ r.log, e.IsReadable r.node.keyspace) → r.Invariant) := by
    clear hread
    induction hrun with
    | refl => exact ⟨hstart.invariant.follows, fun _ => hstart.invariant⟩
    | tail _ hstep ih =>
      obtain ⟨hf, hi⟩ := ih
      obtain ⟨hf', hlog, hk⟩ := hstep.log_prefix hf
      refine ⟨hf', fun hread => hstep.invariant (hi fun e he => ?_) hread⟩
      exact hk ▸ hread e (hlog.subset he)
  exact hrun'.2 hread

/-! ## The end of the race -/

theorem Invariant.decodedTable_eq (h : r.Invariant)
    (hread : ∀ e ∈ r.log, e.IsReadable r.node.keyspace) :
    (r.store.decodedTable r.node.keyspace).IsProper ∧
      ∀ id, (r.store.decodedTable r.node.keyspace).row? id = r.rowAfter r.log.length id := by
  have hkeyed := h.follows.keyed h.keyed
  have hst : ∀ row ∈ decodeAll r.node.keyspace r.store.entries.values, row.IsStorable := by
    intro row hrow
    have hr := (mem_decodeAll_values_iff hkeyed).1 hrow
    rw [contents_eq h.follows] at hr
    exact h.rowAfter_isStorable hread hr
  refine ⟨Store.decodedTable_isProper hst, fun id => ?_⟩
  rw [Store.row?_decodedTable hkeyed hst, contents_eq h.follows]
  rfl

/-- Once the import has committed and all events are handed over, the table is that of the
store exactly if every row that the import wrote from an older scan than the table had was set
right by a later event. An import that commits before an event newer than its scan is handed
over is harmless. -/
theorem globalRows_eq_iff (h : r.Reachable) (hread : ∀ e ∈ r.log, e.IsReadable r.node.keyspace)
    {scanned handed : Nat} (hphase : r.phase = .committed scanned handed)
    (hall : r.handed = r.log.length) :
    (r.node.globalRows = r.store.decodedTable r.node.keyspace ↔
      ∀ id, (∀ e ∈ r.log.drop handed, r.node.keyspace.parseKey e.key ≠ some id) →
        r.rowAfter scanned id = r.rowAfter handed id) ∧
    (handed ≤ scanned → r.node.globalRows = r.store.decodedTable r.node.keyspace) := by
  have hi := h.invariant hread
  obtain ⟨hproper, hdecoded⟩ := hi.decodedTable_eq hread
  have hp := hi.inPhase
  rw [hphase] at hp
  obtain ⟨hscanned, hhanded, htable⟩ := hp
  have huntouched : ∀ id, (∀ e ∈ r.log.drop handed, r.node.keyspace.parseKey e.key ≠ some id) →
      ¬ r.Touched handed r.handed id := by
    rintro id hno ⟨e, he, hk⟩
    rw [hall, List.take_length] at he
    exact hno e he hk
  -- an id that no later event concerns keeps its row
  have hlater : ∀ n, handed ≤ n → ∀ id,
      (∀ e ∈ r.log.drop handed, r.node.keyspace.parseKey e.key ≠ some id) →
      r.rowAfter n id = r.rowAfter handed id := by
    intro n hn id hno
    obtain ⟨m, rfl⟩ := Nat.exists_eq_add_of_le hn
    rw [rowAfter, rowAfter, contentsAfter_add]
    exact Keyspace.rowIn_replay_of_ne fun e he => hno e (List.mem_of_mem_take he)
  have hiff : r.node.globalRows = r.store.decodedTable r.node.keyspace ↔
      ∀ id, (∀ e ∈ r.log.drop handed, r.node.keyspace.parseKey e.key ≠ some id) →
        r.rowAfter scanned id = r.rowAfter handed id := by
    constructor
    · intro heq id hno
      have hrow := (htable id).2 (huntouched id hno)
      rw [heq, hdecoded, ← hall] at hrow
      rw [← hrow, hlater r.handed hhanded id hno]
    · intro hsame
      apply hi.proper.ext_row? hproper
      intro id
      rw [hdecoded, ← hall]
      by_cases ht : r.Touched handed r.handed id
      · exact (htable id).1 ht
      · have hno : ∀ e ∈ r.log.drop handed, r.node.keyspace.parseKey e.key ≠ some id :=
          fun e he hk => ht ⟨e, by rwa [hall, List.take_length], hk⟩
        rw [(htable id).2 ht, hsame id hno, hlater r.handed hhanded id hno]
  refine ⟨hiff, fun hle => hiff.2 fun id hno => hlater scanned hle id hno⟩

/-! A service is registered after the scan, handed over before the table is written, and gone. -/

def lateRow : Row := ⟨⟨"node", "http", "web"⟩, "localhost", 80, 30, "\x7b\x7d"⟩

def lateNode : Node := Node.init default .empty .empty

def lateStart : ImportRace := ⟨.empty 1, .empty 1, lateNode, 0, .idle⟩

def latePut : Request := .put (lateNode.keyspace.key lateRow.id) (Keyspace.valueOf lateRow) none

def lateScanned : ImportRace :=
  { lateStart with
    store := ((Store.empty 1).put 0 (lateNode.keyspace.key lateRow.id) (Keyspace.valueOf lateRow)
      none).2
    phase := .scanned [] 0 }

def lateHanded : ImportRace :=
  { lateScanned with
    node := lateNode.handleEvents (inNamespace lateNode.keyspace (lateScanned.window 1))
    handed := 1 }

def lateEnd : ImportRace :=
  { lateHanded with
    node := (reconcileRead lateHanded.node []).2
    phase := .committed 0 1 }

theorem lateEnd_reachable : lateEnd.Reachable := by
  have hstart : lateStart.IsStart :=
    ⟨rfl, rfl, rfl, (fun _ _ h => by cases h), (fun _ h => by cases h), rfl⟩
  have hscan : Step lateStart { lateStart with phase := .scanned [] 0 } :=
    .scan 0 rfl rfl rfl rfl
  have hput : (Store.empty 1).serve 0 latePut = some (.ok (), lateScanned.store) := rfl
  have hstore : Step { lateStart with phase := .scanned [] 0 } lateScanned := .store (.serve hput)
  have hhanded : Step lateScanned lateHanded := .deliver 1 (by decide +kernel)
  have hend : Step lateHanded lateEnd := .reconcile rfl (importStep_read _ _)
  exact ⟨lateStart, hstart, .tail (.tail (.tail (.tail .refl hscan) hstore) hhanded) hend⟩

theorem lateEvent_isReadable (revision : Int) :
    (Event.put (lateNode.keyspace.key lateRow.id) (Keyspace.valueOf lateRow) revision).IsReadable
      lateNode.keyspace := by
  have hdecode : lateNode.keyspace.decode (lateNode.keyspace.key lateRow.id)
      (Keyspace.valueOf lateRow) = some lateRow := by decide +kernel
  exact fun _ _ => ⟨lateRow, hdecode, by decide +kernel⟩

theorem lateEnd_isReadable : ∀ e ∈ lateEnd.log, e.IsReadable lateEnd.node.keyspace := by
  have hlog : lateEnd.log =
      [.put (lateNode.keyspace.key lateRow.id) (Keyspace.valueOf lateRow) 1] := by decide +kernel
  have hk : lateEnd.node.keyspace = lateNode.keyspace := by decide +kernel
  rw [hk, hlog]
  exact List.forall_mem_singleton.2 (lateEvent_isReadable 1)

theorem globalRows_eq_iff_lateEnd :
    lateEnd.Reachable ∧ (∀ e ∈ lateEnd.log, e.IsReadable lateEnd.node.keyspace) ∧
      lateEnd.phase = .committed 0 1 ∧ lateEnd.handed = lateEnd.log.length ∧
      (lateEnd.node.globalRows = lateEnd.store.decodedTable lateEnd.node.keyspace ↔
        ∀ id, (∀ e ∈ lateEnd.log.drop 1, lateEnd.node.keyspace.parseKey e.key ≠ some id) →
          lateEnd.rowAfter 0 id = lateEnd.rowAfter 1 id) :=
  have hall : lateEnd.handed = lateEnd.log.length := by decide +kernel
  ⟨lateEnd_reachable, lateEnd_isReadable, rfl, hall,
    (globalRows_eq_iff lateEnd_reachable lateEnd_isReadable rfl hall).1⟩

/-- The table need not end up as that of the store. -/
theorem not_forall_globalRows_eq : ¬ ∀ r : ImportRace, r.Reachable →
    (∀ e ∈ r.log, e.IsReadable r.node.keyspace) →
    ∀ scanned handed, r.phase = .committed scanned handed → r.handed = r.log.length →
      r.node.globalRows = r.store.decodedTable r.node.keyspace := by
  intro h
  have hne : lateEnd.node.globalRows ≠ lateEnd.store.decodedTable lateEnd.node.keyspace := by
    decide +kernel
  exact hne (h lateEnd lateEnd_reachable lateEnd_isReadable 0 1 rfl (by decide +kernel))

end ImportRace

end ServiceDirectory
