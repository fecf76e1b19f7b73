import ServiceDirectory.Proofs.Activity.Alone
import ServiceDirectory.Proofs.Activity.Listing
import ServiceDirectory.Proofs.Message.Acceptance

/-! # The local rows over those of all services

A node shows its own row of an id, and else the one that the table of all services has. A list
request answers what is shown and matches the filters, in the order of the ids (`Node.Lists`). A
registration that succeeds makes a client see the service that it sent, as one of the node's own,
and nothing else anew (`listed_overlay`).
-/

namespace ServiceDirectory

open Activity

namespace Dictionary

variable {α β : Type} [Ord α] [Std.TransOrd α] [Std.LawfulEqOrd α] [DecidableEq α]

omit [Ord α] [Std.TransOrd α] [Std.LawfulEqOrd α] in
theorem lastFor_append (k : α) (a b : List (α × β)) :
    lastFor k (a ++ b) = (lastFor k b).or (lastFor k a) := by
  rw [lastFor, lastFor, lastFor, List.reverse_append, List.find?_append, Option.map_or]

variable {d : Dictionary α β} {f : β → α}

omit [Std.TransOrd α] in
/-- Of values that tell their own keys, one is found for a key. -/
theorem filter_values_eq (h : ∀ k v, d.find? k = some v → f v = k) (k : α) :
    (d.values.filter fun v => f v = k) = (d.find? k).toList := by
  rw [← map_filter_entries, values, List.filter_map]
  refine congrArg _ (List.filter_congr fun e he => ?_)
  rw [Function.comp_apply, h e.1 e.2 ((find?_eq_some_iff _ _ _).2 he)]

omit [Std.TransOrd α] in
theorem filter_values_ne (h : ∀ k v, d.find? k = some v → f v = k) (k : α) :
    (d.values.filter fun v => f v ≠ k) = (d.erase k).values := by
  rw [values, values, List.filter_map, erase, filter]
  refine congrArg _ (List.filter_congr fun e he => ?_)
  rw [Function.comp_apply, h e.1 e.2 ((find?_eq_some_iff _ _ _).2 he)]
  by_cases hk : e.1 = k
  · simp [hk]
  · simp [hk, Ne.symm hk]

end Dictionary

variable {n n' : Node} {id : ServiceId} {e : Row × Bool}

/-! ## What is shown -/

/-- The row that a node shows for an id, and whether it is its own. -/
def Node.shown? (n : Node) (id : ServiceId) : Option (Row × Bool) :=
  ((n.row? id).map (·, true)).or ((n.globalRows.row? id).map (·, false))

theorem Node.shown?_id (h : n.shown? id = some e) : e.1.id = id := by
  rcases Option.or_eq_some_iff.1 h with h | ⟨-, h⟩
  · obtain ⟨row, hrow, rfl⟩ := Option.map_eq_some_iff.1 h
    exact Table.row?_id hrow
  · obtain ⟨row, hrow, rfl⟩ := Option.map_eq_some_iff.1 h
    exact Table.row?_id hrow

theorem lastFor_rows {t : Table} {rows : List Row}
    (hmem : ∀ row, row ∈ rows ↔ t.row? row.id = some row)
    (hne : rows.Pairwise fun a b => a.id ≠ b.id) (own : Bool) (id : ServiceId) :
    Dictionary.lastFor id (rows.map fun r => (r.id, (r, own))) = (t.row? id).map (·, own) := by
  cases hr : t.row? id with
  | none =>
    refine Dictionary.lastFor_eq_none_iff.2 fun e he hid => ?_
    obtain ⟨row, hrow, rfl⟩ := List.mem_map.1 he
    have hrow := (hmem row).1 hrow
    rw [show row.id = id from hid, hr] at hrow
    cases hrow
  | some row =>
    obtain rfl := Table.row?_id hr
    exact Dictionary.lastFor_of_mem (List.pairwise_map.2 hne)
      (List.mem_map_of_mem (f := fun r : Row => (r.id, (r, own))) ((hmem row).2 hr))

theorem Node.exists_view (hl : n.registry.rows.IsWellFormed) (hg : n.globalRows.IsWellFormed) :
    ∃ view : Dictionary ServiceId (Row × Bool), (∀ id, view.find? id = n.shown? id) ∧
      ∀ instanceName serviceType, n.list instanceName serviceType =
        .ok (view.values.filter fun e => instanceName.all (· == e.1.id.instanceName) &&
          serviceType.all (· == e.1.id.serviceType)) := by
  obtain ⟨globals, hall, hglobals, hgne⟩ := hg.all_eq
  obtain ⟨locals, hall', hlocals, hlne⟩ := hl.all_eq
  refine ⟨.ofList (globals.map (fun r => (r.id, (r, false))) ++
    locals.map fun r => (r.id, (r, true))), fun id => ?_, fun instanceName serviceType => ?_⟩
  · rw [Dictionary.find?_ofList, Dictionary.lastFor_append, lastFor_rows hlocals hlne,
      lastFor_rows hglobals hgne]
    rfl
  · rw [Node.list, listRows, hall, hall']
    rfl

/-! ## List requests -/

/-- A filter that is absent or empty matches everything. -/
def IsMatch (filter : Option String) (s : String) : Prop := filter.getD "" = "" ∨ filter = some s

theorem all_filter?_iff (filter : Option String) (s : String) :
    (Node.filter? (filter.getD "")).all (· == s) = true ↔ IsMatch filter s := by
  cases filter with
  | none => simp [Node.filter?, IsMatch]
  | some x =>
    by_cases hx : x = ""
    · simp [Node.filter?, IsMatch, hx]
    · simp [Node.filter?, IsMatch, hx]

/-- The rows that a list request is about. -/
structure Node.Lists (n : Node) (instanceName serviceType : Option String)
    (rows : List (Row × Bool)) : Prop where
  ascending : rows.Pairwise fun a b => compare a.1.id b.1.id = .lt
  mem_iff : ∀ e, e ∈ rows ↔ n.shown? e.1.id = some e ∧
    IsMatch instanceName e.1.id.instanceName ∧ IsMatch serviceType e.1.id.serviceType

def Row.message? (row : Row) (isLocal : Bool) : Option ServiceInfo :=
  (Metadata.parse row.data).map fun m =>
    ⟨⟨some row.id, row.hostname, row.port.toUInt32, row.ttl, m.entries⟩, isLocal⟩

theorem Row.toOption_toInfo (row : Row) (isLocal : Bool) :
    (row.toInfo isLocal).toOption = row.message? isLocal := by
  unfold Row.toInfo Row.metadata Row.message?
  cases Metadata.parse row.data <;> rfl

theorem Node.answer_list (hready : n.registry.ready = true)
    {instanceName serviceType : Option String} {rows : List (Row × Bool)}
    (h : n.list (Node.filter? (instanceName.getD "")) (Node.filter? (serviceType.getD "")) =
      .ok rows) :
    n.answer (.ofFilters instanceName serviceType) =
      .ok (.inr (rows.filterMap fun e => e.1.message? e.2)) := by
  simp only [Node.answer, RegistryRequest.ofFilters, Node.listRequest, Node.ensureReady, hready,
    ↓reduceIte, h, ok_bind, ← Row.toOption_toInfo]
  rfl

theorem Node.exists_lists (hl : n.registry.rows.IsWellFormed) (hg : n.globalRows.IsWellFormed)
    (hready : n.registry.ready = true) (instanceName serviceType : Option String) :
    ∃ rows, n.Lists instanceName serviceType rows ∧
      n.answer (.ofFilters instanceName serviceType) =
        .ok (.inr (rows.filterMap fun e => e.1.message? e.2)) := by
  obtain ⟨view, hview, hlist⟩ := Node.exists_view hl hg
  have hid : ∀ id e, view.find? id = some e → e.1.id = id := fun id e h =>
    Node.shown?_id (hview id ▸ h)
  refine ⟨_, ⟨?_, fun e => ?_⟩, Node.answer_list hready (hlist _ _)⟩
  · have hkeys := view.ascending_keys
    rw [← Dictionary.map_values_eq_keys view hid, List.pairwise_map] at hkeys
    exact hkeys.filter _
  · rw [List.mem_filter, Bool.and_eq_true, all_filter?_iff, all_filter?_iff,
      Dictionary.mem_values_iff]
    refine and_congr_left fun _ => ?_
    constructor
    · rintro ⟨id, hf⟩
      rwa [hid id e hf, ← hview]
    · intro h
      exact ⟨e.1.id, (hview _).trans h⟩

/-! ## Registrations -/

section

variable {n₀ : Node} {row : Row} {me now : Nat} {store store' : Store} {o : Outcome}

/-- The node is ready as another one was, with these tables. -/
def Node.HasTables (n n₀ : Node) (locals globals : Table) : Prop :=
  n.registry.ready = n₀.registry.ready ∧ n.registry.rows = locals ∧ n.globalRows = globals

/-- A registration leaves the tables as they were, until it has a result. -/
def Activity.RowStage.Registers (n₀ : Node) (row : Row) (n : Node) : RowStage → Prop
  | .forwarding _ result | .finishing result => ∀ outcome, result = .ok outcome →
    n.HasTables n₀ (n₀.registry.rows.write row) n₀.globalRows
  | _ => n.HasTables n₀ n₀.registry.rows n₀.globalRows

theorem Activity.RowStage.Registers.moved {stage stage' : RowStage}
    (h : stage.Registers n₀ row n) (hp : n₀.registry.IsProper) (hrow : row.IsProper)
    (hm : RowAction.Moved n me now (.register row) stage n' stage') :
    stage'.Registers n₀ row n' := by
  cases hm with
  | claimed => exact h
  | took hown => exact h
  | entered hfree => exact h
  | performed =>
    obtain ⟨hready, hlocals, hglobals⟩ := h
    obtain ⟨outcome, hr, -⟩ := (hp.of_rows hlocals).register_eq now hrow
    simp only [RowAction.perform, hr]
    split
    · exact fun _ _ => ⟨hready, by rw [← hlocals]; rfl, hglobals⟩
    · exact fun _ _ => ⟨hready, by rw [← hlocals]; rfl, hglobals⟩
  | skipped result => exact h

theorem Activity.Alone.registered {stage : RowStage}
    (h : (Activity.row (.register row) stage).Alone me now n store o n' store')
    (hp : n₀.registry.IsProper) (hrow : row.IsProper) (hs : stage.Registers n₀ row n)
    (ho : o.success = true) : n'.HasTables n₀ (n₀.registry.rows.write row) n₀.globalRows := by
  generalize ha : Activity.row (.register row) stage = a at h
  induction h generalizing stage with
  | move hstep _ ih =>
    subst ha
    obtain ⟨stage', hmove, rfl⟩ | ⟨_, _, _, hdone⟩ := Progress.within_eq_move hstep
    · exact ih (hs.moved hp hrow (RowAction.moved_of_step hmove)) ho rfl
    · cases hdone
  | ask hstep _ _ ih =>
    subst ha
    obtain ⟨go, _, hask, hgo⟩ | ⟨_, _, _, hdone⟩ := Progress.within_eq_ask hstep
    · obtain ⟨result, rfl⟩ := RowAction.eq_of_step_ask hask
      cases hask
      rw [hgo] at ih
      have hs' : (RowStage.finishing result).Registers n₀ row _ := hs
      exact ih hs' ho rfl
    · cases hdone
  | done hstep =>
    subst ha
    obtain ⟨_, result, hend, hdone⟩ := Progress.within_eq_done hstep
    cases hdone
    obtain ⟨rfl, rfl⟩ := RowAction.eq_of_step_done hend
    cases result with
    | error e => cases ho
    | ok outcome => exact hs outcome rfl
  | crash _ => cases ho

theorem alone_finishing (n : Node) (store : Store) (a : RowAction) (result : RowResult) :
    (Activity.row a (.finishing result)).Alone me now n store (.row result)
      (n.releaseRow me a.id) store := .done rfl

theorem exists_ask?_put (now : Nat) (hp : store.putsPaused = false) (key value : Bytes)
    (lease : Option Int) :
    ∃ answer store', store.ask? now (.put key value lease) = some (answer, store') := by
  unfold Store.ask? Store.accept
  cases store.available with
  | true => exact ⟨_, _, by simp [Store.serve, hp]; rfl⟩
  | false => exact ⟨_, _, rfl⟩

/-- The result of a change stands, whatever comes of the write that follows. -/
theorem exists_alone_forwarding (me now : Nat) (hputs : store.putsPaused = false) (n : Node)
    (a : RowAction) (row : Row) (result : RowResult) : ∃ n' store',
      (Activity.row a (.forwarding (n.putRequest? row) result)).Alone me now n store (.row result)
        n' store' := by
  unfold Node.putRequest?
  split
  · next lease key value _ _ =>
    obtain ⟨answer, store', hask⟩ := exists_ask?_put now hputs key value (some lease)
    exact ⟨_, _, .ask rfl hask (alone_finishing n store' a result)⟩
  · exact ⟨_, _, .move rfl (alone_finishing n store a result)⟩

theorem exists_alone_register (me now : Nat) (hp : n.registry.IsProper) (hrow : row.IsProper)
    (hlocks : n.HasLocks me []) (hmutex : n.mutex = none) (hputs : store.putsPaused = false) :
    ∃ o n' store', (Activity.row (.register row) .start).Alone me now n store o n' store' ∧
      o.success = true := by
  obtain ⟨outcome, hr, -⟩ := hp.register_eq now hrow
  have howns : (n.claimRow me row.id).ownsRow me row.id = true :=
    (hlocks.claim List.not_mem_nil).ownsRow (List.mem_singleton_self _)
  have htake : (Activity.row (.register row) .queued).step me now store.maxTxnOps
      (n.claimRow me row.id) =
        .move ((n.claimRow me row.id).takeRow me row.id) (.row (.register row) .locked) := by
    rw [Activity.step, RowAction.step, RowAction.id, howns, if_pos rfl]
    rfl
  have henter : (Activity.row (.register row) .locked).step me now store.maxTxnOps
      ((n.claimRow me row.id).takeRow me row.id) =
        .move { (n.claimRow me row.id).takeRow me row.id with mutex := some me }
          (.row (.register row) .inside) := by
    have hfree : ((n.claimRow me row.id).takeRow me row.id).mutex.isNone = true := by
      rw [show ((n.claimRow me row.id).takeRow me row.id).mutex = n.mutex from rfl, hmutex]
      rfl
    rw [Activity.step, RowAction.step, hfree, if_pos rfl]
    rfl
  suffices hend : ∀ m : Node, m.registry = n.registry → ∃ o n' store',
      (Activity.row (.register row) ((RowAction.register row).perform now m).2).Alone me now
        ((RowAction.register row).perform now m).1 store o n' store' ∧ o.success = true by
    obtain ⟨o, n', store', hrest, ho⟩ :=
      hend { (n.claimRow me row.id).takeRow me row.id with mutex := none } rfl
    exact ⟨o, n', store', .move rfl (.move htake (.move henter (.move rfl hrest))), ho⟩
  intro m hm
  simp only [RowAction.perform, hm, hr]
  split
  · obtain ⟨n', store', h⟩ := exists_alone_forwarding me now hputs { m with
      registry := { n.registry with rows := n.registry.rows.write row }.arm now row.id row.ttl }
      (.register row) row (.ok outcome)
    exact ⟨_, n', store', h, rfl⟩
  · exact ⟨_, _, _, alone_finishing _ store (.register row) (.ok outcome), rfl⟩

end

/-! ## What a client sees -/

theorem Row.id_of_seen? {row : Row} {isLocal : Bool} {x : ListedService}
    (h : row.seen? isLocal = some x) : x.service.id = row.id := by
  obtain ⟨s, hs, rfl⟩ := Option.map_eq_some_iff.1 h
  cases hr : row.toService with
  | error e => rw [hr] at hs; cases hs
  | ok s' =>
    rw [hr] at hs
    cases hs
    obtain ⟨m, -, hmake⟩ := bind_eq_ok_iff.1 hr
    obtain ⟨-, -, -, rfl⟩ := Service.make_eq_ok_iff.1 hmake
    rfl

theorem filter_seen? (p : ServiceId → Bool) (rows : List (Row × Bool)) :
    ((rows.filterMap fun e => e.1.seen? e.2).filter fun x => p x.service.id) =
      (rows.filter fun e => p e.1.id).filterMap fun e => e.1.seen? e.2 := by
  rw [List.filter_filterMap, List.filterMap_filter]
  refine List.filterMap_congr fun e _ => ?_
  cases hs : e.1.seen? e.2 with
  | none => simp
  | some x =>
    rw [← Row.id_of_seen? hs]
    simp [Option.filter]

theorem Node.exists_seen (hl : n.registry.rows.IsWellFormed) (hg : n.globalRows.IsWellFormed)
    (hready : n.registry.ready = true) : ∃ (view : Dictionary ServiceId (Row × Bool)) (infos : _),
      (∀ id, view.find? id = n.shown? id) ∧ n.answer (.ofFilters none none) = .ok (.inr infos) ∧
      listedServices infos = view.values.filterMap fun e => e.1.seen? e.2 := by
  obtain ⟨view, hview, hlist⟩ := Node.exists_view hl hg
  have hall : n.list (Node.filter? "") (Node.filter? "") = .ok view.values := by
    rw [hlist]
    exact congrArg _ (List.filter_eq_self.2 fun _ _ => rfl)
  refine ⟨view, _, hview, Node.answer_list hready hall, ?_⟩
  simp only [← Row.toOption_toInfo]
  exact listedServices_filterMap_toInfo view.values

theorem Node.HasTables.shown? {row : Row}
    (h : n'.HasTables n (n.registry.rows.write row) n.globalRows)
    (hl : n.registry.rows.IsWellFormed) (hrow : row.IsStorable) (id : ServiceId) :
    n'.shown? id = if id = row.id then some (row, true) else n.shown? id := by
  obtain ⟨-, hlocals, hglobals⟩ := h
  rw [Node.shown?, Node.row?, hlocals, hglobals, hl.row?_write hrow]
  split <;> rfl

theorem Node.HasTables.exists_seen {s : Service}
    (h : n'.HasTables n (n.registry.rows.write s.toRow) n.globalRows)
    (hl : n.registry.rows.IsWellFormed) (hg : n.globalRows.IsWellFormed)
    (hready : n.registry.ready = true) (hrow : s.toRow.IsStorable)
    (hservice : s.toRow.toService = .ok s) : ∃ before after,
      n.answer (.ofFilters none none) = .ok (.inr before) ∧
      n'.answer (.ofFilters none none) = .ok (.inr after) ∧
      (listedServices after).filter (·.service.id = s.id) = [⟨s, true⟩] ∧
      (listedServices after).filter (·.service.id ≠ s.id) =
        (listedServices before).filter (·.service.id ≠ s.id) := by
  obtain ⟨view, before, hview, hbefore, hseen⟩ := Node.exists_seen hl hg hready
  obtain ⟨view', after, hview', hafter, hseen'⟩ := Node.exists_seen (n := n')
    (h.2.1 ▸ hl.write hrow) (h.2.2 ▸ hg) (h.1.trans hready)
  have hid : ∀ id e, view.find? id = some e → e.1.id = id := fun id e hf =>
    Node.shown?_id (hview id ▸ hf)
  have hid' : ∀ id e, view'.find? id = some e → e.1.id = id := fun id e hf =>
    Node.shown?_id (hview' id ▸ hf)
  have hfind : ∀ id, view'.find? id = if id = s.id then some (s.toRow, true) else view.find? id :=
    fun id => by rw [hview', hview, h.shown? hl hrow]; rfl
  refine ⟨before, after, hbefore, hafter, ?_, ?_⟩
  · have hown : s.toRow.seen? true = some ⟨s, true⟩ := by rw [Row.seen?, hservice]; rfl
    rw [hseen', filter_seen? (· = s.id), Dictionary.filter_values_eq hid', hfind, if_pos rfl,
      Option.toList_some, List.filterMap_cons, hown, List.filterMap_nil]
  · have herase : view'.erase s.id = view.erase s.id := by
      apply Dictionary.ext_find?
      intro id
      rw [Dictionary.find?_erase, Dictionary.find?_erase]
      split
      · rfl
      · next hne => rw [hfind, if_neg hne]
    rw [hseen, hseen', filter_seen? (· ≠ s.id), filter_seen? (· ≠ s.id),
      Dictionary.filter_values_ne hid, Dictionary.filter_values_ne hid', herase]

/-- A list request answers the rows of both tables in the order of their ids, those of the node over
those of all services, and leaves out only rows whose metadata cannot be read. After a registration
that succeeded a client sees the service that it sent, as one of the node's own, and of all others
what it saw before. -/
theorem listed_overlay (hl : n.registry.IsHosted) (hg : n.globalRows.IsWellFormed)
    (hready : n.registry.ready = true) :
    (∀ instanceName serviceType, ∃ rows, n.Lists instanceName serviceType rows ∧
      n.answer (.ofFilters instanceName serviceType) =
        .ok (.inr (rows.filterMap fun e => e.1.message? e.2))) ∧
    ∀ id hostname port ttl m s, Service.make id hostname port ttl m = .ok s →
      s.toRow.IsStorable → n.answer (.ofService s) = .ok (.inl (Activity.register s)) ∧
      (∀ me now store, n.HasLocks me [] → n.mutex = none → store.putsPaused = false →
        ∃ o n' store', (Activity.register s).Alone me now n store o n' store' ∧
          o.success = true) ∧
      ∀ me now store o n' store', (Activity.register s).Alone me now n store o n' store' →
        o.success = true → ∃ before after,
          n.answer (.ofFilters none none) = .ok (.inr before) ∧
          n'.answer (.ofFilters none none) = .ok (.inr after) ∧
          (listedServices after).filter (·.service.id = s.id) = [⟨s, true⟩] ∧
          (listedServices after).filter (·.service.id ≠ s.id) =
            (listedServices before).filter (·.service.id ≠ s.id) := by
  refine ⟨Node.exists_lists hl.wellFormed hg hready, fun id hostname port ttl m s hmake hrow => ?_⟩
  have hproper : s.toRow.IsProper := ⟨hrow, Row.isCanonical_toRow s⟩
  refine ⟨?_, fun me now store hlocks hmutex hputs =>
    exists_alone_register me now hl.isProper hproper hlocks hmutex hputs,
    fun me now store o n' store' h ho => ?_⟩
  · have hrequest := Service.toService_toRequest hmake
    simp only [Node.answer, RegistryRequest.ofService, Node.registerRequest, Node.ensureReady,
      hready, ↓reduceIte, hrequest, Node.valid, ok_bind]
    rfl
  · have hn := h.registered hl.isProper hproper ⟨rfl, rfl, rfl⟩ ho
    exact hn.exists_seen hl.wellFormed hg hready hrow (Service.toService_toRow hmake)

/-! A node hosts a service; the table of all services has an old row of another one of its own, and
a row that cannot be read. -/

def frontService : Service := ⟨⟨"node-1", "http", "front"⟩, "h", 80, 30, Dictionary.empty⟩

def mailService : Service := ⟨⟨"node-1", "smtp", "mail"⟩, "h", 25, 30, Dictionary.empty⟩

def oldRow : Row := ⟨frontService.id, "h", 8080, 30, "\x7b\x7d"⟩

def garbledRow : Row := ⟨⟨"node-2", "http", "web"⟩, "h", 80, 30, "x"⟩

def overlaidNode : Node :=
  setReady (.init default (Table.empty.write mailService.toRow)
    ((Table.empty.write garbledRow).write oldRow)) true

theorem make_mailService :
    Service.make mailService.id "h" 25 30 Dictionary.empty = .ok mailService :=
  Service.make_eq_ok_iff.2 ⟨by decide, by decide, by decide, rfl⟩

theorem make_frontService :
    Service.make frontService.id "h" 80 30 Dictionary.empty = .ok frontService :=
  Service.make_eq_ok_iff.2 ⟨by decide, by decide, by decide, rfl⟩

theorem listed_overlay_overlaid : overlaidNode.registry.IsHosted ∧
    overlaidNode.globalRows.IsWellFormed ∧ overlaidNode.registry.ready = true ∧
    frontService.toRow.IsStorable ∧
    (∃ rows, overlaidNode.Lists none (some "") rows ∧ (mailService.toRow, true) ∈ rows ∧
      (oldRow, false) ∈ rows ∧ (garbledRow, false) ∈ rows ∧ garbledRow.message? false = none ∧
      overlaidNode.answer (.ofFilters none (some "")) =
        .ok (.inr (rows.filterMap fun e => e.1.message? e.2))) ∧
    ∃ o n' store' before after,
      (Activity.register frontService).Alone 0 0 overlaidNode (Store.empty 1) o n' store' ∧
      o.success = true ∧ overlaidNode.answer (.ofFilters none none) = .ok (.inr before) ∧
      n'.answer (.ofFilters none none) = .ok (.inr after) ∧
      (listedServices after).filter (·.service.id = frontService.id) = [⟨frontService, true⟩] ∧
      (listedServices after).filter (·.service.id ≠ frontService.id) =
        (listedServices before).filter (·.service.id ≠ frontService.id) := by
  have hl : overlaidNode.registry.IsHosted :=
    Registry.isHosted_empty.write (.registered make_mailService) (by decide) rfl
  have hgarbled : garbledRow.IsStorable := by decide
  have hold : oldRow.IsStorable := by decide
  have hg : overlaidNode.globalRows.IsWellFormed :=
    (Table.isWellFormed_empty.write hgarbled).write hold
  have hlocks : overlaidNode.HasLocks 0 [] := ⟨RowLocks.sound_empty, fun _ => rfl⟩
  obtain ⟨hlists, hregister⟩ := listed_overlay hl hg rfl
  obtain ⟨rows, hrows, hanswer⟩ := hlists none (some "")
  have hrow : frontService.toRow.IsStorable := by decide
  obtain ⟨-, hrun, hseen⟩ := hregister _ _ _ _ _ _ make_frontService hrow
  obtain ⟨o, n', store', halone, ho⟩ := hrun 0 0 (Store.empty 1) hlocks rfl rfl
  obtain ⟨before, after, hresult⟩ := hseen _ _ _ _ _ _ halone ho
  refine ⟨hl, hg, rfl, hrow, ⟨rows, hrows, ?_, ?_, ?_, rfl, hanswer⟩, o, n', store', before, after,
    halone, ho, hresult⟩
  · exact (hrows.mem_iff _).2 ⟨by decide +kernel, .inl rfl, .inl rfl⟩
  · exact (hrows.mem_iff _).2 ⟨by decide +kernel, .inl rfl, .inl rfl⟩
  · exact (hrows.mem_iff _).2 ⟨by decide +kernel, .inl rfl, .inl rfl⟩

end ServiceDirectory
