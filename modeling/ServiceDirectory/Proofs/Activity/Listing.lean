import ServiceDirectory.Proofs.Activity.Intake
import ServiceDirectory.Proofs.Keyspace.Validity
import ServiceDirectory.Registry.Requests

/-! # What a client is told

A node lists the rows of its two tables and leaves none out. A client that makes services of them
again finds those that are complete; an incomplete row stays in the tables without ever being seen
by a client (`decoded_seen_iff_complete`).
-/

namespace ServiceDirectory

open Relation

variable {n : Node} {row : Row} {e : Row × Bool}

theorem Row.IsHosted.toService_iff (h : row.IsHosted) :
    (∃ s, row.toService = .ok s) ↔ row.IsComplete := h.isFaithful.toService_iff h.isValid

/-- What a client makes of a listed row. -/
def Row.seen? (row : Row) (isLocal : Bool) : Option ListedService :=
  row.toService.toOption.map (⟨·, isLocal⟩)

theorem Row.isSome_seen?_iff {isLocal : Bool} :
    (row.seen? isLocal).isSome = true ↔ ∃ s, row.toService = .ok s := by
  rw [Row.seen?, Option.isSome_map]
  cases row.toService <;> simp [Except.toOption]

theorem mem_of_mem_overlay {locals globals : List Row} (h : e ∈ overlay locals globals) :
    e.1 ∈ locals ∨ e.1 ∈ globals := by
  obtain ⟨id, hf⟩ := (Dictionary.mem_values_iff _ _).1 h
  rw [Dictionary.find?_ofList] at hf
  rcases List.mem_append.1 (Dictionary.mem_of_lastFor hf) with hm | hm
  · obtain ⟨r, hr, heq⟩ := List.mem_map.1 hm
    cases heq
    exact .inr hr
  · obtain ⟨r, hr, heq⟩ := List.mem_map.1 hm
    cases heq
    exact .inl hr

theorem Node.IsFilled.exists_list (h : n.IsFilled) (instanceName serviceType : Option String) :
    ∃ rows, n.list instanceName serviceType = .ok rows ∧ ∀ e ∈ rows, e.1.IsHosted := by
  obtain ⟨globals, hg, hglobals, -⟩ := h.known.wellFormed.all_eq
  obtain ⟨locals, hl, hlocals, -⟩ := h.hosted.wellFormed.all_eq
  have hlist : n.list instanceName serviceType = .ok ((overlay locals globals).filter fun e =>
      instanceName.all (· == e.1.id.instanceName) &&
        serviceType.all (· == e.1.id.serviceType)) := by
    rw [Node.list, listRows, hg, hl]
    rfl
  refine ⟨_, hlist, fun e he => ?_⟩
  rcases mem_of_mem_overlay (List.mem_filter.1 he).1 with hm | hm
  · exact h.hosted.row _ _ ((hlocals _).1 hm)
  · exact (h.known.row _ _ ((hglobals _).1 hm)).isHosted

/-- A hosted row has a message, of which a client makes what the node makes of the row. -/
theorem Row.IsHosted.exists_toInfo (h : row.IsHosted) (isLocal : Bool) : ∃ info,
    row.toInfo isLocal = .ok info ∧ info.isLocal = isLocal ∧ info.toService = row.toService := by
  obtain ⟨m, hm⟩ := h.isFaithful.isCanonical.exists_metadata
  exact Row.toInfo_toService hm isLocal

section

variable {rows : List (Row × Bool)}

theorem length_filterMap_toInfo (h : ∀ e ∈ rows, e.1.IsHosted) :
    (rows.filterMap fun e => (e.1.toInfo e.2).toOption).length = rows.length := by
  refine List.filterMap_length_eq_length.2 fun e he => ?_
  obtain ⟨info, hinfo, -⟩ := (h e he).exists_toInfo e.2
  rw [hinfo]
  rfl

theorem listedServices_filterMap_toInfo (rows : List (Row × Bool)) :
    listedServices (rows.filterMap fun e => (e.1.toInfo e.2).toOption) =
      rows.filterMap fun e => e.1.seen? e.2 := by
  rw [listedServices, List.filterMap_filterMap]
  refine List.filterMap_congr fun e _ => ?_
  cases hm : e.1.metadata with
  | error fault =>
    simp [Row.toInfo, Row.seen?, Row.toService, hm, Except.toOption, bind, Except.bind]
  | ok m =>
    obtain ⟨info, hinfo, hlocal, hservice⟩ := Row.toInfo_toService hm e.2
    simp only [hinfo, Except.toOption, Option.bind_some, Row.seen?, hservice, hlocal]
    cases e.1.toService <;> rfl

end

/-- A decoded row is a valid service just if its ttl is not zero and no key of its metadata is
empty, and a client makes of its message what the node makes of the row. So in every state of a node
the services that a client sees are those of the complete rows. -/
theorem decoded_seen_iff_complete (space : String) (key value : Bytes) (c : Crew) :
    (∀ row, (Keyspace.ofNamespace space).decode key value = some row →
      ((∃ s, row.toService = .ok s) ↔ row.IsComplete) ∧
      ∀ isLocal, ∃ info, row.toInfo isLocal = .ok info ∧ info.toService = row.toService) ∧
    (c.IsRun →
      (∀ id row, c.node.globalRows.row? id = some row → row.IsDecoded) ∧
      (∀ id row, c.node.registry.rows.row? id = some row → row.IsHosted) ∧
      (c.node.registry.ready = true → ∀ instanceName serviceType, ∃ rows infos,
        c.node.list (Node.filter? instanceName) (Node.filter? serviceType) = .ok rows ∧
        c.node.listRequest instanceName serviceType = .ok infos ∧
        infos.length = rows.length ∧
        listedServices infos = rows.filterMap (fun e => e.1.seen? e.2) ∧
        ∀ e ∈ rows, (e.1.seen? e.2).isSome = true ↔ e.1.IsComplete)) := by
  refine ⟨fun row h => ?_, fun hc => ?_⟩
  · have hhosted : row.IsHosted := .restored h
    refine ⟨hhosted.toService_iff, fun isLocal => ?_⟩
    obtain ⟨info, hinfo, -, hservice⟩ := hhosted.exists_toInfo isLocal
    exact ⟨info, hinfo, hservice⟩
  · have hn := hc.isFilled.node
    refine ⟨hn.known.row, hn.hosted.row, fun hready instanceName serviceType => ?_⟩
    obtain ⟨rows, hrows, hall⟩ :=
      hn.exists_list (Node.filter? instanceName) (Node.filter? serviceType)
    refine ⟨rows, _, hrows, ?_, length_filterMap_toInfo hall, listedServices_filterMap_toInfo rows,
      fun e he => Row.isSome_seen?_iff.trans (hall e he).toService_iff⟩
    simp only [Node.listRequest, Node.ensureReady, hready, ↓reduceIte, hrows, ok_bind]
    rfl

/-! A scan finds a complete row, and one with a ttl of zero. -/

def idleEntry : KeyValue where
  key := utf8 "/discovery/node-2/http/idle"
  value := utf8 "\x7b\"hostname\":\"h\",\"port\":\"80\",\"ttl\":\"0\"\x7d"
  revision := 1
  lease := 0

def webEntry : KeyValue where
  key := utf8 "/discovery/node-2/http/web"
  value := utf8 "\x7b\"hostname\":\"h\",\"port\":80,\"ttl\":\" 30\",\"tls\":true\x7d"
  revision := 2
  lease := 0

def idleRow : Row := ⟨⟨"node-2", "http", "idle"⟩, "h", 80, 0, "\x7b\x7d"⟩

def seenService : Service :=
  ⟨⟨"node-2", "http", "web"⟩, "h", 80, 30, Dictionary.ofList [("tls", "true")]⟩

theorem decode_idleEntry :
    (Keyspace.ofNamespace "/discovery").decode idleEntry.key idleEntry.value = some idleRow := by
  decide +kernel

theorem not_exists_toService_idleRow : ¬ ∃ s, idleRow.toService = .ok s := by
  have h : ¬ (idleRow.seen? false).isSome := by decide +kernel
  exact mt Row.isSome_seen?_iff.2 h

def scanSettings : NodeSettings :=
  { (default : NodeSettings) with keyspace := .ofNamespace "/discovery" }

def scannedNode : Node :=
  Activity.setReady (Activity.reconcileRead (.init scanSettings .empty .empty)
    [idleEntry, webEntry]).2 true

theorem Crew.exists_import (n : Node) {kvs : List KeyValue}
    (hs : ∀ row ∈ Activity.decodeAll n.keyspace kvs, row.IsStorable) : ∃ tasks,
      ReflTransGen Turn ⟨n, fun _ => none⟩ ⟨(Activity.reconcileRead n kvs).2, tasks⟩ := by
  have hasked : (Activity.importOnce.step 0 0 1 n).Leads n n (some (.importing (.read kvs))) :=
    Progress.Leads.answered (q := .getRange (.withPrefix n.keyspace.beginning)) (.ok kvs)
  have hread : ((Activity.importing (.read kvs)).step 0 0 1 n).Leads n
      (Activity.reconcileRead n kvs).2 none := .done _ _
  exact ⟨_, ((ReflTransGen.single (.started rfl (.fresh .importOnce))).tail
    (.goOn 0 1 (tasks_set_self _ 0 _ _) (fun _ hi => by cases hi) hasked)).tail
    (.goOn 0 1 (tasks_set_self _ 0 _ _) (fun i hi => by cases hi; exact hs) hread)⟩

theorem Crew.exists_isRun_import (settings : NodeSettings) {kvs : List KeyValue}
    (hs : ∀ row ∈ Activity.decodeAll settings.keyspace kvs, row.IsStorable) : ∃ tasks, Crew.IsRun
      ⟨Activity.setReady (Activity.reconcileRead (.init settings .empty .empty) kvs).2 true,
        tasks⟩ := by
  generalize hn : Node.init settings .empty .empty = n
  have hk : n.keyspace = settings.keyspace := hn ▸ rfl
  obtain ⟨tasks, h⟩ := Crew.exists_import n (hk ▸ hs)
  refine ⟨tasks, settings, ?_⟩
  rw [hn]
  exact h.tail (.elsewhere rfl)

theorem decoded_seen_iff_complete_scanned : ∃ tasks, Crew.IsRun ⟨scannedNode, tasks⟩ ∧
    scannedNode.registry.ready = true ∧
    (Keyspace.ofNamespace "/discovery").decode idleEntry.key idleEntry.value = some idleRow ∧
    (Keyspace.ofNamespace "/discovery").decode webEntry.key webEntry.value =
      some seenService.toRow ∧
    ¬ idleRow.IsComplete ∧ seenService.toRow.IsComplete ∧
    ∃ infos, scannedNode.listRequest "" "" = .ok infos ∧ infos.length = 2 ∧
      listedServices infos = [⟨seenService, false⟩] := by
  have hs : ∀ row ∈ Activity.decodeAll scanSettings.keyspace [idleEntry, webEntry],
      row.IsStorable := by
    decide +kernel
  have hweb : (Keyspace.ofNamespace "/discovery").decode webEntry.key webEntry.value =
      some seenService.toRow := by
    decide +kernel
  have hlist : scannedNode.list (Node.filter? "") (Node.filter? "") =
      .ok [(idleRow, false), (seenService.toRow, false)] := by
    decide +kernel
  obtain ⟨tasks, hrun⟩ := Crew.exists_isRun_import scanSettings hs
  obtain ⟨hidle, -⟩ :=
    decoded_seen_iff_complete "/discovery" idleEntry.key idleEntry.value ⟨scannedNode, tasks⟩
  obtain ⟨hseen, hruns⟩ :=
    decoded_seen_iff_complete "/discovery" webEntry.key webEntry.value ⟨scannedNode, tasks⟩
  obtain ⟨-, -, hlisted⟩ := hruns hrun
  obtain ⟨rows, infos, hrows, hinfos, hlength, hservices, -⟩ := hlisted rfl "" ""
  obtain rfl := Except.ok.inj (hlist.symm.trans hrows)
  refine ⟨tasks, hrun, rfl, decode_idleEntry, hweb, fun hc => ?_, ?_, infos, hinfos, hlength, ?_⟩
  · exact not_exists_toService_idleRow ((hidle _ decode_idleEntry).1.2 hc)
  · exact (hseen _ hweb).1.1 ⟨seenService, by decide +kernel⟩
  · exact hservices.trans (by decide +kernel)

/-- Not everything that is decoded is a valid service: a ttl of zero is let in. -/
theorem not_forall_decoded_seen : ¬ ∀ space key value row,
    (Keyspace.ofNamespace space).decode key value = some row → (∃ s, row.toService = .ok s) ∧
      ∀ isLocal, ∃ info s, row.toInfo isLocal = .ok info ∧ info.toService = .ok s := by
  intro h
  exact not_exists_toService_idleRow (h _ _ _ _ decode_idleEntry).1

end ServiceDirectory
