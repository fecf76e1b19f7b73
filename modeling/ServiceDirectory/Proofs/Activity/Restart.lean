import ServiceDirectory.Node.Creation
import ServiceDirectory.Proofs.Activity.Republishing
import ServiceDirectory.Proofs.Activity.Scene
import ServiceDirectory.Proofs.Registry.Timers
import ServiceDirectory.Proofs.Store.Leases
import ServiceDirectory.Proofs.Store.Reading

/-! # Starting again

A node that starts alone takes over the living lease that its pointer names, with the rows decoded
from the keys bound to it (`alone_inheriting`, `restore_resumed`), or else is granted a lease,
writes the pointer and has no rows (`alone_creating`). Whatever it hosted before is gone.
-/

namespace ServiceDirectory

open Activity

variable {me now later : Nat} {n n' : Node} {s s' : Store} {lease : Int} {k : Keyspace}
  {found : Found} {id : ServiceId} {row : Row}

/-! ## Rows that are left -/

theorem mem_decodeInherited_iff :
    row ∈ decodeInherited k found ↔ k.rowIn found row.id = some row := by
  rw [decodeInherited, List.mem_filterMap, Keyspace.rowIn_eq_some_iff]
  constructor
  · rintro ⟨⟨key, value⟩, hmem, hd⟩
    obtain rfl : key = k.key row.id := (Keyspace.decode_eq_some_iff.1 hd).2.1
    exact ⟨rfl, value, (Dictionary.find?_eq_some_iff _ _ _).2 hmem, hd⟩
  · rintro ⟨-, value, hf, hd⟩
    exact ⟨(k.key row.id, value), (Dictionary.find?_eq_some_iff _ _ _).1 hf, hd⟩

/-- No id has two rows, as none has two keys. -/
theorem decodeInherited_pairwise (k : Keyspace) (found : Found) :
    (decodeInherited k found).Pairwise fun a b => a.id ≠ b.id := by
  refine List.Pairwise.filterMap _ (fun e e' hne row hrow row' hrow' heq => hne ?_)
    found.entries_pairwise_ne
  rw [(Keyspace.decode_eq_some_iff.1 hrow).2.1, (Keyspace.decode_eq_some_iff.1 hrow').2.1, heq]

theorem lastFor_decodeInherited (k : Keyspace) (found : Found) (id : ServiceId) :
    Dictionary.lastFor id ((decodeInherited k found).map fun row => (row.id, row)) =
      k.rowIn found id := by
  have hpair : ((decodeInherited k found).map fun row => (row.id, row)).Pairwise
      fun a b => a.1 ≠ b.1 := List.pairwise_map.2 (decodeInherited_pairwise k found)
  cases hr : k.rowIn found id with
  | none =>
    refine Dictionary.lastFor_eq_none_iff.2 fun e he hid => ?_
    obtain ⟨row, hrow, rfl⟩ := List.mem_map.1 he
    rw [← hid, mem_decodeInherited_iff.1 hrow] at hr
    cases hr
  | some row =>
    obtain rfl := (Keyspace.rowIn_eq_some_iff.1 hr).1
    exact Dictionary.lastFor_of_mem hpair (List.mem_map_of_mem (mem_decodeInherited_iff.2 hr))

theorem Node.hostedRows_nodup (h : n.registry.IsProper) : n.hostedRows.Nodup := by
  obtain ⟨rows, hall, -, hne⟩ := h.rows.wellFormed.all_eq
  rw [hostedRows, hall]
  exact hne.imp fun hid heq => hid (congrArg Row.id heq)

/-- The node has this lease and the rows of these values, each with a timer that was armed at that
time. -/
structure Node.Resumed (n : Node) (lease : Int) (held : StoredValues) (time : Nat) : Prop where
  lease : n.lease = some lease
  rows : ∀ id, n.row? id = n.keyspace.rowIn held id
  timers : ∀ id, match n.row? id with
    | none => n.registry.timersFor id = []
    | some row => ∃ generation, n.registry.timersFor id = [⟨generation, row.ttl, time, false⟩]

theorem restore_resumed (hl : n.lease = some lease) (ht : n.registry.timers = Dictionary.empty)
    (hf : n.keyspace.FitsIn found) (later : Nat) : ∃ n',
      restore later n found = (.ok n'.hostedRows.length, n') ∧ n'.Resumed lease found later := by
  have hrows : ∀ row ∈ decodeInherited n.keyspace found, row.IsProper ∧ row.id.isValid = true :=
    fun row hrow =>
      isProper_of_mem_decodeInherited hrow (hf row.id row (mem_decodeInherited_iff.1 hrow))
  obtain ⟨r, hr, hp, harmed, hlast⟩ := Registry.restore_spec ht later hrows
  have hrow : ∀ id, r.rows.row? id = n.keyspace.rowIn found id := fun id =>
    (hlast id).trans (lastFor_decodeInherited n.keyspace found id)
  have hperm : (decodeInherited n.keyspace found).Perm
      (Node.hostedRows { n with registry := r }) := by
    have hnodup : (decodeInherited n.keyspace found).Nodup :=
      (decodeInherited_pairwise n.keyspace found).imp fun hid heq => hid (congrArg Row.id heq)
    have hhosted : (Node.hostedRows { n with registry := r }).Nodup := Node.hostedRows_nodup hp
    refine (List.perm_ext_iff_of_nodup hnodup hhosted).2 fun row => ?_
    have hmem : row ∈ Node.hostedRows { n with registry := r } ↔ r.rows.row? row.id = some row :=
      mem_hostedRows_iff hp
    rw [hmem, hrow, mem_decodeInherited_iff]
  refine ⟨{ n with registry := r }, ?_, hl, hrow, harmed.timersFor_spec⟩
  rw [restore, hr, hperm.length_eq]

/-! ## Acquiring alone -/

/-- The living lease that the pointer of the node names. -/
def Node.heir? (n : Node) (s : Store) : Option Int :=
  ((s.value? (utf8 n.settings.pointerKey)).bind leaseOfPointer?).filter s.leases.contains

theorem step_acquiring (me now maxTxnOps : Nat) (n : Node) (stage : AcquireStage) :
    (acquiring stage).step me now maxTxnOps n =
      (acquireStep maxTxnOps n stage).within acquiring fun n result => .done n (.acquired result) :=
  rfl

theorem alone_acquired (me now : Nat) (n : Node) (s : Store) (found : Found) :
    (acquiring (.finishing (.ok found))).Alone me now n s (.acquired (.ok found)) n s :=
  .done rfl

theorem alone_found (me : Nat) (n : Node) (hs : s.available = true) {o : Outcome}
    (hrest : (acquiring (match ((s.touch now).value? (utf8 n.settings.pointerKey)).bind
        leaseOfPointer? with
      | some lease => .pointed lease
      | none => .creating .start)).Alone me now n (s.touch now) o n' s') :
    acquire.Alone me now n s o n' s' := by
  have hget : s.ask? now (.get (utf8 n.settings.pointerKey)) =
      some (.ok ((s.touch now).value? (utf8 n.settings.pointerKey)), s.touch now) :=
    Store.ask?_eq_serve hs (by simp)
  exact .ask rfl hget hrest

theorem leaseStatus_isAlive (s : Store) (now : Nat) (lease : Int) :
    (s.leaseStatus now lease).isAlive = s.leases.contains lease := by
  unfold Store.leaseStatus Dictionary.contains
  cases s.leases.find? lease with
  | none => rfl
  | some l =>
    simp only [LeaseStatus.isAlive, Option.isSome_some, decide_eq_true_eq]
    omega

theorem alone_pointed (me : Nat) (n : Node) (hs : s.Serving now) (lease : Int) {o : Outcome}
    (hrest : (acquiring (if s.leases.contains lease then
        .alive lease (s.leaseStatus now lease).keys
      else .creating .start)).Alone me now n s o n' s') :
    (acquiring (.pointed lease)).Alone me now n s o n' s' := by
  have hstatus : s.ask? now (.leaseStatus lease) = some (.ok (s.leaseStatus now lease), s) := by
    rw [Store.ask?_eq_serve hs.available (by simp)]
    simp only [Store.serve, Store.touch_eq_self hs.expired]
    rfl
  refine .ask rfl hstatus ?_
  rw [← leaseStatus_isAlive s now lease] at hrest
  exact hrest

theorem alone_reading (me : Nat) (n : Node) (lease : Int) (hs : s.Serving now) (hk : s.IsKeyed)
    {batches : List (List Bytes)} (hlen : ∀ batch ∈ batches, batch.length ≤ s.maxTxnOps)
    {keys : List Bytes} (hread : s.IsRead keys found) : ∃ found',
      s.IsRead (keys ++ batches.flatten) found' ∧
      (acquiring (.inheriting lease (batches.map getOps) found)).Alone me now n s
        (.acquired (.ok found')) (n.adopt lease)
        { s with txnSizes := s.txnSizes ++ batches.map List.length } := by
  induction batches generalizing s keys found with
  | nil =>
    have hsizes : s.txnSizes ++ ([] : List (List Bytes)).map List.length = s.txnSizes :=
      List.append_nil _
    refine ⟨found, by simpa using hread, ?_⟩
    rw [hsizes]
    exact .move rfl (alone_acquired me now _ s found)
  | cons batch batches ih =>
    have hask := Store.ask?_gets hs.available hs.putsPaused hs.expired (hlen batch (.head _))
    let s₁ : Store := { s with txnSizes := s.txnSizes ++ [batch.length] }
    have hs₁ : s₁.Serving now := ⟨hs.available, hs.putsPaused, hs.expired⟩
    obtain ⟨found', hread', hrest⟩ := ih (s := s₁) hs₁ hk (fun b hb => hlen b (.tail _ hb))
      (hread.add hk batch)
    refine ⟨found', ?_, .ask rfl hask ?_⟩
    · rwa [List.append_assoc] at hread'
    · rw [List.append_assoc] at hrest
      exact hrest

theorem alone_inheriting (me : Nat) (n : Node) (hs : s.Serving now) (hk : s.IsKeyed)
    (hmax : 1 ≤ s.maxTxnOps) (hroom : hasRoom s.maxTxnOps = true)
    (hl : s.leases.contains lease = true) : ∃ sizes,
      (acquiring (.pointed lease)).Alone me now n s (.acquired (.ok (s.boundTo lease)))
        (n.adopt lease) { s with txnSizes := s.txnSizes ++ sizes } := by
  have hkeys : (s.leaseStatus now lease).keys =
      (s.entries.filter fun _ kv => kv.lease == lease).keys := by
    obtain ⟨l, hfound⟩ := Option.isSome_iff_exists.1 hl
    rw [Store.leaseStatus, hfound]
  let keys := (s.entries.filter fun _ kv => kv.lease == lease).keys
  let batches := batchesOf (max s.maxTxnOps 1) keys.length keys
  have hbatched : batched (getOps keys) s.maxTxnOps = batches.map getOps := by
    rw [batched, getOps, List.length_map, batchesOf_map]
    rfl
  have hflat : batches.flatten = keys := flatten_batchesOf (by omega) le_rfl
  have hlen : ∀ batch ∈ batches, batch.length ≤ s.maxTxnOps := fun batch hbatch =>
    (length_le_of_mem_batchesOf hbatch).trans (by rw [Nat.max_eq_left hmax])
  obtain ⟨found, hread, hrest⟩ := alone_reading me n lease hs hk hlen s.isRead_nil
  rw [List.nil_append, hflat] at hread
  rw [hread.eq_boundTo] at hrest
  refine ⟨batches.map List.length, alone_pointed me n hs lease ?_⟩
  rw [if_pos hl, hkeys]
  refine .move ?_ hrest
  rw [step_acquiring, acquireStep, if_pos hroom, hbatched]
  rfl

/-- Without room for a batch nothing can be read, not even if there is nothing to read. -/
theorem alone_overflowing (me : Nat) (n : Node) (hs : s.Serving now)
    (hroom : hasRoom s.maxTxnOps = false) (hl : s.leases.contains lease = true) :
    (acquiring (.pointed lease)).Alone me now n s .crashed (Activity.drop me n) s := by
  refine alone_pointed me n hs lease ?_
  rw [if_pos hl]
  refine .crash ?_
  rw [step_acquiring, acquireStep, hroom]
  rfl

/-- A lease that was not there was granted, and the key names it. It is bound to no lease, and no
other key was changed. -/
structure Store.Renames (now : Nat) (ttl : Int) (key : Bytes) (lease : Int) (s s' : Store) :
    Prop where
  fresh : s.leases.find? lease = none
  leases : s'.leases = s.leases.insert lease ⟨ttl, now + lifetime ttl⟩
  entries : s'.entries =
    s.entries.insert key ⟨key, utf8 (Text.intText lease), s.revision + 1, 0⟩
  broken : s'.broken = s.broken

def Store.withLease (s : Store) (now : Nat) (ttl : Int) : Store :=
  { s with
    lastLease := s.lastLease + 1
    leases := s.leases.insert (s.lastLease + 1) ⟨ttl, now + lifetime ttl⟩ }

theorem Store.Serving.ask?_grant (hs : s.Serving now) {ttl : Int}
    (hend : now + Store.lifetime ttl < Clock.horizon) :
    s.ask? now (.grant ttl) = some (.ok (s.lastLease + 1), s.withLease now ttl) := by
  have hdeadline : Store.deadline? now ttl = some (now + Store.lifetime ttl) := by
    rw [Store.deadline?_eq_some_iff]
    exact ⟨hend, rfl⟩
  have hgrant : s.grant now ttl = (s.lastLease + 1, s.withLease now ttl) := by
    unfold Store.grant Store.extend
    rw [Store.touch_eq_self hs.expired, hdeadline]
    rfl
  rw [Store.ask?_eq_serve hs.available (by simp), Store.serve, hgrant]
  rfl

theorem Store.Serving.withLease (hs : s.Serving now) {ttl : Int} (hpos : 0 < Store.lifetime ttl) :
    (s.withLease now ttl).Serving now := by
  refine ⟨hs.available, hs.putsPaused, Store.expired_eq_nil_iff.2 fun id l hl => ?_⟩
  rw [Store.withLease, Dictionary.find?_insert] at hl
  split at hl
  · cases hl
    exact Nat.lt_add_of_pos_right hpos
  · exact Store.expired_eq_nil_iff.1 hs.expired id l hl

theorem Store.Serving.ask?_put (hs : s.Serving now) (key value : Bytes) :
    s.ask? now (.put key value none) = some (.ok (), s.write key value none) := by
  rw [Store.ask?_eq_serve hs.available (by simp)]
  simp only [Store.serve, hs.putsPaused, Store.put, Store.touch_eq_self hs.expired]
  rfl

theorem Store.IsSound.find?_lastLease (h : s.IsSound now) :
    s.leases.find? (s.lastLease + 1) = none := by
  by_contra hne
  obtain ⟨l, hl⟩ := Option.ne_none_iff_exists'.1 hne
  have := (h.leases _ l hl).1
  omega

theorem alone_creating (me : Nat) (n : Node) (hs : s.Serving now) (hsound : s.IsSound now)
    (hpos : 0 < Store.lifetime n.settings.leaseTtl)
    (hend : now + Store.lifetime n.settings.leaseTtl < Clock.horizon) : ∃ lease s',
      s.Renames now n.settings.leaseTtl (utf8 n.settings.pointerKey) lease s' ∧
      (acquiring (.creating .start)).Alone me now n s (.acquired (.ok Dictionary.empty))
        (n.adopt lease) s' := by
  have hput := (hs.withLease hpos).ask?_put (utf8 n.settings.pointerKey)
    (utf8 (Text.intText (s.lastLease + 1)))
  obtain ⟨hentries, hleases, hbroken⟩ := (s.withLease now n.settings.leaseTtl).entries_write
    (utf8 n.settings.pointerKey) (utf8 (Text.intText (s.lastLease + 1))) none
  exact ⟨s.lastLease + 1, _, ⟨hsound.find?_lastLease, hleases, hentries, hbroken⟩,
    .ask rfl (hs.ask?_grant hend) (.ask rfl hput
      (.move rfl (.move rfl (alone_acquired me now _ _ _))))⟩

/-! ## Restarts -/

/-- A reachable store with the rows under a namespace as a run may have left it. -/
structure Store.IsLeft (s : Store) (k : Keyspace) (now : Nat) : Prop where
  available : s.available = true
  putsPaused : s.putsPaused = false
  keyed : s.IsKeyed
  sound : s.IsSound now
  fits : k.FitsIn s.contents

theorem Store.IsLeft.serving (h : s.IsLeft k now) : (s.touch now).Serving now := by
  obtain ⟨ha, hp, -⟩ := s.touch_settings now
  exact ⟨ha.trans h.available, hp.trans h.putsPaused, s.expired_touch now⟩

theorem Store.IsLeft.fits_boundTo (h : s.IsLeft k now) (lease : Int) :
    k.FitsIn ((s.touch now).boundTo lease) := by
  intro id row hrow
  obtain ⟨hid, value, hf, hd⟩ := Keyspace.rowIn_eq_some_iff.1 hrow
  refine (h.fits.touch now) id row (Keyspace.rowIn_eq_some_iff.2 ⟨hid, value, ?_, hd⟩)
  rw [Store.boundTo, Dictionary.find?_mapValues, Dictionary.find?_filter] at hf
  obtain ⟨kv, hkv, rfl⟩ := Option.map_eq_some_iff.1 hf
  rw [Store.contents, Dictionary.find?_mapValues, (Option.filter_eq_some_iff.1 hkv).1]
  rfl

theorem alone_crash (me : Nat) (n : Node) (h : s.IsLeft k now)
    (hlease : n.heir? (s.touch now) = some lease) (hroom : hasRoom s.maxTxnOps = false) :
    acquire.Alone me now n s .crashed (Activity.drop me n) (s.touch now) := by
  obtain ⟨hpointer, hl⟩ := Option.filter_eq_some_iff.1 hlease
  rw [← (s.touch_settings now).2.2] at hroom
  refine alone_found me n h.available ?_
  rw [hpointer]
  exact alone_overflowing me n h.serving hroom hl

/-- A node that starts, whatever it hosted before, has the living lease that its pointer names and
the rows that this lease holds; the store is as it was. There must be room for a batch. If the
pointer names no living lease, the node has a lease that was granted to it, and no rows. -/
theorem acquire_restore_of_isLeft (me later : Nat) (h : s.IsLeft n.keyspace now)
    (hmax : 1 ≤ s.maxTxnOps) (ht : n.registry.timers = Dictionary.empty) :
    (∀ lease, n.heir? (s.touch now) = some lease → hasRoom s.maxTxnOps = true → ∃ sizes n',
      acquire.Alone me now n s (.acquired (.ok ((s.touch now).boundTo lease))) (n.adopt lease)
        { s.touch now with txnSizes := (s.touch now).txnSizes ++ sizes } ∧
      restore later (n.adopt lease) ((s.touch now).boundTo lease) =
        (.ok n'.hostedRows.length, n') ∧
      n'.Resumed lease ((s.touch now).boundTo lease) later) ∧
    (∀ lease, n.heir? (s.touch now) = some lease → hasRoom s.maxTxnOps = false →
      acquire.Alone me now n s .crashed (Activity.drop me n) (s.touch now)) ∧
    (n.heir? (s.touch now) = none → 0 < Store.lifetime n.settings.leaseTtl →
      now + Store.lifetime n.settings.leaseTtl < Clock.horizon → ∃ lease s' n',
        (s.touch now).Renames now n.settings.leaseTtl (utf8 n.settings.pointerKey) lease s' ∧
        acquire.Alone me now n s (.acquired (.ok Dictionary.empty)) (n.adopt lease) s' ∧
        restore later (n.adopt lease) Dictionary.empty = (.ok 0, n') ∧
        n'.Resumed lease Dictionary.empty later ∧ n'.hostedRows = []) := by
  have hs := h.serving
  refine ⟨fun lease hlease hroom => ?_, fun lease hlease hroom => alone_crash me n h hlease hroom,
    fun hnone hpos hend => ?_⟩
  · have hk := (Store.follows_touch s now).keyed h.keyed
    obtain ⟨hpointer, hl⟩ := Option.filter_eq_some_iff.1 hlease
    rw [← (s.touch_settings now).2.2] at hmax hroom
    obtain ⟨sizes, halone⟩ := alone_inheriting me n hs hk hmax hroom hl
    obtain ⟨n', hrestore, hresumed⟩ :=
      restore_resumed (n := n.adopt lease) rfl ht (h.fits_boundTo lease) later
    refine ⟨sizes, n', alone_found me n h.available ?_, hrestore, hresumed⟩
    rw [hpointer]
    exact halone
  · have hsound := (Store.does_touch s now).isSound h.sound
    obtain ⟨lease, s', hrenames, halone⟩ := alone_creating me n hs hsound hpos hend
    obtain ⟨n', hrestore, hresumed⟩ := restore_resumed (n := n.adopt lease) rfl ht
      (Keyspace.fitsIn_empty _) later
    have hempty : restore later (n.adopt lease) Dictionary.empty = (.ok 0, { n.adopt lease with
        registry := { n.registry with rows := Table.empty } }) := rfl
    obtain rfl := congrArg Prod.snd (hempty.symm.trans hrestore)
    refine ⟨lease, s', _, hrenames, alone_found me n h.available ?_, hempty, hresumed, rfl⟩
    -- the pointer names no lease, or one that is gone
    cases hpointer : ((s.touch now).value? (utf8 n.settings.pointerKey)).bind leaseOfPointer? with
    | none => exact halone
    | some dead =>
      refine alone_pointed me n hs dead ?_
      have hdead : (s.touch now).leases.contains dead = false := by
        rw [Node.heir?, hpointer, Option.filter_some] at hnone
        simpa using hnone
      rw [hdead]
      exact halone

/-! A node that hosted another service starts again. Its pointer names a living lease, under which a
service is left. -/

def restartNode : Node :=
  Node.init (Config.standard "node").nodeSettings
    (Table.empty.write { Scene.webService.toRow with id := ⟨"node", "http", "old"⟩ }) .empty

def leftKey : Bytes := restartNode.keyspace.key Scene.webService.id

def leftStore (maxTxnOps : Nat) : Store :=
  (((Store.empty maxTxnOps).grant 0 60).2.seed 0 (utf8 restartNode.settings.pointerKey)
      (utf8 "7001") none).seed 0 leftKey (Keyspace.valueOf Scene.webService.toRow) (some 7001)

theorem leftStore_isUsed (maxTxnOps : Nat) : (leftStore maxTxnOps).IsUsed 0 :=
  (((Store.IsUsed.empty maxTxnOps 0).grant 60).seed ..).seed ..

theorem leftStore_isLeft (maxTxnOps : Nat) :
    (leftStore maxTxnOps).IsLeft restartNode.keyspace 0 where
  available := rfl
  putsPaused := rfl
  keyed := (leftStore_isUsed maxTxnOps).isKeyed
  sound := (leftStore_isUsed maxTxnOps).isSound
  fits := by
    have hc : (leftStore maxTxnOps).contents = replay
        [.put (utf8 restartNode.settings.pointerKey) (utf8 "7001") 1,
          .put leftKey (Keyspace.valueOf Scene.webService.toRow) 2] Dictionary.empty := rfl
    rw [hc]
    refine (Keyspace.fitsIn_empty _).replay fun e he => ?_
    rcases List.mem_pair.1 he with rfl | rfl
    · exact Event.fits_of_change?_eq_none (by decide +kernel)
    · have hrow : Scene.webService.toRow.IsStorable := by decide +kernel
      exact Event.fits_of_change? (c := .put Scene.webService.toRow) (by decide +kernel) hrow

def endless : Nat := 2 ^ 64 - 1

theorem restartNode_crash : acquire.Alone 0 0 restartNode (leftStore endless) .crashed
    (Activity.drop 0 restartNode) ((leftStore endless).touch 0) := by
  have hheir : restartNode.heir? ((leftStore endless).touch 0) = some 7001 := by decide +kernel
  exact alone_crash 0 restartNode (leftStore_isLeft endless) hheir (by decide +kernel)

theorem empty_isLeft (maxTxnOps : Nat) (k : Keyspace) : (Store.empty maxTxnOps).IsLeft k 0 :=
  ⟨rfl, rfl, nofun, Store.isSound_empty maxTxnOps 0, k.fitsIn_empty⟩

theorem acquire_restore_of_isLeft_leftStore : (leftStore 1).IsLeft restartNode.keyspace 0 ∧
    restartNode.heir? ((leftStore 1).touch 0) = some 7001 ∧
    (∃ sizes n',
      acquire.Alone 0 0 restartNode (leftStore 1)
        (.acquired (.ok (((leftStore 1).touch 0).boundTo 7001))) (restartNode.adopt 7001)
        { (leftStore 1).touch 0 with txnSizes := ((leftStore 1).touch 0).txnSizes ++ sizes } ∧
      restore 5 (restartNode.adopt 7001) (((leftStore 1).touch 0).boundTo 7001) =
        (.ok n'.hostedRows.length, n') ∧
      n'.Resumed 7001 (((leftStore 1).touch 0).boundTo 7001) 5) ∧
    restartNode.keyspace.rowIn (((leftStore 1).touch 0).boundTo 7001) Scene.webService.id =
      some Scene.webService.toRow ∧
    ∃ lease s', ((Store.empty 1).touch 0).Renames 0 60 (utf8 "/discovery-leases/node") lease s' ∧
      acquire.Alone 0 0 restartNode (Store.empty 1) (.acquired (.ok Dictionary.empty))
        (restartNode.adopt lease) s' := by
  have hheir : restartNode.heir? ((leftStore 1).touch 0) = some 7001 := by decide +kernel
  have hnone : restartNode.heir? ((Store.empty 1).touch 0) = none := by decide +kernel
  have hempty := acquire_restore_of_isLeft (n := restartNode) 0 5 (empty_isLeft 1 _) le_rfl rfl
  have hleft := acquire_restore_of_isLeft 0 5 (leftStore_isLeft 1) le_rfl rfl
  obtain ⟨lease, s', _, hrenames, halone, -⟩ :=
    hempty.2.2 hnone (by decide +kernel) (by decide +kernel)
  exact ⟨leftStore_isLeft 1, hheir, hleft.1 7001 hheir rfl, by decide +kernel, lease, s',
    hrenames, halone⟩

/-- A node whose pointer names a living lease need not come to have it. -/
theorem not_forall_inherited : ¬ ∀ (me now : Nat) (n : Node) (s : Store) (lease : Int),
    s.IsLeft n.keyspace now → 1 ≤ s.maxTxnOps → n.registry.timers = Dictionary.empty →
    n.heir? (s.touch now) = some lease → ∃ n' s',
      acquire.Alone me now n s (.acquired (.ok ((s.touch now).boundTo lease))) n' s' := by
  intro h
  obtain ⟨n', s', halone⟩ := h 0 0 restartNode (leftStore endless) 7001 (leftStore_isLeft endless)
    (by decide +kernel) rfl (by decide +kernel)
  cases (halone.det restartNode_crash).1

end ServiceDirectory
