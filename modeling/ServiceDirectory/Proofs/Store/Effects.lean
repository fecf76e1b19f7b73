import Mathlib.Logic.Relation
import ServiceDirectory.Proofs.Store.Changes

/-! # Effects on the store

Whatever is done to a store comes down to a few effects: the keys change, a lease ends, is granted
or renewed, a stream or a watch is opened or used, or the network comes and goes. Each operation has
one lemma that tells its effects, and requests have one (`served_of_serve`). What every effect
preserves, or every effect on other things, is preserved by all that a store does (`Does.lift`).
-/

namespace ServiceDirectory

namespace Store

/-- What an effect is about. Of the leases, those whose time is up are apart; what is `fresh` has
not been there before. -/
inductive Subject
  | keys
  | due
  | lease (id : Int)
  | stream (id : Nat)
  | watch (id : Nat)
  | network
  | fresh
  deriving DecidableEq

variable {s s' s'' : Store} {now id : Nat} {x : Subject} {xs ys : List Subject}

def addStream (s : Store) : Store :=
  { s with
    nextStream := s.nextStream + 1
    heartbeats := s.heartbeats ++ [Heartbeat.mk s.nextStream [] .answering true] }

inductive Effect (now : Nat) : Subject → Store → Store → Prop
  | commit {s : Store} {entries : Dictionary Bytes KeyValue} {events : List Event} :
      s.Change entries events → Effect now .keys s (s.commit entries events)
  | expire {s : Store} {id : Int} {l : Lease} :
      s.leases.find? id = some l → l.expiresAt ≤ now → Effect now .due s (s.release id)
  | revoke (s : Store) (id : Int) : Effect now (.lease id) s (s.release id)
  | grant {s : Store} {ttl : Int} {time : Nat} : deadline? now ttl = some time →
      Effect now .fresh s { s with
        lastLease := s.lastLease + 1
        leases := s.leases.insert (s.lastLease + 1) ⟨ttl, time⟩ }
  | renew {s : Store} {id : Int} {l : Lease} {time : Nat} :
      s.leases.find? id = some l → deadline? now l.grantedTtl = some time →
      Effect now .fresh s { s with leases := s.leases.insert id ⟨l.grantedTtl, time⟩ }
  | count (s : Store) {lastLease : Int} (txnSizes : List Nat) (keepAlives : Nat) (broken : Bool) :
      s.lastLease ≤ lastLease →
      Effect now .fresh s { s with lastLease, txnSizes, keepAlives, broken }
  | openStream (s : Store) : Effect now .fresh s s.addStream
  | openWatch (s : Store) (range : KeyRange) (pending : List (Except Error Batch)) :
      Effect now .fresh s { s with
        nextStream := s.nextStream + 1
        feeds := s.feeds ++ [Feed.mk s.nextStream range pending true] }
  | useStream (s : Store) (id : Nat) {f : Heartbeat → Heartbeat} : (∀ h, (f h).id = h.id) →
      Effect now (.stream id) s (s.updateHeartbeat id f)
  | useWatch {s : Store} {id : Nat} {feeds : List Feed} :
      (∀ f ∈ feeds, ∃ g ∈ s.feeds, g.id = f.id) →
      (∀ id' ≠ id, feeds.find? (·.id == id') = s.feeds.find? (·.id == id')) →
      Effect now (.watch id) s { s with feeds }
  | network {s : Store} {feeds : List Feed} {heartbeats : List Heartbeat}
      (available putsPaused : Bool) :
      feeds.map Feed.id = s.feeds.map Feed.id →
      heartbeats.map Heartbeat.id = s.heartbeats.map Heartbeat.id →
      Effect now .network s { s with available, putsPaused, feeds, heartbeats }

/-- One effect after the other, each on one of the subjects. -/
def Does (now : Nat) (xs : List Subject) : Store → Store → Prop :=
  Relation.ReflTransGen fun s s' => ∃ x ∈ xs, Effect now x s s'

theorem Does.refl : Does now xs s s := Relation.ReflTransGen.refl

theorem Effect.does (h : Effect now x s s') (hx : x ∈ xs) : Does now xs s s' := .single ⟨x, hx, h⟩

theorem Does.trans (h : Does now xs s s') (h' : Does now xs s' s'') : Does now xs s s'' :=
  Relation.ReflTransGen.trans h h'

/-- What each effect brings about, and what goes over from step to step, all effects bring about. -/
theorem Does.lift {r : Store → Store → Prop} (h : Does now xs s s') (hrefl : ∀ s, r s s)
    (htrans : ∀ {s s' s''}, r s s' → r s' s'' → r s s'')
    (heffect : ∀ {x s s'}, x ∈ xs → Effect now x s s' → r s s') : r s s' := by
  induction h with
  | refl => exact hrefl s
  | tail _ he ih =>
    obtain ⟨x, hx, he⟩ := he
    exact htrans ih (heffect hx he)

/-- What each effect preserves, all effects preserve. -/
theorem Does.preserves {P : Store → Prop} (h : Does now xs s s')
    (heffect : ∀ {x s s'}, x ∈ xs → Effect now x s s' → P s → P s') (hs : P s) : P s' :=
  h.lift (r := fun s s' => P s → P s') (fun _ => id) (fun h h' => h' ∘ h) heffect hs

theorem Does.mono (h : Does now xs s s') (hsub : xs ⊆ ys) : Does now ys s s' :=
  h.lift (fun _ => .refl) .trans fun hx he => he.does (hsub hx)

theorem Effect.kept (h : Effect now x s s') (hx : x ≠ .keys) : s.Kept s' := by
  cases h with
  | commit _ => exact absurd rfl hx
  | _ => exact ⟨rfl, rfl, rfl⟩

theorem Does.kept (h : Does now xs s s') (hx : .keys ∉ xs) : s.Kept s' :=
  h.lift .refl .trans fun hm he => he.kept (ne_of_mem_of_not_mem hm hx)

/-! ## Keys and leases -/

theorem Performs.does {ops : List TxnOp} (h : s.Performs ops s') : Does now [.keys] s s' := by
  cases h with
  | nothing _ => exact .refl
  | commit _ hc => exact (Effect.commit hc).does (.head _)

theorem does_dropLease_of {id : Int}
    (h : s.leases.contains id = true → Effect now x s (s.release id)) :
    Does now [.keys, x] s (s.dropLease id) := by
  have hd := s.drops_dropLease id
  generalize s.dropLease id = s' at hd
  cases hd with
  | absent _ => exact .refl
  | unbound hc _ => exact (h hc).does (by simp)
  | bound hc _ hchange =>
    exact ((h hc).does (by simp)).trans ((Effect.commit hchange).does (.head _))

theorem does_dropLease (now : Nat) (s : Store) (id : Int) :
    Does now [.keys, .lease id] s (s.dropLease id) := does_dropLease_of fun _ => .revoke s id

theorem does_touch (s : Store) (now : Nat) : Does now [.keys, .due] s (s.touch now) := by
  have hdue : ∀ id ∈ s.expired now, ∀ l, s.leases.find? id = some l → l.expiresAt ≤ now := by
    intro id hid l hl
    obtain ⟨l', hl', hle⟩ := mem_expired_iff.1 hid
    cases hl.symm.trans hl'
    exact hle
  unfold touch
  generalize s.expired now = ids at hdue
  induction ids generalizing s with
  | nil => exact .refl
  | cons id ids ih =>
    -- dropping one lease leaves the others of the list as they are, and due
    refine (does_dropLease_of fun hc => ?_).trans (ih _ fun id' hid' l hl => ?_)
    · obtain ⟨l, hl⟩ := Option.isSome_iff_exists.1 hc
      exact .expire hl (hdue id (.head _) l hl)
    · rw [find?_leases_dropLease] at hl
      split at hl
      · cases hl
      · exact hdue id' (.tail _ hid') l hl

theorem does_seed (s : Store) (now : Nat) (key value : Bytes) (lease : Option Int) :
    Does now [.keys, .due] s (s.seed now key value lease) :=
  (does_touch s now).trans ((performs_write _ key value lease).does.mono (by simp))

theorem does_revoke (s : Store) (now : Nat) (id : Int) :
    Does now [.keys, .due, .lease id] s (s.revoke now id) :=
  ((does_touch s now).mono (by simp)).trans ((does_dropLease now _ id).mono (by simp))

theorem does_grant (s : Store) (now : Nat) (ttl : Int) :
    Does now [.fresh] (s.touch now) (s.grant now ttl).2 := by
  unfold grant extend
  generalize s.touch now = s
  simp only
  split
  · next time hd => exact (Effect.grant hd).does (.head _)
  · exact (Effect.count s _ _ _ (Int.le_add_one le_rfl)).does (.head _)

theorem does_renew (s : Store) (now : Nat) (id : Int) :
    Does now [.fresh] (s.touch now) (s.renew now id).2 := by
  unfold renew extend
  generalize s.touch now = s
  have hcount : ∀ broken, Does now [.fresh] s { s with keepAlives := s.keepAlives + 1, broken } :=
    fun broken => (Effect.count s _ _ broken le_rfl).does (.head _)
  simp only
  split
  · exact hcount s.broken
  · next l hl =>
    dsimp only
    split
    · next time hd =>
      have hrenew : Effect now .fresh { s with keepAlives := s.keepAlives + 1 } _ := .renew hl hd
      exact (hcount s.broken).trans (hrenew.does (.head _))
    · exact hcount true

/-! ## Streams and watches -/

/-- What was asked for may have been done at once, or once the time was looked at. -/
def Rests (now : Nat) (xs : List Subject) (s s' : Store) : Prop :=
  Does now xs s s' ∨ Does now xs (s.touch now) s'

theorem rests_sendKeepAlive (s : Store) (now stream : Nat) (lease : Int) :
    Rests now [.fresh, .stream stream] s (s.sendKeepAlive now stream lease).2 := by
  unfold sendKeepAlive
  split
  · exact .inl .refl
  · split
    · exact .inl .refl
    · exact .inl .refl
    · split
      · refine .inl ((Effect.useStream s stream ?_).does (.tail _ (.head _)))
        exact fun _ => rfl
      · refine .inr (((does_renew s now lease).mono (by simp)).trans
          ((Effect.useStream _ stream ?_).does (.tail _ (.head _))))
        exact fun _ => rfl

theorem nextStream_touch (s : Store) (now : Nat) : (s.touch now).nextStream = s.nextStream := by
  obtain ⟨_, _, _, _, _, h⟩ := exists_touch_eq s now
  rw [h]

theorem openKeepAlive_eq (s : Store) (now : Nat) (lease : Int) : s.openKeepAlive now lease =
    (s.nextStream, ((s.touch now).addStream.sendKeepAlive now s.nextStream lease).2) := by
  rw [openKeepAlive, addStream, nextStream_touch]

theorem does_openKeepAlive (s : Store) (now : Nat) (lease : Int) :
    Does now [.fresh, .stream s.nextStream] (s.touch now) (s.openKeepAlive now lease).2 := by
  have hsent := rests_sendKeepAlive (s.touch now).addStream now s.nextStream lease
  have hsame : (s.touch now).addStream.touch now = (s.touch now).addStream :=
    touch_eq_self (s.expired_touch now)
  rw [Rests, hsame, or_self] at hsent
  rw [openKeepAlive_eq]
  exact ((Effect.openStream _).does (.head _)).trans hsent

theorem does_nextRenewal (now : Nat) (s : Store) (stream : Nat) :
    Does now [.stream stream] s (s.nextRenewal stream).2 := by
  unfold nextRenewal
  split
  · exact .refl
  · split
    · refine (Effect.useStream s stream ?_).does (.head _)
      exact fun _ => rfl
    · split <;> exact .refl

theorem does_openWatch (s : Store) (now : Nat) (range : KeyRange) (start : Int) :
    Does now [.fresh] (s.touch now) (s.openWatch now range start).2 :=
  (Effect.openWatch (s.touch now) range _).does (.head _)

theorem feeds_find?_map {g : Feed → Feed} (hg : ∀ f, (g f).id = f.id) (feeds : List Feed)
    (id : Nat) : (feeds.map g).find? (·.id == id) = (feeds.find? (·.id == id)).map g := by
  rw [List.find?_map]
  congr 2
  funext f
  simp [hg]

theorem does_nextBatch (now : Nat) (s : Store) (feed : Nat) :
    Does now [.watch feed] s (s.nextBatch feed).2 := by
  unfold nextBatch
  split
  · exact .refl
  · split
    · next rest _ =>
      have hid : ∀ g : Feed, (if g.id == feed then { g with pending := rest } else g).id = g.id :=
        fun g => by split <;> rfl
      refine (Effect.useWatch (fun f hf => ?_) fun id hne => ?_).does (.head _)
      · obtain ⟨g, hg, rfl⟩ := List.mem_map.1 hf
        exact ⟨g, hg, (hid g).symm⟩
      · rw [feeds_find?_map hid]
        cases hf : s.feeds.find? (·.id == id) with
        | none => rfl
        | some f =>
          have hfid : f.id = id := by simpa using List.find?_some hf
          simp [hfid, hne]
    · split <;> exact .refl

theorem does_closeWatch (now : Nat) (s : Store) (feed : Nat) :
    Does now [.watch feed] s (s.closeWatch feed) := by
  refine (Effect.useWatch (fun f hf => ⟨f, (List.mem_filter.1 hf).1, rfl⟩) fun id hne => ?_).does
    (.head _)
  have hsame : ∀ g : Feed, decide ((g.id != feed) = true ∧ (g.id == id) = true) = (g.id == id) := by
    intro g
    by_cases hg : g.id = id <;> simp [hg, hne]
  rw [List.find?_filter]
  simp only [hsame]

theorem rests_setAvailable (s : Store) (now : Nat) (up : Bool) :
    Rests now [.network] s (s.setAvailable now up) := by
  unfold setAvailable
  split
  · exact .inl ((Effect.network true s.putsPaused rfl rfl).does (.head _))
  · refine .inr ((Effect.network false _ ?_ ?_).does (.head _))
    · rw [List.map_map]
      refine List.map_congr_left fun f _ => ?_
      simp only [Function.comp_apply]
      split <;> rfl
    · rw [List.map_map]
      refine List.map_congr_left fun h _ => ?_
      simp only [Function.comp_apply]
      split <;> rfl

theorem does_pausePuts (now : Nat) (s : Store) (paused : Bool) :
    Does now [.network] s { s with putsPaused := paused } :=
  (Effect.network s.available paused rfl rfl).does (.head _)

theorem Rests.does (h : Rests now xs s s') : Does now (.keys :: .due :: xs) s s' := by
  rcases h with h | h
  · exact h.mono (by simp)
  · exact ((does_touch s now).mono (by simp)).trans (h.mono (by simp))

end Store

/-! ## Requests -/

namespace Request

def Changes (s : Store) (q : Request) (a : q.Answer) : Prop :=
  q.succeeds a = true ∧ ∃ op ∈ q.operations, op.Changes s

/-- What a request has to do with besides keys and leases that are due. Of the streams and watches
that there are, these are only its own. -/
def subjects (q : Request) (s : Store) : List Store.Subject :=
  .fresh :: .stream s.nextStream :: (q.stream?.toList.map .stream ++ q.feed?.toList.map .watch)

end Request

namespace Store

variable {s s' : Store} {now : Nat} {q : Request} {a : q.Answer}

inductive Served (now : Nat) (s : Store) (q : Request) (a : q.Answer) : Store → Prop
  | rests {s' : Store} : q.operations = [] → Rests now (q.subjects s) s s' → Served now s q a s'
  | refused {s' : Store} : q.succeeds a = false → Does now [.fresh] (s.touch now) s' →
      Served now s q a s'
  | done {t s' : Store} : q.succeeds a = true → t.checkLeases q.operations = .ok () →
      Does now [.fresh] (s.touch now) t → t.Performs q.operations s' → Served now s q a s'

theorem Rests.mono {xs ys : List Subject} (h : Rests now xs s s') (hsub : xs ⊆ ys) :
    Rests now ys s s' := h.imp (·.mono hsub) (·.mono hsub)

theorem served_put (s : Store) (now : Nat) (key value : Bytes) (lease : Option Int) :
    Served now s (.put key value lease) (s.put now key value lease).1
      (s.put now key value lease).2 := by
  rcases s.put_cases now key value lease with ⟨e, heq⟩ | ⟨hl, heq⟩
  · rw [heq]
    exact .refused rfl .refl
  · rw [heq]
    refine .done rfl ?_ .refl (performs_write _ key value lease)
    simp only [Request.operations, checkLeases, hl]
    rfl

theorem does_tried (s : Store) (now : Nat) (ops : List TxnOp) :
    Does now [.fresh] (s.touch now) (s.tried now ops) :=
  (Effect.count _ _ _ _ le_rfl).does (.head _)

theorem served_txn (s : Store) (now : Nat) (ops : List TxnOp) :
    Served now s (.txn ops) (s.txn now ops).1 (s.txn now ops).2 := by
  cases hl : (s.touch now).checkLeases ops with
  | error e =>
    rw [txn_of_error hl]
    exact .refused rfl (does_tried s now ops)
  | ok u =>
    rw [txn_of_ok hl]
    exact .done rfl ((s.checkLeases_tried now ops).trans hl) (does_tried s now ops)
      (performs_carryOut _ ops).1

theorem served_of_serve (h : s.serve now q = some (a, s')) : Served now s q a s' := by
  have hself : ∀ {stream}, q.stream? = some stream → [.fresh, .stream stream] ⊆ q.subjects s :=
    fun heq => by simp [Request.subjects, heq]
  have hwatch : ∀ {feed}, q.feed? = some feed → [.watch feed] ⊆ q.subjects s :=
    fun heq => by simp [Request.subjects, heq]
  have hfresh : [Subject.fresh] ⊆ q.subjects s := by simp [Request.subjects]
  unfold serve at h
  split at h
  · cases h
  cases q with
  | get key => cases h; exact .rests rfl (.inr .refl)
  | getRange range => cases h; exact .rests rfl (.inr .refl)
  | put key value lease =>
    have hs := Option.some.inj h
    rw [← show (s.put now key value lease).1 = a from congrArg Prod.fst hs,
      ← show (s.put now key value lease).2 = s' from congrArg Prod.snd hs]
    exact served_put s now key value lease
  | delete key => cases h; exact .done rfl rfl .refl (performs_delete s now key)
  | txn ops =>
    have hs := Option.some.inj h
    rw [← show (s.txn now ops).1 = a from congrArg Prod.fst hs,
      ← show (s.txn now ops).2 = s' from congrArg Prod.snd hs]
    exact served_txn s now ops
  | grant ttl =>
    have hs : (s.grant now ttl).2 = s' := congrArg Prod.snd (Option.some.inj h)
    exact .rests rfl (.inr (hs ▸ (does_grant s now ttl).mono hfresh))
  | leaseStatus id => cases h; exact .rests rfl (.inr .refl)
  | openKeepAlive id =>
    have hs : (s.openKeepAlive now id).2 = s' := congrArg Prod.snd (Option.some.inj h)
    exact .rests rfl (.inr (hs ▸ (does_openKeepAlive s now id).mono (by simp [Request.subjects])))
  | openWatch range start =>
    cases h
    exact .rests rfl (.inr ((does_openWatch s now range start).mono hfresh))
  | ready =>
    simp only at h
    split at h
    · cases h; exact .rests rfl (.inl .refl)
    · cases h
  | sendKeepAlive stream id =>
    obtain rfl := congrArg Prod.snd (Option.some.inj h)
    exact .rests rfl ((rests_sendKeepAlive s now stream id).mono (hself rfl))
  | nextRenewal stream =>
    have hs := (does_nextRenewal now s stream).mono (List.subset_of_cons_subset (hself rfl))
    simp only at h
    split at h
    · next heq => cases h; rw [heq] at hs; exact .rests rfl (.inl hs)
    · cases h
  | nextBatch feed =>
    have hs := (does_nextBatch now s feed).mono (hwatch rfl)
    simp only at h
    split at h
    · next heq => cases h; rw [heq] at hs; exact .rests rfl (.inl hs)
    · cases h
  | closeWatch feed =>
    cases h
    exact .rests rfl (.inl ((does_closeWatch now s feed).mono (hwatch rfl)))

theorem Served.does (h : Served now s q a s') :
    Does now (.keys :: .due :: q.subjects s) s s' := by
  have hfresh : [Subject.fresh] ⊆ .keys :: .due :: q.subjects s := by simp [Request.subjects]
  have htouch : Does now (.keys :: .due :: q.subjects s) s (s.touch now) :=
    (does_touch s now).mono (by simp)
  cases h with
  | rests _ h => exact h.does
  | refused _ h => exact htouch.trans (h.mono hfresh)
  | done _ _ h hp => exact (htouch.trans (h.mono hfresh)).trans (hp.does.mono (by simp))

theorem does_serve (h : s.serve now q = some (a, s')) :
    Does now (.keys :: .due :: q.subjects s) s s' := (served_of_serve h).does

/-! ## Runs -/

/-- Everything that can be done to a store. -/
inductive Step : Store → Store → Prop
  | serve {s s' : Store} {now : Nat} {q : Request} {a : q.Answer} :
      s.serve now q = some (a, s') → Step s s'
  | touch (s : Store) (now : Nat) : Step s (s.touch now)
  | seed (s : Store) (now : Nat) (key value : Bytes) (lease : Option Int) :
      Step s (s.seed now key value lease)
  | revoke (s : Store) (now : Nat) (id : Int) : Step s (s.revoke now id)
  | setAvailable (s : Store) (now : Nat) (up : Bool) : Step s (s.setAvailable now up)
  | pausePuts (s : Store) (paused : Bool) : Step s { s with putsPaused := paused }

theorem Step.does (h : Step s s') : ∃ now xs, Does now xs s s' := by
  cases h with
  | serve h => exact ⟨_, _, does_serve h⟩
  | touch now => exact ⟨now, _, does_touch s now⟩
  | seed now key value lease => exact ⟨now, _, does_seed s now key value lease⟩
  | revoke now id => exact ⟨now, _, does_revoke s now id⟩
  | setAvailable now up => exact ⟨now, _, (rests_setAvailable s now up).does⟩
  | pausePuts paused => exact ⟨0, _, does_pausePuts 0 s paused⟩

end Store

end ServiceDirectory
