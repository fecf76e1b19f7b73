import ServiceDirectory.Proofs.Store.Leases

/-! # Keep-alive streams

A lease is renewed by what is sent on a stream, and the answers stay in the stream until they are
read, whatever others ask for (`heartbeat?_ask?`). A living lease is renewed at once on a new stream
(`HoldsUntil.of_openKeepAlive`) and on one that was read to its end (`HoldsUntil.of_sendKeepAlive`).
-/

namespace ServiceDirectory

namespace Store

variable {s s' : Store} {now t : Nat} {lease ttl : Int} {stream : Nat}
  {x : Subject} {xs : List Subject}

/-! ## Streams -/

theorem heartbeat?_updateHeartbeat (s : Store) (id : Nat) {f : Heartbeat → Heartbeat}
    (hf : ∀ h, (f h).id = h.id) : (s.updateHeartbeat id f).heartbeat? stream =
      (s.heartbeat? stream).map fun h => if h.id == id then f h else h := by
  rw [heartbeat?, updateHeartbeat, List.find?_map]
  congr 2
  funext h
  simp only [Function.comp_apply]
  split
  · rw [hf]
  · rfl

theorem heartbeat?_updateHeartbeat_of_ne (s : Store) {id : Nat} (h : id ≠ stream)
    {f : Heartbeat → Heartbeat} (hf : ∀ h, (f h).id = h.id) :
    (s.updateHeartbeat id f).heartbeat? stream = s.heartbeat? stream := by
  rw [heartbeat?_updateHeartbeat s id hf]
  cases hs : s.heartbeat? stream with
  | none => rfl
  | some b =>
    have hb : b.id = stream := by simpa using List.find?_some hs
    simp [hb, h.symm]

theorem heartbeat?_addStream (s : Store) (stream : Nat) : s.addStream.heartbeat? stream =
    (s.heartbeat? stream).or (if s.nextStream = stream then some ⟨stream, [], .answering, true⟩
      else none) := by
  rw [heartbeat?, addStream, List.find?_append]
  congr 1
  by_cases h : s.nextStream = stream
  · simp [h]
  · simp [h]

theorem IsSound.lt_nextStream (h : s.IsSound now) {b : Heartbeat}
    (hb : s.heartbeat? stream = some b) : stream < s.nextStream := by
  have hid : b.id = stream := by simpa using List.find?_some hb
  exact hid ▸ h.heartbeats b (List.mem_of_find?_eq_some hb)

theorem Effect.heartbeat? (h : Effect now x s s') (hn : x ≠ .network) (hx : x ≠ .stream stream)
    (hlt : stream < s.nextStream) :
    stream < s'.nextStream ∧ s'.heartbeat? stream = s.heartbeat? stream := by
  cases h with
  | openStream =>
    refine ⟨hlt.trans (Nat.lt_succ_self _), ?_⟩
    rw [heartbeat?_addStream, if_neg hlt.ne', Option.or_none]
  | openWatch => exact ⟨hlt.trans (Nat.lt_succ_self _), rfl⟩
  | useStream _ id hid =>
    exact ⟨hlt, heartbeat?_updateHeartbeat_of_ne s (fun heq => hx (congrArg _ heq)) hid⟩
  | network => exact absurd rfl hn
  | _ => exact ⟨hlt, rfl⟩

theorem Does.heartbeat? (h : Does now xs s s') (hn : .network ∉ xs) (hx : .stream stream ∉ xs)
    (hlt : stream < s.nextStream) :
    stream < s'.nextStream ∧ s'.heartbeat? stream = s.heartbeat? stream := by
  refine h.preserves (P := fun t => stream < t.nextStream ∧
    t.heartbeat? stream = s.heartbeat? stream) (fun hm he ht => ?_) ⟨hlt, rfl⟩
  obtain ⟨hlt', heq⟩ :=
    he.heartbeat? (ne_of_mem_of_not_mem hm hn) (ne_of_mem_of_not_mem hm hx) ht.1
  exact ⟨hlt', heq.trans ht.2⟩

/-- What others ask for leaves a stream alone. -/
theorem heartbeat?_ask? (hs : s.IsSound now) {q : Request} {a : q.Answer}
    (h : s.ask? now q = some (a, s')) (hq : q.stream? ≠ some stream) {b : Heartbeat}
    (hb : s.heartbeat? stream = some b) : s'.heartbeat? stream = some b := by
  rcases ask?_cases h with h | ⟨rfl, -⟩
  · have hlt := hs.lt_nextStream hb
    have hother : .stream stream ∉ .keys :: .due :: q.subjects s := by
      simp [Request.subjects, hlt.ne, hq]
    rw [((does_serve h).heartbeat? (by simp [Request.subjects]) hother hlt).2, hb]
  · exact hb

theorem heartbeats_touch (s : Store) (now : Nat) : (s.touch now).heartbeats = s.heartbeats := by
  obtain ⟨_, _, _, _, _, h⟩ := exists_touch_eq s now
  rw [h]

theorem heartbeats_renew (s : Store) (now : Nat) (id : Int) :
    (s.renew now id).2.heartbeats = s.heartbeats := by
  rw [← heartbeats_touch s now]
  unfold renew extend
  simp only
  split
  · rfl
  · dsimp only
    split <;> rfl

/-! ## Grants and renewals -/

theorem isAlive_of_leaseStatus {id : Int}
    (h : ((s.touch now).leaseStatus now id).isAlive = true) : (s.touch now).IsAlive now id := by
  unfold leaseStatus at h
  split at h
  · simp [LeaseStatus.isAlive] at h
  · next l hl =>
    rw [find?_leases_touch, Option.filter_eq_some_iff] at hl
    refine ⟨l, ?_, by simpa using hl.2⟩
    rw [find?_leases_touch, Option.filter_eq_some_iff]
    exact hl

theorem holdsUntil_of_grant (ha : s.available = true) {a : Except Error Int}
    (h : s.ask? now (.grant ttl) = some (a, s')) (hb : s'.broken = false)
    (ht : t < now + lifetime ttl) : ∃ id, a = .ok id ∧ s'.HoldsUntil id ttl t := by
  rw [ask?_eq_serve ha (by simp), serve, if_neg (by simp [Request.isPut])] at h
  unfold grant extend at h
  simp only at h
  split at h
  · next time hd =>
    obtain ⟨-, rfl⟩ := deadline?_eq_some_iff.1 hd
    cases h
    exact ⟨_, rfl, _, (Dictionary.find?_insert ..).trans (if_pos rfl), rfl, ht⟩
  · cases h
    cases hb

def HasStream (s : Store) (stream : Nat) (pending : List (Except Error Renewal)) : Prop :=
  s.heartbeat? stream = some ⟨stream, pending, .answering, true⟩

/-- The lease was renewed at that time, and the stream has the answer. -/
structure Renewed (now : Nat) (lease ttl : Int) (stream : Nat) (s : Store) : Prop where
  found : s.leases.find? lease = some ⟨ttl, now + lifetime ttl⟩
  countable : now + lifetime ttl < Clock.horizon
  answer : s.HasStream stream [.ok ⟨lease, ttl⟩]

theorem Renewed.holdsUntil (h : s.Renewed now lease ttl stream) (ht : t < now + lifetime ttl) :
    s.HoldsUntil lease ttl t := ⟨_, h.found, rfl, ht⟩

theorem HoldsUntil.renew (h : s.HoldsUntil lease ttl now)
    (hb : (s.renew now lease).2.broken = false) : (s.renew now lease).1 = ⟨lease, ttl⟩ ∧
      (s.renew now lease).2.leases.find? lease = some ⟨ttl, now + lifetime ttl⟩ ∧
      now + lifetime ttl < Clock.horizon := by
  obtain ⟨l, hl, rfl, -⟩ := h.touch le_rfl
  revert hb
  unfold Store.renew
  simp only [hl]
  unfold Store.extend
  split
  · next time hd =>
    obtain ⟨hlt, rfl⟩ := deadline?_eq_some_iff.1 hd
    exact fun _ => ⟨trivial, (Dictionary.find?_insert ..).trans (if_pos rfl), hlt⟩
  · exact nofun

theorem HoldsUntil.sendKeepAlive (h : s.HoldsUntil lease ttl now) (ha : s.available = true)
    (hs : s.HasStream stream []) (hb : (s.sendKeepAlive now stream lease).2.broken = false) :
    (s.sendKeepAlive now stream lease).1 = .ok () ∧
      (s.sendKeepAlive now stream lease).2.Renewed now lease ttl stream := by
  have heq : s.sendKeepAlive now stream lease = (.ok (),
      (s.renew now lease).2.updateHeartbeat stream fun h =>
        { h with pending := h.pending ++ [.ok (s.renew now lease).1] }) := by
    unfold Store.sendKeepAlive
    simp only [show s.heartbeat? stream = _ from hs, ha, Bool.not_true, Bool.false_eq_true,
      ↓reduceIte]
  rw [heq] at hb ⊢
  obtain ⟨hr, hl, hlt⟩ := h.renew hb
  refine ⟨rfl, hl, hlt, ?_⟩
  rw [HasStream, heartbeat?_updateHeartbeat (f := fun b =>
    { b with pending := b.pending ++ [.ok (s.renew now lease).1] }) _ _ fun _ => rfl, heartbeat?,
    heartbeats_renew, hr, ← heartbeat?, hs]
  simp

theorem HoldsUntil.of_sendKeepAlive (h : s.HoldsUntil lease ttl now) (ha : s.available = true)
    (hs : s.HasStream stream []) {a : Except Error Unit}
    (hask : s.ask? now (.sendKeepAlive stream lease) = some (a, s')) (hb : s'.broken = false) :
    a = .ok () ∧ s'.Renewed now lease ttl stream := by
  rw [ask?_eq_serve ha (by simp)] at hask
  have heq : s.sendKeepAlive now stream lease = (a, s') := Option.some.inj hask
  have hsent := h.sendKeepAlive ha hs (by rw [heq]; exact hb)
  rwa [heq] at hsent

theorem HoldsUntil.of_openKeepAlive (h : s.HoldsUntil lease ttl now) (hs : s.IsSound now)
    (ha : s.available = true) {a : Except Error Nat}
    (hask : s.ask? now (.openKeepAlive lease) = some (a, s')) (hb : s'.broken = false) :
    ∃ stream, a = .ok stream ∧ s'.Renewed now lease ttl stream := by
  rw [ask?_eq_serve ha (by simp), serve, if_neg (by simp [Request.isPut]), openKeepAlive_eq] at hask
  cases hask
  have hstream : (s.touch now).addStream.HasStream s.nextStream [] := by
    obtain ⟨_, _, _, _, _, htouch⟩ := exists_touch_eq s now
    have hnone : (s.touch now).heartbeat? s.nextStream = none := by
      rw [heartbeat?, heartbeats_touch, ← heartbeat?, Option.eq_none_iff_forall_ne_some]
      exact fun b hb => (hs.lt_nextStream hb).false
    rw [HasStream, heartbeat?_addStream, hnone, htouch]
    simp
  exact ⟨_, rfl, (HoldsUntil.sendKeepAlive (s := (s.touch now).addStream) (h.touch le_rfl)
    ((touch_settings s now).1.trans ha) hstream hb).2⟩

theorem broken_touch (s : Store) (now : Nat) : (s.touch now).broken = s.broken := by
  obtain ⟨_, _, _, _, _, h⟩ := exists_touch_eq s now
  rw [h]

theorem HoldsUntil.broken_sendKeepAlive (h : s.HoldsUntil lease ttl now)
    (hlt : now + lifetime ttl < Clock.horizon) (stream : Nat) :
    (s.sendKeepAlive now stream lease).2.broken = s.broken := by
  have hrenew : (s.renew now lease).2.broken = s.broken := by
    obtain ⟨l, hl, hg, -⟩ := h.touch le_rfl
    have hd : deadline? now ttl = some (now + lifetime ttl) :=
      deadline?_eq_some_iff.2 ⟨hlt, rfl⟩
    unfold Store.renew
    simp only [hl]
    unfold Store.extend
    simp only [hg, hd]
    exact broken_touch s now
  unfold Store.sendKeepAlive
  split
  · rfl
  · split
    · rfl
    · rfl
    · split
      · rfl
      · exact hrenew

/-- A living lease can be renewed while the clock can count its end. -/
theorem HoldsUntil.exists_openKeepAlive (h : s.HoldsUntil lease ttl now) (hs : s.IsSound now)
    (ha : s.available = true) (hb : s.broken = false)
    (hlt : now + lifetime ttl < Clock.horizon) : ∃ stream s',
      s.ask? now (.openKeepAlive lease) = some (.ok stream, s') ∧ s'.broken = false ∧
        s'.Renewed now lease ttl stream := by
  have hask : s.ask? now (.openKeepAlive lease) = some (.ok s.nextStream,
      ((s.touch now).addStream.sendKeepAlive now s.nextStream lease).2) := by
    rw [ask?_eq_serve ha (by simp), serve, if_neg (by simp [Request.isPut]), openKeepAlive_eq]
  have hopen : (s.touch now).addStream.HoldsUntil lease ttl now := h.touch le_rfl
  have hbroken :
      ((s.touch now).addStream.sendKeepAlive now s.nextStream lease).2.broken = false :=
    (hopen.broken_sendKeepAlive hlt s.nextStream).trans ((broken_touch s now).trans hb)
  generalize ((s.touch now).addStream.sendKeepAlive now s.nextStream lease).2 = s' at hask hbroken
  obtain ⟨stream, heq, hr⟩ := h.of_openKeepAlive hs ha hask hbroken
  cases heq
  exact ⟨_, _, hask, hbroken, hr⟩

theorem HasStream.ask? {r : Except Error Renewal} {rest : List (Except Error Renewal)}
    (h : s.HasStream stream (r :: rest)) (ha : s.available = true) (now : Nat) :
    ∃ s', s.ask? now (.nextRenewal stream) = some (r, s') ∧ s'.HasStream stream rest ∧
      s'.leases = s.leases ∧ s'.broken = s.broken := by
  refine ⟨s.updateHeartbeat stream ({ · with pending := rest }), ?_, ?_, rfl, rfl⟩
  · rw [ask?_eq_serve ha (by simp), serve, if_neg (by simp [Request.isPut])]
    simp only [nextRenewal, show s.heartbeat? stream = _ from h]
    rfl
  · rw [HasStream, heartbeat?_updateHeartbeat (f := ({ · with pending := rest })) _ _ fun _ => rfl,
      h]
    simp

end Store

end ServiceDirectory
