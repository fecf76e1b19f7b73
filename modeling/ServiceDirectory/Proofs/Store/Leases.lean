import ServiceDirectory.Proofs.Store.Bindings

/-! # How long leases last

A lease lasts from its last renewal for as long as it was granted. Whatever is asked of the store,
and whatever becomes of other leases, a lease is never cut short of that (`spares_ask?`).
-/

namespace ServiceDirectory

namespace Store

variable {s s' s'' : Store} {now t : Nat} {lease ttl : Int} {x : Subject} {xs : List Subject}

/-- A number of seconds in milliseconds, as the store counts them. -/
def lifetime (ttl : Int) : Nat := (ttl % UInt64.size).toNat * 1000

theorem deadline?_eq_some_iff {time : Nat} : deadline? now ttl = some time ↔
    now + lifetime ttl < Clock.horizon ∧ time = now + lifetime ttl := by
  rw [deadline?, Clock.later?, ← lifetime]
  split
  · next h => simp [h, eq_comm]
  · next h => simp [h]

/-- The lease is there, was granted for so many seconds, and lasts beyond the time. -/
def HoldsUntil (s : Store) (lease ttl : Int) (t : Nat) : Prop :=
  ∃ l, s.leases.find? lease = some l ∧ l.grantedTtl = ttl ∧ t < l.expiresAt

instance (s : Store) (lease ttl : Int) (t : Nat) : Decidable (s.HoldsUntil lease ttl t) :=
  decidable_of_iff ((s.leases.find? lease).any fun l => l.grantedTtl = ttl ∧ t < l.expiresAt) (by
    simp [HoldsUntil, Option.any_eq_true])

theorem HoldsUntil.isAlive (h : s.HoldsUntil lease ttl t) (ht : now ≤ t) : s.IsAlive now lease := by
  obtain ⟨l, hl, -, hlt⟩ := h
  exact ⟨l, hl, Nat.lt_of_le_of_lt ht hlt⟩

theorem HoldsUntil.touch (h : s.HoldsUntil lease ttl t) (ht : now ≤ t) :
    (s.touch now).HoldsUntil lease ttl t := by
  obtain ⟨l, hl, hg, hlt⟩ := h
  refine ⟨l, ?_, hg, hlt⟩
  rw [find?_leases_touch, hl, Option.filter_some, if_pos (by simpa using Nat.lt_of_le_of_lt ht hlt)]

/-- Leases and streams are numbered as they come, and no lease outlasts what it was granted for. -/
structure IsSound (s : Store) (now : Nat) : Prop where
  leases : ∀ id l, s.leases.find? id = some l →
    id ≤ s.lastLease ∧ l.expiresAt ≤ now + lifetime l.grantedTtl
  heartbeats : ∀ h ∈ s.heartbeats, h.id < s.nextStream

theorem isSound_empty (maxTxnOps now : Nat) : (empty maxTxnOps).IsSound now :=
  ⟨nofun, nofun⟩

theorem IsSound.mono (h : s.IsSound now) {later : Nat} (hle : now ≤ later) : s.IsSound later :=
  ⟨fun id l hl => ⟨(h.leases id l hl).1, (h.leases id l hl).2.trans (by omega)⟩, h.heartbeats⟩

theorem deadline?_le {time : Nat} (h : deadline? now ttl = some time) :
    time ≤ now + lifetime ttl := (deadline?_eq_some_iff.1 h).2.le

theorem IsSound.insert (h : s.IsSound now) {id : Int} {time : Nat}
    (hd : deadline? now ttl = some time) (hs : s'.leases = s.leases.insert id ⟨ttl, time⟩)
    (hlast : s.lastLease ≤ s'.lastLease)
    (hid : id ≤ s'.lastLease) (hb : s'.heartbeats = s.heartbeats)
    (hn : s'.nextStream = s.nextStream) : s'.IsSound now := by
  refine ⟨fun id' l hl => ?_, by rw [hb, hn]; exact h.heartbeats⟩
  rw [hs, Dictionary.find?_insert] at hl
  split at hl
  · next heq =>
    cases hl
    exact ⟨heq ▸ hid, deadline?_le hd⟩
  · exact ⟨(h.leases id' l hl).1.trans hlast, (h.leases id' l hl).2⟩

theorem IsSound.of_ids (h : s.IsSound now) (hl : s'.leases = s.leases)
    (hlast : s.lastLease ≤ s'.lastLease) (hn : s.nextStream ≤ s'.nextStream)
    (hb : ∀ b ∈ s'.heartbeats, b.id < s'.nextStream ∨ ∃ b' ∈ s.heartbeats, b'.id = b.id) :
    s'.IsSound now := by
  constructor
  · intro id l hf
    rw [hl] at hf
    exact ⟨(h.leases id l hf).1.trans hlast, (h.leases id l hf).2⟩
  · intro b hm
    rcases hb b hm with hlt | ⟨b', hm', hid⟩
    · exact hlt
    · exact hid ▸ (h.heartbeats b' hm').trans_le hn

theorem Effect.isSound (h : Effect now x s s') (hs : s.IsSound now) : s'.IsSound now := by
  have hsame : ∀ b ∈ s.heartbeats, b.id < s.nextStream ∨ ∃ b' ∈ s.heartbeats, b'.id = b.id :=
    fun b hb => .inr ⟨b, hb, rfl⟩
  cases h with
  | commit _ => exact ⟨hs.leases, hs.heartbeats⟩
  | expire _ _ | revoke =>
    refine ⟨fun id l hl => ?_, hs.heartbeats⟩
    rw [release, Dictionary.find?_erase] at hl
    split at hl
    · cases hl
    · exact hs.leases id l hl
  | grant hd => exact hs.insert hd rfl (Int.le_add_one le_rfl) le_rfl rfl rfl
  | renew hl hd => exact hs.insert hd rfl le_rfl (hs.leases _ _ hl).1 rfl rfl
  | count _ _ _ _ hlast => exact hs.of_ids rfl hlast le_rfl hsame
  | openStream =>
    refine hs.of_ids rfl le_rfl (Nat.le_succ _) fun b hb => ?_
    rcases List.mem_append.1 hb with hb | hb
    · exact .inr ⟨b, hb, rfl⟩
    · rw [List.mem_singleton.1 hb]
      exact .inl (Nat.lt_succ_self _)
  | openWatch => exact hs.of_ids rfl le_rfl (Nat.le_succ _) fun b hb => .inr ⟨b, hb, rfl⟩
  | useStream _ _ hid =>
    refine hs.of_ids rfl le_rfl le_rfl fun b hb => ?_
    obtain ⟨b', hb', rfl⟩ := List.mem_map.1 hb
    refine .inr ⟨b', hb', ?_⟩
    split
    · exact (hid b').symm
    · rfl
  | useWatch _ _ => exact ⟨hs.leases, hs.heartbeats⟩
  | network _ _ _ hids =>
    refine hs.of_ids rfl le_rfl le_rfl fun b hb => .inr ?_
    exact List.mem_map.1 (hids ▸ List.mem_map_of_mem hb)

theorem Does.isSound (h : Does now xs s s') (hs : s.IsSound now) : s'.IsSound now :=
  h.preserves (fun _ => Effect.isSound) hs

/-! ## What others ask for -/

/-- What can become of the store at that time without the lease being revoked. -/
structure Spares (now : Nat) (lease : Int) (s s' : Store) : Prop where
  available : s'.available = s.available
  putsPaused : s'.putsPaused = s.putsPaused
  sound : s.IsSound now → s'.IsSound now
  holds : s.IsSound now → ∀ {ttl : Int} {t : Nat}, now ≤ t → t < now + lifetime ttl →
    s.HoldsUntil lease ttl t → s'.HoldsUntil lease ttl t

theorem Spares.refl (now : Nat) (lease : Int) (s : Store) : Spares now lease s s :=
  ⟨rfl, rfl, id, fun _ _ _ _ _ h => h⟩

theorem Spares.trans (h : Spares now lease s s') (h' : Spares now lease s' s'') :
    Spares now lease s s'' where
  available := h'.available.trans h.available
  putsPaused := h'.putsPaused.trans h.putsPaused
  sound hs := h'.sound (h.sound hs)
  holds hs _ _ hle hlt ht := h'.holds (h.sound hs) hle hlt (h.holds hs hle hlt ht)

theorem Spares.holds_now (h : Spares now lease s s') (hs : s.IsSound now)
    (hh : s.HoldsUntil lease ttl now) : s'.HoldsUntil lease ttl now := by
  obtain ⟨l, hl, rfl, hlt⟩ := hh
  exact h.holds hs le_rfl (hlt.trans_le (hs.leases lease l hl).2) ⟨l, hl, rfl, hlt⟩

theorem Spares.isAlive (h : Spares now lease s s') (hs : s.IsSound now)
    (ha : s.IsAlive now lease) : s'.IsAlive now lease := by
  obtain ⟨l, hl, hlt⟩ := ha
  exact (h.holds_now hs ⟨l, hl, rfl, hlt⟩).isAlive le_rfl

theorem Effect.spares (h : Effect now x s s') (hn : x ≠ .network) (hl : x ≠ .lease lease) :
    Spares now lease s s' := by
  have hsame : s'.leases = s.leases → s'.available = s.available →
      s'.putsPaused = s.putsPaused → Spares now lease s s' := fun heq ha hp =>
    ⟨ha, hp, h.isSound, fun _ _ _ _ _ ht => by rwa [HoldsUntil, heq]⟩
  cases h with
  | expire hf hdue =>
    refine ⟨rfl, rfl, Effect.isSound (.expire hf hdue), fun _ ttl t hle _ ht => ?_⟩
    obtain ⟨l, hl, hg, hlt⟩ := ht
    refine ⟨l, ?_, hg, hlt⟩
    rw [release, Dictionary.find?_erase, if_neg]
    · exact hl
    · rintro rfl
      cases hf.symm.trans hl
      omega
  | revoke _ id =>
    have hne : lease ≠ id := fun heq => hl (heq ▸ rfl)
    refine ⟨rfl, rfl, (Effect.revoke s id).isSound, fun _ ttl t _ _ ht => ?_⟩
    rwa [HoldsUntil, release, Dictionary.find?_erase, if_neg hne]
  | grant hd =>
    refine ⟨rfl, rfl, Effect.isSound (.grant hd), fun hs ttl t _ _ ht => ?_⟩
    -- the new number is not that of a lease that is there
    have hne : lease ≠ s.lastLease + 1 := by
      obtain ⟨l, hl, -⟩ := ht
      have := (hs.leases lease l hl).1
      omega
    rwa [HoldsUntil, Dictionary.find?_insert, if_neg hne]
  | @renew _ id l time hf hd =>
    refine ⟨rfl, rfl, Effect.isSound (.renew hf hd), fun _ ttl t _ hlt ht => ?_⟩
    by_cases heq : lease = id
    · obtain ⟨l', hl', rfl, -⟩ := ht
      cases hl'.symm.trans (heq ▸ hf)
      exact ⟨_, (Dictionary.find?_insert ..).trans (if_pos heq), rfl,
        (deadline?_eq_some_iff.1 hd).2 ▸ hlt⟩
    · rwa [HoldsUntil, Dictionary.find?_insert, if_neg heq]
  | network => exact absurd rfl hn
  | _ => exact hsame rfl rfl rfl

/-- A lease is left alone by all that is done to other leases. -/
theorem Does.spares (h : Does now xs s s') (hn : .network ∉ xs) (hl : .lease lease ∉ xs) :
    Spares now lease s s' :=
  h.lift (.refl now lease) .trans fun hx he =>
    he.spares (ne_of_mem_of_not_mem hx hn) (ne_of_mem_of_not_mem hx hl)

theorem spares_seed (now : Nat) (lease : Int) (s : Store) (key value : Bytes) (bound : Option Int) :
    Spares now lease s (s.seed now key value bound) :=
  (does_seed s now key value bound).spares (by simp) (by simp)

theorem spares_revoke (now : Nat) (s : Store) {id : Int} (h : id ≠ lease) :
    Spares now lease s (s.revoke now id) :=
  (does_revoke s now id).spares (by simp) (by simpa using h.symm)

theorem spares_ask? (lease : Int) {q : Request} {a : q.Answer}
    (h : s.ask? now q = some (a, s')) : Spares now lease s s' := by
  rcases ask?_cases h with h | ⟨rfl, -⟩
  · exact (does_serve h).spares (by simp [Request.subjects]) (by simp [Request.subjects])
  · exact .refl now lease _

theorem isSome_ask? (ha : s.available = true) (hp : s.putsPaused = false) (now : Nat)
    {q : Request} (hq : q.isCall = true ∨ q = .ready) : (s.ask? now q).isSome = true := by
  rcases hq with hq | rfl
  · unfold ask?
    split
    · cases q <;> first | rfl | cases hq
    · unfold serve
      rw [hp, Bool.and_false, if_neg Bool.false_ne_true]
      cases q <;> first | rfl | cases hq
  · rw [ask?_eq_serve ha (by simp)]
    simp [serve, Request.isPut, ha]

/-! ## Stores that are in use -/

inductive IsUsed : Nat → Store → Prop
  | empty (maxTxnOps now : Nat) : IsUsed now (empty maxTxnOps)
  | wait {now later : Nat} {s : Store} : IsUsed now s → now ≤ later → IsUsed later s
  | serve {now : Nat} {s s' : Store} {q : Request} {a : q.Answer} : IsUsed now s →
      s.serve now q = some (a, s') → IsUsed now s'
  | touch {now : Nat} {s : Store} : IsUsed now s → IsUsed now (s.touch now)
  | seed {now : Nat} {s : Store} (key value : Bytes) (bound : Option Int) : IsUsed now s →
      IsUsed now (s.seed now key value bound)
  | revoke {now : Nat} {s : Store} (id : Int) : IsUsed now s → IsUsed now (s.revoke now id)
  | setAvailable {now : Nat} {s : Store} (up : Bool) : IsUsed now s →
      IsUsed now (s.setAvailable now up)
  | pausePuts {now : Nat} {s : Store} (paused : Bool) : IsUsed now s →
      IsUsed now { s with putsPaused := paused }

theorem IsUsed.grant (h : s.IsUsed now) (ttl : Int) : (s.grant now ttl).2.IsUsed now := by
  have hs : s.serve now (.grant ttl) = some (.ok (s.grant now ttl).1, (s.grant now ttl).2) := by
    rw [Store.serve]
    generalize s.grant now ttl = granted
    rfl
  exact h.serve hs

/-- What an empty store has, and what time and effects preserve, every store in use has. -/
theorem IsUsed.induct {P : Nat → Store → Prop} (h : s.IsUsed now)
    (hempty : ∀ maxTxnOps now, P now (Store.empty maxTxnOps))
    (hwait : ∀ {now later : Nat} {s : Store}, P now s → now ≤ later → P later s)
    (heffect : ∀ {now : Nat} {x : Subject} {s s' : Store}, P now s → Effect now x s s' → P now s') :
    P now s := by
  have hdoes : ∀ {now xs s s'}, P now s → Does now xs s s' → P now s' := fun hp hd =>
    hd.preserves (fun _ he hp => heffect hp he) hp
  induction h with
  | empty maxTxnOps now => exact hempty maxTxnOps now
  | wait _ hle ih => exact hwait ih hle
  | serve _ hs ih => exact hdoes ih (does_serve hs)
  | touch _ ih => exact hdoes ih (does_touch _ _)
  | seed key value bound _ ih => exact hdoes ih (does_seed _ _ key value bound)
  | revoke id _ ih => exact hdoes ih (does_revoke _ _ id)
  | setAvailable up _ ih => exact hdoes ih (rests_setAvailable _ _ up).does
  | pausePuts paused _ ih => exact hdoes ih (does_pausePuts _ _ paused)

theorem IsUsed.isSound (h : s.IsUsed now) : s.IsSound now :=
  h.induct isSound_empty (fun hs hle => hs.mono hle) fun hs he => he.isSound hs

theorem IsUsed.isKeyed (h : s.IsUsed now) : s.IsKeyed :=
  h.induct (P := fun _ s => s.IsKeyed) (fun maxTxnOps _ => isKeyed_empty maxTxnOps)
    (fun hs _ => hs) fun hs he => he.follows.keyed hs

end Store

end ServiceDirectory
