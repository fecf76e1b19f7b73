import ServiceDirectory.Proofs.Store.Bound

/-! # What watches are told

A store changes by commits: a batch of events at a new revision, which goes to the log and, as far
as it is in the range, to every watch that has not ended. Whatever is done to a store, other than
reading a watch or closing it, a watch gets exactly the commits that the log gets
(`Elsewhere.tells`); an outage puts its error behind them (`feed?_setAvailable_false`).
-/

namespace ServiceDirectory

def seenBatches (range : KeyRange) (commits : List Batch) : List Batch :=
  (commits.map fun b => ⟨b.revision, b.events.filter fun e => range.contains e.key⟩).filter
    fun b => !b.events.isEmpty

theorem flatMap_events_seenBatches (range : KeyRange) (commits : List Batch) :
    (seenBatches range commits).flatMap Batch.events =
      (commits.flatMap Batch.events).filter fun e => range.contains e.key := by
  induction commits with
  | nil => rfl
  | cons b commits ih =>
    unfold seenBatches at ih ⊢
    rw [List.map_cons, List.filter_cons, List.flatMap_cons, List.filter_append, ← ih]
    split
    · rfl
    · next h =>
      have hnil : (b.events.filter fun e => range.contains e.key) = [] := by simpa using h
      rw [hnil, List.nil_append]

theorem exists_mem_of_mem_seenBatches {range : KeyRange} {commits : List Batch} {b : Batch}
    (h : b ∈ seenBatches range commits) :
    ∃ c ∈ commits, b.revision = c.revision ∧ b.events ⊆ c.events := by
  obtain ⟨c, hc, rfl⟩ := List.mem_map.1 (List.mem_filter.1 h).1
  exact ⟨c, hc, rfl, List.filter_subset_self _⟩

namespace Feed

def told (f : Feed) (commits : List Batch) : Feed :=
  commits.foldl (fun f b => f.deliver b.revision b.events) f

def cutOff (f : Feed) : Feed :=
  if f.live then { f with live := false, pending := f.pending ++ [.error Store.offline] } else f

@[simp] theorem deliver_id (revision : Int) (events : List Event) (f : Feed) :
    (f.deliver revision events).id = f.id := by
  unfold deliver
  simp only
  split <;> rfl

@[simp] theorem cutOff_id (f : Feed) : f.cutOff.id = f.id := by
  unfold cutOff
  split <;> rfl

theorem told_append (f : Feed) (a b : List Batch) : f.told (a ++ b) = (f.told a).told b :=
  List.foldl_append

theorem told_of_ended {f : Feed} (h : f.live = false) (commits : List Batch) :
    f.told commits = f := by
  induction commits with
  | nil => rfl
  | cons b commits ih =>
    have hb : f.deliver b.revision b.events = f := by simp [deliver, h]
    exact (congrArg (told · commits) hb).trans ih

theorem told_of_live {f : Feed} (h : f.live = true) (commits : List Batch) : f.told commits =
    { f with pending := f.pending ++ (seenBatches f.range commits).map .ok } := by
  induction commits generalizing f with
  | nil => simp [told, seenBatches]
  | cons b commits ih =>
    have hcons : f.told (b :: commits) = (f.deliver b.revision b.events).told commits := rfl
    rw [hcons]
    cases hs : (b.events.filter fun e => f.range.contains e.key) with
    | nil =>
      have hb : f.deliver b.revision b.events = f := by simp [deliver, hs]
      rw [hb, ih h]
      simp [seenBatches, hs]
    | cons e es =>
      have hb : f.deliver b.revision b.events =
          { f with pending := f.pending ++ [.ok ⟨b.revision, e :: es⟩] } := by
        simp [deliver, h, hs]
      rw [hb, ih (by exact h)]
      simp [seenBatches, hs]

end Feed

namespace Store

variable {s s' s'' : Store} {now id : Nat} {x : Subject} {xs : List Subject}

def IsNumbered (s : Store) : Prop := ∀ f ∈ s.feeds, f.id < s.nextStream

def IsDated (s : Store) : Prop := 0 ≤ s.revision ∧ ∀ e ∈ s.history, e.revision ≤ s.revision

theorem IsDated.congr (h : s.IsDated) (hr : s'.revision = s.revision)
    (hh : s'.history = s.history) : s'.IsDated :=
  ⟨hr ▸ h.1, fun e he => hr ▸ h.2 e (hh ▸ he)⟩

/-- These commits lie between the two states, and the watch was told of them. -/
structure Commits (id : Nat) (commits : List Batch) (s s' : Store) : Prop where
  revision_le : s.revision ≤ s'.revision
  history : s'.history = s.history ++ commits.flatMap Batch.events
  dated : ∀ b ∈ commits, s.revision < b.revision ∧ b.revision ≤ s'.revision ∧
    ∀ e ∈ b.events, e.revision = b.revision
  numbered : s.IsNumbered → s'.IsNumbered
  feed : s.IsNumbered → ∀ f, s.feed? id = some f → s'.feed? id = some (f.told commits)

/-- All that has happened between the two states, the watch was told of. -/
def Tells (id : Nat) (s s' : Store) : Prop := ∃ commits, Commits id commits s s'

theorem Commits.isDated {commits : List Batch} (h : Commits id commits s s') (hs : s.IsDated) :
    s'.IsDated := by
  refine ⟨hs.1.trans h.revision_le, fun e he => ?_⟩
  rw [h.history] at he
  obtain he | he := List.mem_append.1 he
  · exact (hs.2 e he).trans h.revision_le
  · obtain ⟨b, hb, he⟩ := List.mem_flatMap.1 he
    obtain ⟨-, hle, hrev⟩ := h.dated b hb
    exact (hrev e he).trans_le hle

theorem Commits.lt_revision {commits : List Batch} (h : Commits id commits s s') :
    ∀ e ∈ commits.flatMap Batch.events, s.revision < e.revision := by
  intro e he
  obtain ⟨b, hb, he⟩ := List.mem_flatMap.1 he
  obtain ⟨hlt, -, hrev⟩ := h.dated b hb
  exact (hrev e he).symm ▸ hlt

theorem Tells.refl (id : Nat) (s : Store) : Tells id s s :=
  ⟨[], le_rfl, by simp, nofun, fun h => h, fun _ _ h => h⟩

theorem Tells.trans (h : Tells id s s') (h' : Tells id s' s'') : Tells id s s'' := by
  obtain ⟨a, ha⟩ := h
  obtain ⟨b, hb⟩ := h'
  refine ⟨a ++ b, ha.revision_le.trans hb.revision_le, ?_, ?_, hb.numbered ∘ ha.numbered, ?_⟩
  · rw [hb.history, ha.history, List.append_assoc, List.flatMap_append]
  · intro c hc
    obtain hc | hc := List.mem_append.1 hc
    · obtain ⟨hlt, hle, hrev⟩ := ha.dated c hc
      exact ⟨hlt, hle.trans hb.revision_le, hrev⟩
    · obtain ⟨hlt, hle, hrev⟩ := hb.dated c hc
      exact ⟨ha.revision_le.trans_lt hlt, hle, hrev⟩
  · intro hs f hf
    rw [Feed.told_append]
    exact hb.feed (ha.numbered hs) _ (ha.feed hs f hf)

theorem Tells.of_eq (hr : s.revision ≤ s'.revision) (hh : s'.history = s.history)
    (hf : s'.feeds = s.feeds) (hn : s.nextStream ≤ s'.nextStream) : Tells id s s' := by
  refine ⟨[], hr, by simp [hh], nofun, fun h f hm => ?_, fun _ f h => ?_⟩
  · exact (h f (hf ▸ hm)).trans_le hn
  · rw [feed?, hf]
    exact h

/-! ## Effects -/

theorem id_of_feed? {f : Feed} (h : s.feed? id = some f) : f.id = id := by
  simpa using List.find?_some h

theorem feed?_map {g : Feed → Feed} (hg : ∀ f, (g f).id = f.id) (hf : s'.feeds = s.feeds.map g)
    (id : Nat) : s'.feed? id = (s.feed? id).map g := by
  rw [feed?, hf, feeds_find?_map hg, feed?]

theorem IsNumbered.map (h : s.IsNumbered) {g : Feed → Feed} (hg : ∀ f, (g f).id = f.id)
    (hf : s'.feeds = s.feeds.map g) (hn : s'.nextStream = s.nextStream) : s'.IsNumbered := by
  intro f hm
  rw [hf] at hm
  obtain ⟨f', hm', rfl⟩ := List.mem_map.1 hm
  rw [hg, hn]
  exact h f' hm'

theorem Change.commits {entries : Dictionary Bytes KeyValue} {events : List Event}
    (h : s.Change entries events) (id : Nat) :
    Commits id [⟨s.revision + 1, events⟩] s (s.commit entries events) := by
  have hid := Feed.deliver_id (s.revision + 1) events
  refine ⟨Int.le_add_one le_rfl, by simp [commit], fun b hb => ?_, fun hs => hs.map hid rfl rfl,
    fun _ f hf => ?_⟩
  · rw [List.mem_singleton.1 hb]
    exact ⟨Int.lt_add_one_of_le le_rfl, le_rfl, h.dated⟩
  · rw [feed?_map hid rfl, hf]
    rfl

theorem Effect.tells (h : Effect now x s s') (hn : x ≠ .network) (hx : x ≠ .watch id) :
    Tells id s s' := by
  cases h with
  | commit hc => exact ⟨_, hc.commits id⟩
  | openStream => exact .of_eq le_rfl rfl rfl (Nat.le_succ _)
  | openWatch =>
    refine ⟨[], le_rfl, by simp, nofun, fun h f hm => ?_, fun _ f h => ?_⟩
    · rcases List.mem_append.1 hm with hm | hm
      · exact Nat.lt_succ_of_lt (h f hm)
      · rw [List.mem_singleton.1 hm]
        exact Nat.lt_succ_self _
    · exact (List.find?_append ..).trans (by rw [show s.feeds.find? _ = some f from h]; rfl)
  | useWatch hids hother =>
    refine ⟨[], le_rfl, by simp, nofun, fun hs f hf => ?_, fun _ f hf => ?_⟩
    · obtain ⟨g, hg, hid⟩ := hids f hf
      exact hid ▸ hs g hg
    · exact (hother id fun heq => hx (heq ▸ rfl)).trans hf
  | network => exact absurd rfl hn
  | _ => exact .of_eq le_rfl rfl rfl le_rfl

/-- A watch is told of all that is done without reading or closing it. -/
theorem Does.tells (h : Does now xs s s') (hn : .network ∉ xs) (hx : .watch id ∉ xs) :
    Tells id s s' :=
  h.lift (.refl id) .trans fun hm he =>
    he.tells (ne_of_mem_of_not_mem hm hn) (ne_of_mem_of_not_mem hm hx)

theorem tells_touch (id : Nat) (s : Store) (now : Nat) : Tells id s (s.touch now) :=
  (does_touch s now).tells (by simp) (by simp)

theorem tells_openWatch (id : Nat) (s : Store) (now : Nat) (range : KeyRange) (start : Int) :
    Tells id s (s.openWatch now range start).2 :=
  (tells_touch id s now).trans ((does_openWatch s now range start).tells (by simp) (by simp))

theorem tells_closeWatch {feed : Nat} (h : feed ≠ id) (s : Store) :
    Tells id s (s.closeWatch feed) :=
  (does_closeWatch 0 s feed).tells (by simp) (by simpa using h.symm)

theorem tells_serve {q : Request} {a : q.Answer} (hq : q.feed? ≠ some id)
    (h : s.serve now q = some (a, s')) : Tells id s s' :=
  (does_serve h).tells (by simp [Request.subjects]) (by simp [Request.subjects, hq])

/-- What can be done to a store without reading or closing the watch, and without an outage. -/
inductive Elsewhere (feed : Option Nat) : Store → Store → Prop
  | serve {s s' : Store} {now : Nat} {q : Request} {a : q.Answer} :
      (∀ id ∈ feed, q.feed? ≠ some id) → s.serve now q = some (a, s') → Elsewhere feed s s'
  | touch (s : Store) (now : Nat) : Elsewhere feed s (s.touch now)
  | seed (s : Store) (now : Nat) (key value : Bytes) (lease : Option Int) :
      Elsewhere feed s (s.seed now key value lease)
  | revoke (s : Store) (now : Nat) (lease : Int) : Elsewhere feed s (s.revoke now lease)
  | back (s : Store) (now : Nat) : Elsewhere feed s (s.setAvailable now true)
  | pausePuts (s : Store) (paused : Bool) : Elsewhere feed s { s with putsPaused := paused }

theorem exists_tells_serve {feed : Option Nat} {q : Request} {a : q.Answer}
    (hq : ∀ id ∈ feed, q.feed? ≠ some id) (h : s.serve now q = some (a, s')) :
    ∃ id, (∀ id' ∈ feed, id' = id) ∧ Tells id s s' := by
  cases feed with
  | none =>
    have hne : q.feed? ≠ some (q.feed?.getD 0 + 1) := by cases q.feed? <;> simp
    exact ⟨_, nofun, tells_serve hne h⟩
  | some id => exact ⟨id, by simp, tells_serve (hq id rfl) h⟩

theorem Elsewhere.tells {feed : Option Nat} (h : Elsewhere feed s s') :
    ∃ id, (∀ id' ∈ feed, id' = id) ∧ Tells id s s' := by
  have hother : ∃ id, ∀ id' ∈ feed, id' = id := ⟨feed.getD 0, by simp +contextual⟩
  cases h with
  | serve hq h => exact exists_tells_serve hq h
  | touch now => exact hother.imp fun id hid => ⟨hid, tells_touch id s now⟩
  | seed now key value lease =>
    exact hother.imp fun id hid =>
      ⟨hid, (does_seed s now key value lease).tells (by simp) (by simp)⟩
  | revoke now lease =>
    exact hother.imp fun id hid => ⟨hid, (does_revoke s now lease).tells (by simp) (by simp)⟩
  | back now => exact hother.imp fun id hid => ⟨hid, .of_eq le_rfl rfl rfl le_rfl⟩
  | pausePuts paused => exact hother.imp fun id hid => ⟨hid, .of_eq le_rfl rfl rfl le_rfl⟩

theorem Elsewhere.step {feed : Option Nat} (h : Elsewhere feed s s') : Step s s' := by
  cases h with
  | serve _ h => exact .serve h
  | touch now => exact .touch s now
  | seed now key value lease => exact .seed s now key value lease
  | revoke now lease => exact .revoke s now lease
  | back now => exact .setAvailable s now true
  | pausePuts paused => exact .pausePuts s paused

theorem Elsewhere.follows {feed : Option Nat} (h : Elsewhere feed s s') : s.Follows s' :=
  h.step.follows

theorem feed?_openWatch (hs : s.IsNumbered) (now : Nat) (range : KeyRange) (start : Int) :
    (s.openWatch now range start).2.feed? (s.openWatch now range start).1 =
      some ⟨(s.openWatch now range start).1, range,
        .ok ⟨(s.touch now).revision, []⟩ ::
          if 0 < start ∧ !((s.touch now).history.filter fun e =>
              start ≤ e.revision && range.contains e.key).isEmpty then
            [.ok ⟨(s.touch now).revision, (s.touch now).history.filter fun e =>
              start ≤ e.revision && range.contains e.key⟩]
          else [], true⟩ := by
  obtain ⟨_, hc⟩ := tells_touch 0 s now
  have hno : (s.touch now).feeds.find? (·.id == (s.touch now).nextStream) = none := by
    refine List.find?_eq_none.2 fun f hf => ?_
    simpa using (hc.numbered hs f hf).ne
  unfold openWatch feed?
  rw [List.find?_append, hno]
  simp

theorem nextBatch_of_pending {f : Feed} {b : Except Error Batch} {rest : List (Except Error Batch)}
    (hf : s.feed? id = some f) (hp : f.pending = b :: rest) :
    (s.nextBatch id).1 = some b ∧
      (s.nextBatch id).2.feed? id = some { f with pending := rest } ∧
      (s.nextBatch id).2.revision = s.revision ∧ (s.nextBatch id).2.history = s.history ∧
      (s.IsNumbered → (s.nextBatch id).2.IsNumbered) := by
  have hid : ∀ g : Feed, (if g.id == id then { g with pending := rest } else g).id = g.id := by
    intro g
    split <;> rfl
  have heq : s.nextBatch id = (some b, { s with
      feeds := s.feeds.map fun g => if g.id == id then { g with pending := rest } else g }) := by
    simp only [nextBatch, hf, hp]
  rw [heq]
  refine ⟨rfl, ?_, rfl, rfl, fun hs => hs.map hid rfl rfl⟩
  rw [feed?_map hid rfl, hf, Option.map_some, if_pos (by simpa using id_of_feed? hf)]

theorem nextBatch_eq_none_iff {f : Feed} (hf : s.feed? id = some f) :
    (s.nextBatch id).1 = none ↔ f.pending = [] ∧ f.live = true := by
  unfold nextBatch
  rw [hf]
  dsimp only
  split
  · next hp => simp [hp]
  · next hp =>
    split
    · next hl => simp [hp, hl]
    · next hl => simp [hl]

/-- An outage puts its error behind what was not read. -/
theorem feed?_setAvailable_false (s : Store) (now id : Nat) :
    (s.setAvailable now false).feed? id = ((s.touch now).feed? id).map Feed.cutOff :=
  feed?_map Feed.cutOff_id rfl id

end Store

end ServiceDirectory
