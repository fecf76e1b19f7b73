import Mathlib.Tactic
import ServiceDirectory.Activity.Watching

/-! # The rules of watches

A watch acknowledges the present revision and then yields, in batches of any size, the events from
its start on; it may break off at any item. A ledger tells where the events of a store are while one
watch after another is read: the ones that were received, the ones that were passed over, and the
ones that the open watch still owes.
-/

namespace ServiceDirectory

structure RemoteStream where
  feed : Nat
  /-- The revision of the acknowledgement, while it was not read. -/
  acknowledgement : Option Int
  start : Int
  owed : List Event
  floor : Int

/-- A store as far as the services of one namespace are concerned. -/
structure Remote where
  revision : Int
  history : List Event
  stream : Option RemoteStream
  firstAck : Option Int

namespace Remote

/-- A watch from revision zero starts after the present one. -/
def openStream (r : Remote) (feed : Nat) (start : Int) : RemoteStream :=
  let start := if start = 0 then r.revision + 1 else start
  ⟨feed, some r.revision, start, r.history.filter fun e => start ≤ e.revision, r.revision⟩

/-- A change of the store with the events that it means for the namespace. -/
def commit (r : Remote) (es : List Event) : Remote :=
  { r with
    revision := r.revision + 1
    history := r.history ++ es
    stream := r.stream.map fun st =>
      { st with owed := st.owed ++ es.filter fun e => st.start ≤ e.revision } }

def IsNewer (r : Remote) (e : Event) : Prop := ∃ revision ∈ r.firstAck, revision < e.revision

def IsCancellation : Error → Prop
  | .remote (.watchCanceled _ _) => True
  | _ => False

/-- The answers that the rules allow. -/
inductive Answers (r : Remote) : (q : Request) → q.Answer → Remote → Prop
  | opened (range : KeyRange) (start : Int) (feed : Nat) :
      Answers r (.openWatch range start) (.ok feed)
        { r with stream := some (r.openStream feed start) }
  | refused (range : KeyRange) (start : Int) {e : Error} : ¬ IsCancellation e →
      Answers r (.openWatch range start) (.error e) { r with stream := none }
  | acknowledged {st : RemoteStream} {revision : Int} :
      r.stream = some st → st.acknowledgement = some revision →
      Answers r (.nextBatch st.feed) (.ok ⟨revision, []⟩)
        { r with
          stream := some { st with acknowledgement := none }
          firstAck := r.firstAck.or (some revision) }
  | yielded {st : RemoteStream} {es rest : List Event} {revision : Int} :
      r.stream = some st → st.acknowledgement = none → st.owed = es ++ rest → es ≠ [] →
      (∀ e ∈ es, e.revision ≤ revision) → st.floor ≤ revision → revision ≤ r.revision →
      Answers r (.nextBatch st.feed) (.ok ⟨revision, es⟩)
        { r with stream := some { st with owed := rest, floor := revision } }
  | brokeOff {st : RemoteStream} {e : Error} : r.stream = some st → ¬ IsCancellation e →
      Answers r (.nextBatch st.feed) (.error e) { r with stream := none }
  | ready : Answers r .ready () r
  | closed (feed : Nat) : Answers r (.closeWatch feed) () r

/-! ## Where the events are -/

/-- What an open watch, the events received and passed over, and the next revision have to do with
each other: what is from the watch's start on was received or is owed, and what is before it was
received or passed over. -/
structure StreamLedger (r : Remote) (received passed : List Event) (next : Int)
    (st : RemoteStream) : Prop where
  owed : ∀ e ∈ st.owed, e ∈ r.history ∧ st.start ≤ e.revision
  complete : ∀ e ∈ r.history, st.start ≤ e.revision → e ∈ received ∨ e ∈ st.owed
  before : ∀ e ∈ r.history, r.IsNewer e → e.revision < st.start → e ∈ received ∨ e ∈ passed
  passed_lt : ∀ e ∈ passed, e.revision < st.start
  firstAck_lt : ∀ revision ∈ r.firstAck, revision < st.start
  start_le : st.start ≤ r.revision + 1
  unread : ∀ revision ∈ st.acknowledgement, 0 ≤ revision ∧ revision ≤ r.revision ∧
    st.start = if next = 0 then revision + 1 else next
  read : st.acknowledgement = none → next ≠ 0

structure Ledger (r : Remote) (received passed : List Event) (next : Int) : Prop where
  revision_nonneg : 0 ≤ r.revision
  next_nonneg : 0 ≤ next
  next_le : next ≤ r.revision + 1
  firstAck_none : r.firstAck = none → next = 0
  firstAck_lt : ∀ revision ∈ r.firstAck, 0 ≤ revision ∧ revision < next
  history_le : ∀ e ∈ r.history, e.revision ≤ r.revision
  received_lt : ∀ e ∈ received, e.revision < next
  passed_mem : ∀ e ∈ passed, e ∈ r.history ∧ r.IsNewer e ∧ e.revision < next ∧ e ∉ received
  closed : r.stream = none → ∀ e ∈ r.history, r.IsNewer e →
    e ∈ received ∨ e ∈ passed ∨ next ≤ e.revision
  stream : ∀ st ∈ r.stream, StreamLedger r received passed next st

variable {r : Remote} {received passed : List Event} {next : Int}

theorem not_isNewer_of_firstAck_none (h : r.firstAck = none) (e : Event) : ¬ r.IsNewer e := by
  rintro ⟨revision, hr, -⟩
  rw [h] at hr
  cases hr

theorem Ledger.next_eq_zero_iff (h : Ledger r received passed next) :
    next = 0 ↔ r.firstAck = none := by
  constructor
  · intro hn
    cases hf : r.firstAck with
    | none => rfl
    | some revision =>
      have := h.firstAck_lt revision hf
      omega
  · exact h.firstAck_none

theorem Ledger.ne_zero_of_isNewer (h : Ledger r received passed next) {e : Event}
    (hnew : r.IsNewer e) : next ≠ 0 := by
  intro hz
  exact not_isNewer_of_firstAck_none (h.next_eq_zero_iff.1 hz) e hnew

theorem Ledger.beforeWatches (hr : 0 ≤ r.revision) (hh : ∀ e ∈ r.history, e.revision ≤ r.revision)
    (hs : r.stream = none) (hf : r.firstAck = none) : Ledger r [] [] 0 where
  revision_nonneg := hr
  next_nonneg := le_rfl
  next_le := by omega
  firstAck_none _ := rfl
  firstAck_lt revision hrevision := by
    rw [hf] at hrevision
    cases hrevision
  history_le := hh
  received_lt e he := by cases he
  passed_mem e he := by cases he
  closed _ e _ hnew := absurd hnew (not_isNewer_of_firstAck_none hf e)
  stream st hst := by
    rw [hs] at hst
    cases hst

/-! ## A change of the store -/

theorem StreamLedger.commit {st : RemoteStream} (hl : StreamLedger r received passed next st)
    {es : List Event} (hes : ∀ e ∈ es, e.revision = r.revision + 1) :
    StreamLedger (r.commit es) received passed next
      { st with owed := st.owed ++ es.filter fun e => st.start ≤ e.revision } where
  owed e he := by
    rcases List.mem_append.1 he with he | he
    · exact ⟨List.mem_append_left _ (hl.owed e he).1, (hl.owed e he).2⟩
    · obtain ⟨he, hle⟩ := List.mem_filter.1 he
      exact ⟨List.mem_append_right _ he, by simpa using hle⟩
  complete e he hle := by
    rcases List.mem_append.1 he with he | he
    · exact (hl.complete e he hle).imp_right (List.mem_append_left _)
    · exact .inr (List.mem_append_right _ (List.mem_filter.2 ⟨he, by simpa using hle⟩))
  before e he hnew hlt := by
    rcases List.mem_append.1 he with he | he
    · exact hl.before e he hnew hlt
    · have hrevision := hes e he
      have hstart := hl.start_le
      change e.revision < st.start at hlt
      omega
  passed_lt := hl.passed_lt
  firstAck_lt := hl.firstAck_lt
  start_le := by
    have hstart := hl.start_le
    change st.start ≤ r.revision + 1 + 1
    omega
  unread revision hr := by
    obtain ⟨h0, hle, hs⟩ := hl.unread revision hr
    exact ⟨h0, Int.le_trans hle (Int.le_add_one (Int.le_refl _)), hs⟩
  read := hl.read

theorem Ledger.commit (h : Ledger r received passed next) {es : List Event}
    (hes : ∀ e ∈ es, e.revision = r.revision + 1) :
    Ledger (r.commit es) received passed next where
  revision_nonneg := Int.le_trans h.revision_nonneg (Int.le_add_one (Int.le_refl _))
  next_nonneg := h.next_nonneg
  next_le := Int.le_trans h.next_le (Int.le_add_one (Int.le_refl _))
  firstAck_none := h.firstAck_none
  firstAck_lt := h.firstAck_lt
  history_le e he := by
    change e.revision ≤ r.revision + 1
    rcases List.mem_append.1 he with he | he
    · have := h.history_le e he
      omega
    · exact (hes e he).le
  received_lt := h.received_lt
  passed_mem e he := by
    obtain ⟨hh, hrest⟩ := h.passed_mem e he
    exact ⟨List.mem_append_left _ hh, hrest⟩
  closed hs e he hnew := by
    have hs' : r.stream = none := by simpa [Remote.commit] using hs
    rcases List.mem_append.1 he with he | he
    · exact h.closed hs' e he hnew
    · have := hes e he
      have := h.next_le
      exact .inr (.inr (by omega))
  stream st' hst' := by
    obtain ⟨st, hst, rfl⟩ := Option.map_eq_some_iff.1 hst'
    exact (h.stream st hst).commit hes

/-! ## A watch is opened -/

theorem mem_owed_openStream (feed : Nat) (start : Int) (e : Event) :
    e ∈ (r.openStream feed start).owed ↔
      e ∈ r.history ∧ (r.openStream feed start).start ≤ e.revision := by
  simp [openStream]

theorem start_openStream (feed : Nat) (start : Int) :
    (r.openStream feed start).start = if start = 0 then r.revision + 1 else start := rfl

theorem Ledger.openStream (h : Ledger r received passed next) (hs : r.stream = none)
    (feed : Nat) : StreamLedger { r with stream := some (r.openStream feed next) } received passed
      next (r.openStream feed next) where
  owed e he := (mem_owed_openStream feed next e).1 he
  complete e he hle := .inr ((mem_owed_openStream feed next e).2 ⟨he, hle⟩)
  before e he hnew hlt := by
    rw [start_openStream, if_neg (h.ne_zero_of_isNewer hnew)] at hlt
    obtain hr | hp | hle := h.closed hs e he hnew
    · exact .inl hr
    · exact .inr hp
    · omega
  passed_lt e he := by
    obtain ⟨-, hnew, hlt, -⟩ := h.passed_mem e he
    rwa [start_openStream, if_neg (h.ne_zero_of_isNewer hnew)]
  firstAck_lt revision hr := by
    have hlt := h.firstAck_lt revision hr
    have hnext := h.next_le
    rw [start_openStream]
    split <;> omega
  start_le := by
    have hnext := h.next_le
    rw [start_openStream]
    change _ ≤ r.revision + 1
    split <;> omega
  unread revision hr := by
    obtain rfl : r.revision = revision := Option.some.inj hr
    exact ⟨h.revision_nonneg, Int.le_refl _, rfl⟩
  read hn := by cases hn

theorem Ledger.opened (h : Ledger r received passed next) (hs : r.stream = none) (feed : Nat) :
    Ledger { r with stream := some (r.openStream feed next) } received passed next where
  revision_nonneg := h.revision_nonneg
  next_nonneg := h.next_nonneg
  next_le := h.next_le
  firstAck_none := h.firstAck_none
  firstAck_lt := h.firstAck_lt
  history_le := h.history_le
  received_lt := h.received_lt
  passed_mem := h.passed_mem
  closed hs' := by cases hs'
  stream st hst := by
    obtain rfl : r.openStream feed next = st := Option.some.inj hst
    exact h.openStream hs feed

/-! ## Items of a watch -/

theorem Ledger.mem_firstAck_or (h : Ledger r received passed next) {revision x : Int}
    (hx : x ∈ r.firstAck.or (some revision)) : x ∈ r.firstAck ∨ x = revision ∧ next = 0 := by
  cases hf : r.firstAck with
  | none =>
    rw [hf] at hx
    exact .inr ⟨(Option.some.inj hx).symm, h.firstAck_none hf⟩
  | some y =>
    rw [hf] at hx
    exact .inl hx

theorem Ledger.acknowledgedStream (h : Ledger r received passed next) {st : RemoteStream}
    {revision : Int} (hst : r.stream = some st) (hack : st.acknowledgement = some revision) :
    StreamLedger { r with
      stream := some { st with acknowledgement := none }
      firstAck := r.firstAck.or (some revision) } received passed (max next (revision + 1))
      { st with acknowledgement := none } := by
  have hl := h.stream st hst
  obtain ⟨h0, -, hstart⟩ := hl.unread revision hack
  exact {
    owed := hl.owed
    complete := hl.complete
    before := by
      rintro e he ⟨x, hx, hlt'⟩ hlt
      change e.revision < st.start at hlt
      obtain hx | ⟨rfl, hz⟩ := h.mem_firstAck_or hx
      · exact hl.before e he ⟨x, hx, hlt'⟩ hlt
      · rw [if_pos hz] at hstart
        omega
    passed_lt := hl.passed_lt
    firstAck_lt := by
      intro x hx
      change x < st.start
      obtain hx | ⟨rfl, hz⟩ := h.mem_firstAck_or hx
      · exact hl.firstAck_lt x hx
      · rw [if_pos hz] at hstart
        omega
    start_le := hl.start_le
    unread := fun x hx => by cases hx
    read := fun _ => by omega }

theorem Ledger.acknowledged (h : Ledger r received passed next) {st : RemoteStream}
    {revision : Int} (hst : r.stream = some st) (hack : st.acknowledgement = some revision) :
    Ledger { r with
      stream := some { st with acknowledgement := none }
      firstAck := r.firstAck.or (some revision) } received passed (max next (revision + 1)) where
  revision_nonneg := h.revision_nonneg
  next_nonneg := by
    have hnn := h.next_nonneg
    omega
  next_le := by
    obtain ⟨-, hle, -⟩ := (h.stream st hst).unread revision hack
    have hnext := h.next_le
    change max next (revision + 1) ≤ r.revision + 1
    omega
  firstAck_none hn := by cases hf : r.firstAck <;> simp [hf] at hn
  firstAck_lt x hx := by
    obtain hx | ⟨rfl, -⟩ := h.mem_firstAck_or hx
    · have := h.firstAck_lt x hx
      omega
    · have := ((h.stream st hst).unread x hack).1
      omega
  history_le := h.history_le
  received_lt e he := by
    have := h.received_lt e he
    omega
  passed_mem e he := by
    obtain ⟨hh, ⟨x, hx, hlt⟩, hn, hr⟩ := h.passed_mem e he
    refine ⟨hh, ⟨x, ?_, hlt⟩, by omega, hr⟩
    change x ∈ r.firstAck.or (some revision)
    rw [show r.firstAck = some x from hx]
    rfl
  closed hs := by cases hs
  stream st' hst' := by
    obtain rfl : { st with acknowledgement := none } = st' := Option.some.inj hst'
    exact h.acknowledgedStream hst hack

theorem StreamLedger.yielded {st : RemoteStream} (hl : StreamLedger r received passed next st)
    {es rest : List Event} {next' : Int} (floor : Int) (hack : st.acknowledgement = none)
    (howed : st.owed = es ++ rest) (hnext : next' ≠ 0) :
    StreamLedger { r with stream := some { st with owed := rest, floor := floor } }
      (received ++ es) passed next' { st with owed := rest, floor := floor } where
  owed e he := hl.owed e (howed ▸ List.mem_append_right _ he)
  complete e he hle := by
    rcases hl.complete e he hle with hr | ho
    · exact .inl (List.mem_append_left _ hr)
    · rw [howed] at ho
      rcases List.mem_append.1 ho with ho | ho
      · exact .inl (List.mem_append_right _ ho)
      · exact .inr ho
  before e he hnew hlt := (hl.before e he hnew hlt).imp_left (List.mem_append_left _)
  passed_lt := hl.passed_lt
  firstAck_lt := hl.firstAck_lt
  start_le := hl.start_le
  unread x hx := by
    change x ∈ st.acknowledgement at hx
    rw [hack] at hx
    cases hx
  read _ := hnext

theorem Ledger.yielded (h : Ledger r received passed next) {st : RemoteStream}
    {es rest : List Event} {last : Int} (floor : Int) (hst : r.stream = some st)
    (hack : st.acknowledgement = none) (howed : st.owed = es ++ rest)
    (hes : ∀ e ∈ es, e.revision ≤ last) (hlast : last ≤ r.revision) :
    Ledger { r with stream := some { st with owed := rest, floor := floor } } (received ++ es)
      passed (max next (last + 1)) := by
  have hl := h.stream st hst
  have hnext := h.next_le
  have hnn := h.next_nonneg
  have hne := hl.read hack
  exact {
    revision_nonneg := h.revision_nonneg
    next_nonneg := by omega
    next_le := by
      change max next (last + 1) ≤ r.revision + 1
      omega
    firstAck_none := fun hn => absurd (h.firstAck_none hn) hne
    firstAck_lt := by
      intro x hx
      have := h.firstAck_lt x hx
      omega
    history_le := h.history_le
    received_lt := by
      intro e he
      rcases List.mem_append.1 he with he | he
      · have := h.received_lt e he
        omega
      · have := hes e he
        omega
    passed_mem := by
      intro e he
      obtain ⟨hh, hnew, hlt, hr⟩ := h.passed_mem e he
      refine ⟨hh, hnew, by omega, fun hm => ?_⟩
      rcases List.mem_append.1 hm with hm | hm
      · exact hr hm
      · -- what was passed over is older than the start of the watch, and this is not
        have := (hl.owed e (howed ▸ List.mem_append_left _ hm)).2
        have := hl.passed_lt e he
        omega
    closed := fun hs => by cases hs
    stream := by
      intro st' hst'
      obtain rfl : { st with owed := rest, floor := floor } = st' := Option.some.inj hst'
      exact hl.yielded floor hack howed (by omega) }

/-- The first watch owes only what its acknowledgement does not cover. -/
theorem Ledger.owed_cases (h : Ledger r received passed next) {st : RemoteStream}
    (hst : r.stream = some st) {e : Event} (he : e ∈ st.owed) :
    r.IsNewer e ∨ next = 0 ∧ 0 < e.revision := by
  have hl := h.stream st hst
  have hstart := (hl.owed e he).2
  cases hf : r.firstAck with
  | some revision => exact .inl ⟨revision, hf, lt_of_lt_of_le (hl.firstAck_lt revision hf) hstart⟩
  | none =>
    have hz := h.firstAck_none hf
    cases hack : st.acknowledgement with
    | none => exact absurd hz (hl.read hack)
    | some revision =>
      obtain ⟨h0, -, heq⟩ := hl.unread revision hack
      rw [if_pos hz] at heq
      exact .inr ⟨hz, by omega⟩

/-- The events that a stream owes when it breaks off are passed over if the next revision has passed
them. -/
theorem Ledger.brokeOff (h : Ledger r received passed next) {st : RemoteStream}
    (hst : r.stream = some st) {lost : List Event}
    (hlost : ∀ e, e ∈ lost ↔ e ∈ st.owed ∧ e.revision < next ∧ e ∉ received) :
    Ledger { r with stream := none } received (passed ++ lost) next := by
  have hl := h.stream st hst
  exact {
    revision_nonneg := h.revision_nonneg
    next_nonneg := h.next_nonneg
    next_le := h.next_le
    firstAck_none := h.firstAck_none
    firstAck_lt := h.firstAck_lt
    history_le := h.history_le
    received_lt := h.received_lt
    passed_mem := by
      intro e he
      rcases List.mem_append.1 he with he | he
      · exact h.passed_mem e he
      · obtain ⟨ho, hlt, hr⟩ := (hlost e).1 he
        refine ⟨(hl.owed e ho).1, ?_, hlt, hr⟩
        obtain hnew | ⟨hz, hpos⟩ := h.owed_cases hst ho
        · exact hnew
        · omega
    closed := by
      intro _ e he hnew
      by_cases hstart : st.start ≤ e.revision
      · rcases hl.complete e he hstart with hr | ho
        · exact .inl hr
        · by_cases hlt : e.revision < next
          · by_cases hr : e ∈ received
            · exact .inl hr
            · exact .inr (.inl (List.mem_append_right _ ((hlost e).2 ⟨ho, hlt, hr⟩)))
          · exact .inr (.inr (Int.not_lt.1 hlt))
      · rcases hl.before e he hnew (Int.not_le.1 hstart) with hr | hp
        · exact .inl hr
        · exact .inr (.inl (List.mem_append_left _ hp))
    stream := fun st' hst' => by cases hst' }

end Remote

end ServiceDirectory
