import ServiceDirectory.Proofs.Activity.HostedRows

/-! # Timers of hosted rows

The touches of the rows of a registry are recorded, the newest first, each with the row and the
timer that are there afterwards. In a registry that keeps time an id with a row has one timer, the
one of its last touch, and an id without a row has none (`KeepsTime.timersFor_spec`). What a
registry does at once is one of the cases of `Registry.Turn`: each of them keeps time, and none
brings back a timer that was replaced.
-/

namespace ServiceDirectory

/-- What there is for an id just after it was registered, restored or kept alive. -/
structure Touch where
  id : ServiceId
  time : Nat
  row : Option Row
  timer : Option Timer

structure Touch.Arms (touch : Touch) (t : Timer) : Prop where
  id : touch.id.IsStorable
  row : ∃ row, touch.row = some row ∧ t.ttl = row.ttl
  armedAt : t.armedAt = touch.time

def lastTouch? (log : List Touch) (id : ServiceId) : Option Touch := log.find? (·.id = id)

theorem lastTouch?_cons (touch : Touch) (log : List Touch) (id : ServiceId) :
    lastTouch? (touch :: log) id = if touch.id = id then some touch else lastTouch? log id := by
  by_cases h : touch.id = id <;> simp [lastTouch?, h]

theorem mem_of_lastTouch? {log : List Touch} {id : ServiceId} {touch : Touch}
    (h : lastTouch? log id = some touch) : touch ∈ log := List.mem_of_find?_eq_some h

def Timer.unfired (t : Timer) : Timer := { t with fired := false }

namespace Registry

variable {r r' : Registry} {log log' : List Touch} {now generation : Nat} {id : ServiceId}
  {row : Row} {rows : Table}

def touch (r : Registry) (now : Nat) (id : ServiceId) : Touch :=
  ⟨id, now, r.rows.row? id, r.timers.find? id⟩

def timersFor (r : Registry) (id : ServiceId) : List Timer :=
  (r.timers.entries.filter fun e => e.1 = id).map (·.2)

/-- Every row has the timer of its last touch, and nothing else has a timer. -/
structure KeepsTime (r : Registry) (log : List Touch) : Prop where
  proper : r.IsProper
  untimed : ∀ id, r.rows.row? id = none → r.timers.find? id = none
  timed : ∀ id row, r.rows.row? id = some row → ∃ touch t,
    lastTouch? log id = some touch ∧ touch.row = some row ∧
      r.timers.find? id = some t ∧ touch.timer = some t.unfired
  touches : ∀ touch ∈ log, ∀ t ∈ touch.timer, touch.Arms t ∧ t.generation ≤ r.generation
  ordered : log.Pairwise fun newer older =>
    ∀ t ∈ newer.timer, ∀ u ∈ older.timer, u.generation < t.generation

theorem keepsTime_empty (h : r.IsProper) (hr : ∀ id, r.rows.row? id = none)
    (ht : r.timers = Dictionary.empty) : r.KeepsTime [] where
  proper := h
  untimed id _ := by rw [ht, Dictionary.find?_empty]
  timed id row hid := by
    rw [hr] at hid
    cases hid
  touches touch hmem := by cases hmem
  ordered := .nil

/-! ## Timers that are there -/

theorem find?_timers_arm (r : Registry) (now : Nat) (id id' : ServiceId) (ttl : UInt32) :
    (r.arm now id ttl).timers.find? id' =
      if id' = id then some ⟨r.generation + 1, ttl, now, false⟩ else r.timers.find? id' :=
  Dictionary.find?_insert ..

theorem find?_timers_disarm (r : Registry) (id id' : ServiceId) :
    (r.disarm id).timers.find? id' = if id' = id then none else r.timers.find? id' :=
  Dictionary.find?_erase ..

theorem find?_timers_markFired (r : Registry) (id id' : ServiceId) :
    (r.markFired id).timers.find? id' =
      (r.timers.find? id').map fun t => { t with fired := t.fired || id' = id } := by
  unfold markFired
  split
  · next t ht =>
    rw [Dictionary.find?_insert]
    by_cases h : id' = id
    · simp [h, ht]
    · simp [h]
  · next hnone =>
    by_cases h : id' = id
    · simp [h, hnone]
    · simp [h]

theorem timersFor_eq (r : Registry) (id : ServiceId) :
    r.timersFor id = (r.timers.find? id).toList := Dictionary.map_filter_entries ..

theorem isCurrent_eq_true_iff :
    r.isCurrent id generation = true ↔
      ∃ t, r.timers.find? id = some t ∧ t.generation = generation := by
  simp [isCurrent, Option.any_eq_true]

theorem isCurrent_eq_false_iff :
    r.isCurrent id generation = false ↔ ∀ t ∈ r.timers.find? id, t.generation ≠ generation := by
  simp [isCurrent, Option.any_eq_false]

theorem expire_of_not_isCurrent (h : r.isCurrent id generation = false) :
    r.expire id generation = (none, r) := by
  simp [expire, h]

theorem KeepsTime.touch_eq (h : r.KeepsTime log) {touch touch' : Touch} {t u : Timer}
    (htouch : touch ∈ log) (htouch' : touch' ∈ log) (ht : t ∈ touch.timer) (hu : u ∈ touch'.timer)
    (hg : t.generation = u.generation) : touch = touch' := by
  by_contra hne
  let Differ : Touch → Touch → Prop := fun a b =>
    ∀ t ∈ a.timer, ∀ u ∈ b.timer, t.generation ≠ u.generation
  have hd : log.Pairwise Differ := h.ordered.imp fun hlt t ht u hu => (hlt t ht u hu).ne'
  have : Std.Symm Differ := ⟨fun _ _ hab t ht u hu => (hab u hu t ht).symm⟩
  exact hd.forall htouch htouch' hne t ht u hu hg

theorem KeepsTime.lastTouch?_of_isCurrent (h : r.KeepsTime log)
    (hc : r.isCurrent id generation = true)
    {touch : Touch} {t : Timer} (htouch : touch ∈ log) (ht : t ∈ touch.timer)
    (hg : t.generation = generation) : lastTouch? log id = some touch := by
  obtain ⟨u, hu, hug⟩ := isCurrent_eq_true_iff.1 hc
  cases hr : r.rows.row? id with
  | none =>
    rw [h.untimed id hr] at hu
    cases hu
  | some row =>
    obtain ⟨last, u', hlast, -, hu', htimer⟩ := h.timed id row hr
    cases hu.symm.trans hu'
    rw [hlast, h.touch_eq (mem_of_lastTouch? hlast) htouch htimer ht (hug.trans hg.symm)]

theorem KeepsTime.timersFor_spec (h : r.KeepsTime log) (id : ServiceId) :
    match r.rows.row? id with
    | none => r.timersFor id = []
    | some row => ∃ t newer touch earlier, r.timersFor id = [t] ∧ t.ttl = row.ttl ∧
      log = newer ++ touch :: earlier ∧ touch.id = id ∧ (∀ e ∈ newer, e.id ≠ id) ∧
        touch.timer = some t.unfired ∧
          ∀ e ∈ earlier, ∀ u ∈ e.timer, u.generation < t.generation := by
  rw [timersFor_eq]
  cases hr : r.rows.row? id with
  | none => simp [h.untimed id hr]
  | some row =>
    obtain ⟨touch, t, hlast, hrow, ht, htimer⟩ := h.timed id row hr
    obtain ⟨hid, newer, earlier, rfl, hnewer⟩ := List.find?_eq_some_iff_append.1 hlast
    have harms := (h.touches touch (by simp) _ htimer).1
    obtain ⟨row', hrow', httl⟩ := harms.row
    cases hrow.symm.trans hrow'
    refine ⟨t, newer, touch, earlier, by simp [ht], httl, rfl, by simpa using hid,
      by simpa using hnewer, htimer, fun e he u hu => ?_⟩
    have hpair := (List.pairwise_append.1 h.ordered).2.1
    exact (List.pairwise_cons.1 hpair).1 e he _ htimer u hu

/-! ## Turns -/

inductive Turn (now : Nat) (r : Registry) (log : List Touch) : Registry → List Touch → Prop
  | kept {r' : Registry} : r'.rows = r.rows → r'.timers = r.timers →
      r'.generation = r.generation → Turn now r log r' log
  | missed {id : ServiceId} : r.rows.row? id = none → Turn now r log r (r.touch now id :: log)
  | armed {rows : Table} {row : Row} : IsProper { r with rows } → row.id.IsStorable →
      (∀ id, rows.row? id = if id = row.id then some row else r.rows.row? id) →
      Turn now r log ({ r with rows }.arm now row.id row.ttl)
        (({ r with rows }.arm now row.id row.ttl).touch now row.id :: log)
  | disarmed {rows : Table} {id : ServiceId} : IsProper { r with rows } →
      (∀ id', rows.row? id' = if id' = id then none else r.rows.row? id') →
      Turn now r log ({ r with rows }.disarm id) log
  | fired (id : ServiceId) : Turn now r log (r.markFired id) log

theorem register_turn (h : r.IsProper) (now : Nat) (hrow : row.IsProper)
    (hv : row.id.isValid = true) (log : List Touch) : ∃ outcome r',
      r.register now row = .ok (outcome, r') ∧ Turn now r log r' (r'.touch now row.id :: log) := by
  obtain ⟨outcome, hr, -⟩ := h.register_eq now hrow
  exact ⟨outcome, _, hr, .armed (h.write hrow hv rfl) hrow.storable.id
    (h.rows.wellFormed.row?_write hrow.storable)⟩

theorem unregister_turn (h : r.IsProper) (now : Nat) (hid : id.IsStorable) (log : List Touch) :
    ∃ removed r', r.unregister id = .ok (removed, r') ∧ Turn now r log r' log := by
  refine ⟨r.rows.row? id, { r with rows := r.rows.erase id }.disarm id, ?_, ?_⟩
  · simp [unregister, h.rows.wellFormed.remove_eq hid]
  · exact .disarmed (h.erase hid rfl) (h.rows.wellFormed.row?_erase hid)

theorem keepAlive_turn (h : r.IsProper) (now : Nat) (hid : id.IsStorable) (log : List Touch) :
    ∃ found r', r.keepAlive now id = .ok (found, r') ∧
      Turn now r log r' (r'.touch now id :: log) := by
  have hfind := h.rows.wellFormed.find_eq hid
  cases hr : r.rows.row? id with
  | none => exact ⟨false, r, by simp [keepAlive, hfind, hr], .missed hr⟩
  | some row =>
    obtain rfl := h.row_id hr
    refine ⟨true, r.arm now row.id row.ttl, by simp [keepAlive, hfind, hr], ?_⟩
    have hrows : ∀ id, r.rows.row? id = if id = row.id then some row else r.rows.row? id := by
      intro id
      split
      · next hid => rw [hid, hr]
      · rfl
    exact .armed h hid hrows

/-- A timer removes only its own row, and only if it was not replaced. -/
theorem expire_cases (h : r.IsProper) (hid : id.IsStorable) (generation : Nat) :
    (r.isCurrent id generation = false ∧ (r.expire id generation).2 = r) ∨
      r.isCurrent id generation = true ∧
        (r.expire id generation).2 = { r with rows := r.rows.erase id }.disarm id := by
  cases hc : r.isCurrent id generation with
  | false => exact .inl ⟨rfl, by rw [expire_of_not_isCurrent hc]⟩
  | true =>
    have hremove : (r.disarm id).rows.remove id = .ok (r.rows.row? id, r.rows.erase id) :=
      h.rows.wellFormed.remove_eq hid
    refine .inr ⟨rfl, ?_⟩
    simp only [expire, hc, if_true, hremove]
    rfl

theorem expire_turn (h : r.IsProper) (now : Nat) (hid : id.IsStorable) (generation : Nat)
    (log : List Touch) : Turn now r log (r.expire id generation).2 log := by
  rcases expire_cases h hid generation with ⟨-, he⟩ | ⟨-, he⟩
  · rw [he]
    exact .kept rfl rfl rfl
  · rw [he]
    exact .disarmed (h.erase hid rfl) (h.rows.wellFormed.row?_erase hid)

theorem touch_arm (hr : rows.row? row.id = some row) (r : Registry) (now : Nat) :
    ({ r with rows }.arm now row.id row.ttl).touch now row.id =
      ⟨row.id, now, some row, some ⟨r.generation + 1, row.ttl, now, false⟩⟩ := by
  rw [touch, find?_timers_arm, if_pos rfl]
  exact congrArg (Touch.mk row.id now · _) hr

theorem KeepsTime.arm (h : r.KeepsTime log) (now : Nat) (hp : IsProper { r with rows })
    (hid : row.id.IsStorable)
    (hr : ∀ id, rows.row? id = if id = row.id then some row else r.rows.row? id) :
    ({ r with rows }.arm now row.id row.ttl).KeepsTime
      (({ r with rows }.arm now row.id row.ttl).touch now row.id :: log) := by
  rw [touch_arm ((hr row.id).trans (if_pos rfl))]
  refine ⟨hp.of_rows rfl, fun id hnone => ?_, fun id row' hsome => ?_,
    fun touch hmem t ht => ?_, ?_⟩
  · have hnone : rows.row? id = none := hnone
    rw [hr] at hnone
    split at hnone
    · cases hnone
    · next hne => rw [find?_timers_arm, if_neg hne, h.untimed id hnone]
  · have hsome : rows.row? id = some row' := hsome
    rw [hr] at hsome
    rw [find?_timers_arm]
    split at hsome
    · next heq =>
      cases hsome
      refine ⟨⟨row.id, now, some row, some ⟨r.generation + 1, row.ttl, now, false⟩⟩,
        ⟨r.generation + 1, row.ttl, now, false⟩, ?_, rfl, if_pos heq, rfl⟩
      rw [lastTouch?_cons, if_pos heq.symm]
    · next hne =>
      obtain ⟨last, t, hlast, hrow, ht, htimer⟩ := h.timed id row' hsome
      refine ⟨last, t, ?_, hrow, by rwa [if_neg hne], htimer⟩
      rwa [lastTouch?_cons, if_neg (Ne.symm hne)]
  · rcases List.mem_cons.1 hmem with rfl | hmem
    · cases ht
      exact ⟨⟨hid, ⟨row, rfl, rfl⟩, rfl⟩, Nat.le_refl _⟩
    · obtain ⟨harms, hle⟩ := h.touches touch hmem t ht
      exact ⟨harms, Nat.le_succ_of_le hle⟩
  · -- the generation of the new timer is above all that were recorded
    refine List.pairwise_cons.2 ⟨fun older hmem t ht u hu => ?_, h.ordered⟩
    cases ht
    exact Nat.lt_succ_of_le (h.touches older hmem u hu).2

theorem KeepsTime.disarm (h : r.KeepsTime log) (hp : IsProper { r with rows })
    (hr : ∀ id', rows.row? id' = if id' = id then none else r.rows.row? id') :
    ({ r with rows }.disarm id).KeepsTime log := by
  refine ⟨hp.of_rows rfl, fun id' hnone => ?_, fun id' row' hsome => ?_, h.touches, h.ordered⟩
  · have hnone : rows.row? id' = none := hnone
    rw [hr] at hnone
    rw [find?_timers_disarm]
    split
    · rfl
    · next hne => exact h.untimed id' (by rwa [if_neg hne] at hnone)
  · have hsome : rows.row? id' = some row' := hsome
    rw [hr] at hsome
    split at hsome
    · cases hsome
    · next hne =>
      obtain ⟨touch, t, hlast, hrow, ht, htimer⟩ := h.timed id' row' hsome
      exact ⟨touch, t, hlast, hrow, by rw [find?_timers_disarm, if_neg hne]; exact ht, htimer⟩

theorem rows_markFired (r : Registry) (id : ServiceId) : (r.markFired id).rows = r.rows := by
  unfold markFired
  split <;> rfl

theorem generation_markFired (r : Registry) (id : ServiceId) :
    (r.markFired id).generation = r.generation := by
  unfold markFired
  split <;> rfl

theorem KeepsTime.markFired (h : r.KeepsTime log) (id : ServiceId) :
    (r.markFired id).KeepsTime log := by
  refine ⟨h.proper.of_rows (rows_markFired r id), fun id' hnone => ?_, fun id' row hsome => ?_,
    by rw [generation_markFired]; exact h.touches, h.ordered⟩
  · rw [rows_markFired] at hnone
    rw [find?_timers_markFired, h.untimed id' hnone, Option.map_none]
  · rw [rows_markFired] at hsome
    obtain ⟨touch, t, hlast, hrow, ht, htimer⟩ := h.timed id' row hsome
    refine ⟨touch, { t with fired := t.fired || id' = id }, hlast, hrow, ?_, htimer⟩
    rw [find?_timers_markFired, ht, Option.map_some]

theorem KeepsTime.miss (h : r.KeepsTime log) (now : Nat) (hid : r.rows.row? id = none) :
    r.KeepsTime (r.touch now id :: log) := by
  have hnone : (r.touch now id).timer = none := h.untimed id hid
  refine ⟨h.proper, h.untimed, fun id' row hsome => ?_, fun touch hmem t ht => ?_, ?_⟩
  · have hne : (r.touch now id).id ≠ id' := by
      rintro rfl
      cases hid.symm.trans hsome
    obtain ⟨last, t, hlast, hrest⟩ := h.timed id' row hsome
    exact ⟨last, t, by rwa [lastTouch?_cons, if_neg hne], hrest⟩
  · rcases List.mem_cons.1 hmem with rfl | hmem
    · rw [hnone] at ht
      cases ht
    · exact h.touches touch hmem t ht
  · refine List.pairwise_cons.2 ⟨fun older _ t ht => ?_, h.ordered⟩
    rw [hnone] at ht
    cases ht

theorem Turn.keepsTime (ht : Turn now r log r' log') (h : r.KeepsTime log) :
    r'.KeepsTime log' := by
  cases ht with
  | kept hr htimers hg =>
    exact ⟨h.proper.of_rows hr, by rw [hr, htimers]; exact h.untimed,
      by rw [hr, htimers]; exact h.timed, by rw [hg]; exact h.touches, h.ordered⟩
  | missed hid => exact h.miss now hid
  | armed hp hid hr => exact h.arm now hp hid hr
  | disarmed hp hr => exact h.disarm hp hr
  | fired id => exact h.markFired id

theorem Turn.suffix (ht : Turn now r log r' log') : log <:+ log' := by
  cases ht with
  | missed _ => exact List.suffix_cons ..
  | armed _ _ _ => exact List.suffix_cons ..
  | _ => exact List.suffix_refl _

/-- A timer that was replaced or called off does not come back. -/
theorem Turn.not_isCurrent (ht : Turn now r log r' log') (hg : generation ≤ r.generation)
    (h : r.isCurrent id generation = false) : r'.isCurrent id generation = false := by
  rw [isCurrent_eq_false_iff] at h ⊢
  intro t hmem
  cases ht with
  | kept _ htimers _ =>
    rw [htimers] at hmem
    exact h t hmem
  | missed _ => exact h t hmem
  | armed _ _ _ =>
    rw [find?_timers_arm] at hmem
    split at hmem
    · cases hmem
      exact (Nat.lt_succ_of_le hg).ne'
    · exact h t hmem
  | disarmed _ _ =>
    rw [find?_timers_disarm] at hmem
    split at hmem
    · cases hmem
    · exact h t hmem
  | fired _ =>
    rw [find?_timers_markFired] at hmem
    obtain ⟨u, hu, rfl⟩ := Option.map_eq_some_iff.1 hmem
    exact h u hu

/-! ## Restoring -/

def restored (now : Nat) : List Row → Registry → List Touch → List Touch
  | [], _, log => log
  | row :: rows, r, log => match r.register now row with
    | .ok (_, r) => restored now rows r (r.touch now row.id :: log)
    | .error _ => log

theorem restore_keepsTime (ht : r.timers = Dictionary.empty) (now : Nat) {rows : List Row}
    (hrows : ∀ row ∈ rows, row.IsProper ∧ row.id.isValid = true) :
    ∃ r', r.restore now rows = .ok (rows.length, r') ∧
      r'.KeepsTime (restored now rows { r with rows := Table.empty } []) := by
  let touches := restored now rows { r with rows := Table.empty } []
  let P : List Row → Registry → Prop := fun rows r =>
    ∃ log, r.KeepsTime log ∧ restored now rows r log = touches ∧
      ∀ row ∈ rows, row.IsProper ∧ row.id.isValid = true
  have hstep : ∀ row rows r, P (row :: rows) r →
      ∃ outcome r', r.register now row = .ok (outcome, r') ∧ P rows r' := by
    rintro row rows r ⟨log, hlog, htouches, hrows⟩
    obtain ⟨hrow, hv⟩ := hrows row (.head _)
    obtain ⟨outcome, r', hr', hturn⟩ := register_turn hlog.proper now hrow hv log
    refine ⟨outcome, r', hr', _, hturn.keepsTime hlog, ?_, fun row hrow => hrows row (.tail _ hrow)⟩
    rwa [restored, hr'] at htouches
  have hstart : P rows { r with rows := Table.empty } :=
    ⟨[], keepsTime_empty r.isProper_cleared Table.row?_empty ht, rfl, hrows⟩
  obtain ⟨r', hr', log, hlog, htouches, -⟩ := exists_restore now hstep hstart
  have htouches : log = touches := htouches
  exact ⟨r', hr', by rwa [htouches] at hlog⟩

/-- Every row has a timer that was armed at that time, and nothing else has one. -/
def IsArmedAt (r : Registry) (now : Nat) : Prop :=
  ∀ id, (r.timers.find? id).map (fun t => (t.ttl, t.armedAt, t.fired)) =
    (r.rows.row? id).map fun row => (row.ttl, now, false)

theorem IsArmedAt.timersFor_spec (h : r.IsArmedAt now) (id : ServiceId) :
    match r.rows.row? id with
    | none => r.timersFor id = []
    | some row => ∃ generation, r.timersFor id = [⟨generation, row.ttl, now, false⟩] := by
  have hid := h id
  rw [timersFor_eq]
  cases hr : r.rows.row? id with
  | none =>
    rw [hr] at hid
    simp [Option.map_eq_none_iff.1 hid]
  | some row =>
    rw [hr] at hid
    obtain ⟨⟨generation, ttl, armedAt, fired⟩, ht, heq⟩ := Option.map_eq_some_iff.1 hid
    cases heq
    exact ⟨generation, by simp [ht]⟩

theorem IsArmedAt.register (h : r.IsArmedAt now) (hp : r.IsProper) (hrow : row.IsStorable) :
    ({ r with rows := r.rows.write row }.arm now row.id row.ttl).IsArmedAt now := by
  intro id
  have hrows : ({ r with rows := r.rows.write row }.arm now row.id row.ttl).rows.row? id =
      if id = row.id then some row else r.rows.row? id := hp.rows.wellFormed.row?_write hrow id
  rw [hrows, find?_timers_arm]
  split
  · rfl
  · exact h id

/-- Restoring rows where there are no timers leaves the last row of every id, and arms all timers at
the time. -/
theorem restore_spec (ht : r.timers = Dictionary.empty) (now : Nat) {rows : List Row}
    (hrows : ∀ row ∈ rows, row.IsProper ∧ row.id.isValid = true) :
    ∃ r', r.restore now rows = .ok (rows.length, r') ∧ r'.IsProper ∧ r'.IsArmedAt now ∧
      ∀ id, r'.rows.row? id = Dictionary.lastFor id (rows.map fun row => (row.id, row)) := by
  let last : ServiceId → List Row → Option Row := fun id rows =>
    Dictionary.lastFor id (rows.map fun row => (row.id, row))
  let P : List Row → Registry → Prop := fun rest r =>
    (∀ row ∈ rest, row.IsProper ∧ row.id.isValid = true) ∧ r.IsProper ∧ r.IsArmedAt now ∧
      ∀ id, (last id rest).or (r.rows.row? id) = last id rows
  have hstep : ∀ row rest r, P (row :: rest) r →
      ∃ outcome r', r.register now row = .ok (outcome, r') ∧ P rest r' := by
    rintro row rest r ⟨hrest, hp, harmed, hlast⟩
    obtain ⟨hrow, hv⟩ := hrest row (.head _)
    obtain ⟨outcome, hr, -⟩ := hp.register_eq now hrow
    refine ⟨outcome, _, hr, fun row hrow => hrest row (.tail _ hrow), hp.write hrow hv rfl,
      harmed.register hp hrow.storable, fun id => ?_⟩
    have hwrite : ({ r with rows := r.rows.write row }.arm now row.id row.ttl).rows.row? id =
        if id = row.id then some row else r.rows.row? id :=
      hp.rows.wellFormed.row?_write hrow.storable id
    have hcons : last id (row :: rest) =
        (last id rest).or (if id = row.id then some row else none) := Dictionary.lastFor_cons ..
    rw [hwrite, ← hlast id, hcons, Option.or_assoc]
    split <;> rfl
  have hstart : P rows { r with rows := Table.empty } := by
    refine ⟨hrows, r.isProper_cleared, fun id => ?_, fun id => ?_⟩
    · simp [ht]
    · rw [Table.row?_empty, Option.or_none]
  obtain ⟨r', hr', -, hp, harmed, hlast⟩ := exists_restore now hstep hstart
  exact ⟨r', hr', hp, harmed, hlast⟩

end Registry

end ServiceDirectory
