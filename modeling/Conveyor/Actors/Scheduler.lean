import Conveyor.Broker.Cron
import Conveyor.Broker.Unique
import Conveyor.Lib.Run

/-!
# Cron materialization under failover

Any number of schedulers work on the entries of one broker. A scheduler lists the due entries once and then
visits them one after the other: it arms an entry without a fire time, or enqueues a task for the slot and
moves the cursor past its clock. Between its broker calls everything else may happen, so its listing may be
old by the time it is used, and it may stop anywhere.
-/

namespace Conveyor

open Lib

/-- The Unix epoch as a time. -/
def unixEpoch : Time := 62135596800 * 10 ^ 9

/-- The time of a Unix instant in nanoseconds. -/
def unixNanoTime (nanos : Int64) : Time := unixEpoch + nanos.toInt

/-- The Unix second of a time. -/
def unixSecond (t : Time) : Int := (t - unixEpoch) / 10 ^ 9

/-- Parses a spec and computes, in Unix nanoseconds, when it fires next after an instant. -/
abbrev CronTrigger := String → Time → Option Int64

/-- The first time the spec fires after the given one. -/
def nextFire (trigger : CronTrigger) (spec : String) (after : Time) : Option Time :=
  (trigger spec after).map unixNanoTime

variable {spec : String}

/-- A fire time is never the zero time, which 64 bits of nanoseconds around the epoch do not reach. -/
theorem nextFire_ne_zero {trigger : CronTrigger} {after next : Time}
    (h : nextFire trigger spec after = some next) : next ≠ 0 := by
  obtain ⟨nanos, -, rfl⟩ := Option.map_eq_some_iff.mp h
  have hlow := nanos.le_toInt
  intro hzero
  have hsum : (62135596800 * 10 ^ 9 : Int) + nanos.toInt = 0 := hzero
  omega

/-- Backstops the claim of a materialized task on its slot. -/
def cronUniqueTTL : Duration := 60 * 10 ^ 9

/-- The uniqueness key of the task for one fire slot. -/
def cronUniqueKey (entryID : String) (slot : Time) : String := "cron:" ++ entryID ++ ":" ++ toString (unixSecond slot)

/-- The task an entry produces for one fire slot. -/
def materializeTask (entry : CronEntry) (slot : Time) (id : String) : TaskEnvelope :=
  { id := id
    queue := entry.queue
    type := entry.taskType
    payload := entry.payload
    contentType := entry.contentType
    options := { entry.options.getD {} with
      uniqueKey := cronUniqueKey entry.id slot, uniqueTtl := some cronUniqueTTL } }

/-- Where a scheduler stands in its pass. -/
inductive CronPass where
  /-- No pass is running. -/
  | idle
  /-- The entries still to be visited, listed at the clock reading. -/
  | visiting (now : Time) (entries : List CronEntry)
  /-- The slot of the entry was materialized; its cursor is moved next. -/
  | advancing (now : Time) (entry : CronEntry) (rest : List CronEntry)

/-- The broker with its cron entries, and the schedulers. -/
structure CronSystem where
  broker : Broker := {}
  entries : CronEntries := ∅
  passes : Nat → CronPass := fun _ => .idle

/-- What happens next. -/
inductive CronEvent where
  /-- Any other operation on the broker's tasks. -/
  | broker (i : Invocation)
  | upsertCronEntry (entry : CronEntry)
  | setCronPaused (id : String) (paused : Bool)
  | deleteCronEntry (id : String)
  /-- A scheduler reads its clock and lists the due entries. -/
  | list (scheduler : Nat) (now : Time) (order : MapOrder String)
  /-- A scheduler visits its next entry. The broker reads its own clock, and the task gets a new id. -/
  | visit (scheduler : Nat) (now : Time) (newID : String)
  /-- A scheduler moves the cursor of the entry it has just fired. -/
  | advance (scheduler : Nat)
  /-- A scheduler stops where it is. -/
  | stop (scheduler : Nat)

/-- The reading of the broker's clock an event comes with. -/
def CronEvent.clock : CronEvent → Option Time
  | .broker i => some i.now
  | .visit _ now _ => some now
  | _ => none

namespace CronSystem

/-- A scheduler goes on at the given place. -/
def setPass (s : CronSystem) (scheduler : Nat) (pass : CronPass) : CronSystem :=
  { s with passes := Function.update s.passes scheduler pass }

/-- Arm an entry: compute its first fire time and persist it while the entry is still unarmed. -/
def armCron (trigger : CronTrigger) (s : CronSystem) (now : Time) (entry : CronEntry) : CronSystem :=
  match nextFire trigger entry.spec now with
  | none => s
  | some next => { s with entries := s.entries.updateCronNextRun entry.id 0 next }

/-- Whether the slot is materialized after the enqueue returned: a duplicate means that another scheduler
fired it. -/
def slotTaken : Reply → Bool
  | .ok | .error .duplicateTask => true
  | _ => false

/-- Materialize the due slot of an entry. -/
def fireCron (s : CronSystem) (scheduler : Nat) (now : Time) (entry : CronEntry) (rest : List CronEntry)
    (brokerNow : Time) (newID : String) : CronSystem :=
  let (b, reply) := s.broker.exec ⟨brokerNow, .enqueue (materializeTask entry entry.nextRunAt newID), {}⟩
  { s with broker := b }.setPass scheduler
    (if slotTaken reply then .advancing now entry rest else .visiting now rest)

/-- Move the cursor of a fired entry past the clock, if it still stands at the fired slot. -/
def advanceCron (trigger : CronTrigger) (s : CronSystem) (now : Time) (entry : CronEntry) : CronSystem :=
  match nextFire trigger entry.spec now with
  | none => s
  | some next => { s with entries := s.entries.updateCronNextRun entry.id entry.nextRunAt next }

/-- One step. An event that does not fit where its scheduler stands does nothing. -/
def step (trigger : CronTrigger) (s : CronSystem) : CronEvent → CronSystem
  | .broker i => { s with broker := s.broker.after i }
  | .upsertCronEntry entry => { s with entries := s.entries.upsertCronEntry entry }
  | .setCronPaused id paused =>
    match s.entries.setCronPaused id paused with
    | .error _ => s
    | .ok entries => { s with entries := entries }
  | .deleteCronEntry id => { s with entries := s.entries.deleteCronEntry id }
  | .list scheduler now order =>
    match s.passes scheduler with
    | .idle => s.setPass scheduler (.visiting now (s.entries.listDueCronEntries order now))
    | _ => s
  | .visit scheduler brokerNow newID =>
    match s.passes scheduler with
    | .visiting _ [] => s.setPass scheduler .idle
    | .visiting now (entry :: rest) =>
      if isZero entry.nextRunAt then (s.armCron trigger now entry).setPass scheduler (.visiting now rest)
      else s.fireCron scheduler now entry rest brokerNow newID
    | _ => s
  | .advance scheduler =>
    match s.passes scheduler with
    | .advancing now entry rest => (s.advanceCron trigger now entry).setPass scheduler (.visiting now rest)
    | _ => s
  | .stop scheduler => s.setPass scheduler .idle

end CronSystem

/-- Every entry a scheduler holds was due at the clock reading it works with. -/
def CronPass.Due : CronPass → Prop
  | .idle => True
  | .visiting now entries => ∀ entry ∈ entries, entry.nextRunAt = 0 ∨ entry.nextRunAt ≤ now
  | .advancing now entry rest =>
    entry.nextRunAt ≤ now ∧ ∀ entry ∈ rest, entry.nextRunAt = 0 ∨ entry.nextRunAt ≤ now

namespace CronSystem

variable {trigger : CronTrigger} {s : CronSystem} {e : CronEvent} {id : String}

/-- Every scheduler holds only entries that were due. -/
def Due (s : CronSystem) : Prop := ∀ scheduler, (s.passes scheduler).Due

theorem due_setPass (h : s.Due) {scheduler : Nat} {pass : CronPass} (hpass : pass.Due) :
    (s.setPass scheduler pass).Due := by
  intro other
  rcases eq_or_ne other scheduler with rfl | heq
  · have hnew : (s.setPass other pass).passes other = pass := by simp [setPass]
    rw [hnew]
    exact hpass
  · have hold : (s.setPass scheduler pass).passes other = s.passes other := by simp [setPass, heq]
    rw [hold]
    exact h other

theorem armCron_passes (now : Time) (entry : CronEntry) : (s.armCron trigger now entry).passes = s.passes := by
  rw [armCron]
  split <;> rfl

theorem advanceCron_passes (now : Time) (entry : CronEntry) : (s.advanceCron trigger now entry).passes = s.passes := by
  rw [advanceCron]
  split <;> rfl

theorem due_step (h : s.Due) : (s.step trigger e).Due := by
  cases e with
  | broker | upsertCronEntry | deleteCronEntry => exact h
  | setCronPaused id paused =>
    simp only [step]
    split <;> exact h
  | list =>
    simp only [step]
    split
    · exact due_setPass h fun entry hentry => CronEntries.mem_listDueCronEntries hentry
    · exact h
  | visit scheduler brokerNow newID =>
    simp only [step]
    split
    · exact due_setPass h trivial
    · rename_i now entry rest hpass
      have hheld := h scheduler
      rw [hpass] at hheld
      obtain ⟨hentry, hrest⟩ := List.forall_mem_cons.mp hheld
      split
      · have harmed : (s.armCron trigger now entry).Due := fun other => by
          rw [armCron_passes]
          exact h other
        exact due_setPass harmed hrest
      · rename_i harmed
        have hslot := hentry.resolve_left (by simpa [isZero] using harmed)
        rw [fireCron]
        obtain ⟨b, reply⟩ := s.broker.exec ⟨brokerNow, .enqueue (materializeTask entry entry.nextRunAt newID), {}⟩
        refine due_setPass h ?_
        split
        · exact ⟨hslot, hrest⟩
        · exact hrest
    · exact h
  | advance scheduler =>
    simp only [step]
    split
    · rename_i now entry rest hpass
      have hheld := h scheduler
      rw [hpass] at hheld
      have hadvanced : (s.advanceCron trigger now entry).Due := fun other => by
        rw [advanceCron_passes]
        exact h other
      exact due_setPass hadvanced hheld.2
    · exact h
  | stop scheduler => exact due_setPass h trivial

/-- How a cursor may change: it is armed, or moves to a later fire time. -/
def CursorMoves (old new : Time) : Prop := new ≠ 0 ∧ (old = 0 ∨ old < new)

variable {entry' : CronEntry}

/-- A compare-and-set by a scheduler moves a cursor forward or leaves it. -/
theorem cursor_update {now expected next : Time} {target : String}
    (hlater : ∀ spec after next, nextFire trigger spec after = some next → after < next)
    (hnext : nextFire trigger spec now = some next) (hexpected : expected = 0 ∨ expected ≤ now)
    (h : (s.entries.updateCronNextRun target expected next).lookup id = some entry') :
    ∃ entry, s.entries.lookup id = some entry ∧
      (entry'.nextRunAt = entry.nextRunAt ∨ CursorMoves entry.nextRunAt entry'.nextRunAt) := by
  rcases CronEntries.lookup_updateCronNextRun h with hsame | ⟨entry, hentry, hstood, rfl⟩
  · exact ⟨entry', hsame, .inl rfl⟩
  · refine ⟨entry, hentry, .inr ⟨nextFire_ne_zero hnext, ?_⟩⟩
    rw [hstood]
    exact hexpected.imp_right fun hle => lt_of_le_of_lt hle (hlater spec now next hnext)

/-- What a step makes of the cursor of an entry that it does not upsert. -/
theorem cursor_step (hlater : ∀ spec after next, nextFire trigger spec after = some next → after < next) (hdue : s.Due)
    (hupsert : ∀ entry, e = .upsertCronEntry entry → entry.id ≠ id)
    (h : (s.step trigger e).entries.lookup id = some entry') :
    ∃ entry, s.entries.lookup id = some entry ∧
      (entry'.nextRunAt = entry.nextRunAt ∨ CursorMoves entry.nextRunAt entry'.nextRunAt) := by
  have hsame : s.entries.lookup id = some entry' → ∃ entry, s.entries.lookup id = some entry ∧
      (entry'.nextRunAt = entry.nextRunAt ∨ CursorMoves entry.nextRunAt entry'.nextRunAt) :=
    fun hentry => ⟨entry', hentry, .inl rfl⟩
  cases e with
  | broker | stop => exact hsame h
  | upsertCronEntry entry =>
    refine hsame ?_
    rw [← AList.lookup_insert_ne (hupsert entry rfl).symm]
    exact h
  | setCronPaused =>
    simp only [step] at h
    split at h
    · exact hsame h
    · rename_i entries hpaused
      obtain ⟨entry, hentry, hcursor⟩ := CronEntries.lookup_setCronPaused hpaused h
      exact ⟨entry, hentry, .inl hcursor⟩
  | deleteCronEntry target => exact hsame (GoMap.lookup_of_lookup_erase h)
  | list =>
    simp only [step] at h
    split at h <;> exact hsame h
  | visit =>
    simp only [step] at h
    split at h
    · exact hsame h
    · rename_i now entry rest hpass
      split at h
      · change (s.armCron trigger now entry).entries.lookup id = some entry' at h
        rw [armCron] at h
        split at h
        · exact hsame h
        · rename_i next hnext
          exact cursor_update hlater hnext (.inl rfl) h
      · exact hsame h
    · exact hsame h
  | advance scheduler =>
    simp only [step] at h
    split at h
    · rename_i now entry rest hpass
      have hheld := hdue scheduler
      rw [hpass] at hheld
      change (s.advanceCron trigger now entry).entries.lookup id = some entry' at h
      rw [advanceCron] at h
      split at h
      · exact hsame h
      · rename_i next hnext
        exact cursor_update hlater hnext (.inr hheld.1) h
    · exact hsame h

/-- The entry is armed, at the given fire time or a later one. -/
def ArmedFrom (s : CronSystem) (id : String) (base : Time) : Prop :=
  ∀ entry, s.entries.lookup id = some entry → entry.nextRunAt ≠ 0 ∧ (entry.nextRunAt = base ∨ base < entry.nextRunAt)

theorem ArmedFrom.step {base : Time} (h : s.ArmedFrom id base)
    (hlater : ∀ spec after next, nextFire trigger spec after = some next → after < next) (hdue : s.Due)
    (hupsert : ∀ entry, e = .upsertCronEntry entry → entry.id ≠ id) : (s.step trigger e).ArmedFrom id base := by
  intro entry' hentry'
  obtain ⟨old, hold, hmoves⟩ := cursor_step hlater hdue hupsert hentry'
  obtain ⟨harmed, hbase⟩ := h old hold
  rcases hmoves with hsame | ⟨hnew, hzero | hlt⟩
  · rw [hsame]
    exact ⟨harmed, hbase⟩
  · exact absurd hzero harmed
  · refine ⟨hnew, .inr ?_⟩
    rcases hbase with heq | hbase
    · exact heq ▸ hlt
    · exact lt_trans hbase hlt

/-- The broker after a step: as it was, or after one invocation at the clock reading of the event. -/
theorem step_broker (trigger : CronTrigger) (s : CronSystem) (e : CronEvent) :
    (s.step trigger e).broker = s.broker ∨ ∃ i, e.clock = some i.now ∧ (s.step trigger e).broker = s.broker.after i ∧
      (e = .broker i ∨ ∃ task, i.call = .enqueue task) := by
  cases e with
  | broker i => exact .inr ⟨i, rfl, rfl, .inl rfl⟩
  | upsertCronEntry | deleteCronEntry | stop => exact .inl rfl
  | setCronPaused id paused =>
    left
    simp only [step]
    split <;> rfl
  | list =>
    left
    simp only [step]
    split <;> rfl
  | visit scheduler brokerNow newID =>
    simp only [step]
    split
    · exact .inl rfl
    · rename_i now entry rest hpass
      split
      · left
        rw [armCron]
        split <;> rfl
      · exact .inr ⟨⟨brokerNow, .enqueue (materializeTask entry entry.nextRunAt newID), {}⟩, rfl, rfl, .inr ⟨_, rfl⟩⟩
    · exact .inl rfl
  | advance scheduler =>
    left
    simp only [step]
    split
    · rw [advanceCron]
      split <;> rfl
    · rfl

/-- Along a run whose broker clock does not go back and in which no task is made due by hand, each key keeps
one holder. -/
theorem run_uniqueAt (trigger : CronTrigger) (events : List CronEvent) {s : CronSystem} {start now : Time}
    (h : s.broker.UniqueAt start) (hclock : (start :: events.filterMap CronEvent.clock ++ [now]).Pairwise (· ≤ ·))
    (hrun : ∀ i id, .broker i ∈ events → i.call ≠ .runTaskNow id) :
    (run (step trigger) s events).broker.UniqueAt now := by
  induction events generalizing s start with
  | nil => exact h.mono (by simpa using hclock)
  | cons e rest ih =>
    have hrest : ∀ i id, .broker i ∈ rest → i.call ≠ .runTaskNow id :=
      fun i id hi => hrun i id (.tail e hi)
    rw [run_cons]
    rcases step_broker trigger s e with hsame | ⟨i, hreading, hafter, hcall⟩
    · refine @ih _ start (hsame ▸ h) ?_ hrest
      refine hclock.sublist (List.Sublist.append_right (List.Sublist.cons_cons start ?_) _)
      exact (List.sublist_cons_self e rest).filterMap _
    · rw [List.filterMap_cons_some hreading, List.cons_append, List.pairwise_cons] at hclock
      have hnow := h.mono (hclock.1 i.now (.head _))
      refine ih (hafter ▸ after_uniqueAt ?_ hnow) hclock.2 hrest
      intro t row hrevives
      rcases hcall with rfl | ⟨task, henqueue⟩
      · exact absurd hrevives (hrun i t (.head _))
      · rw [henqueue] at hrevives
        cases hrevives

end CronSystem

/-- Cron cursors only move forward between upserts, and every slot has one incomplete task with a claim that
has not lapsed. -/
theorem cron_cursors_forward (trigger : CronTrigger)
    (hlater : ∀ spec after next, nextFire trigger spec after = some next → after < next) (events : List CronEvent) :
    (∀ before after id entry entry', events = before ++ after →
      (∀ upserted, .upsertCronEntry upserted ∈ after → upserted.id ≠ id) →
      (run (CronSystem.step trigger) {} before).entries.lookup id = some entry → entry.nextRunAt ≠ 0 →
      (run (CronSystem.step trigger) {} events).entries.lookup id = some entry' →
        entry'.nextRunAt = entry.nextRunAt ∨ entry.nextRunAt < entry'.nextRunAt) ∧
    ∀ now, (events.filterMap CronEvent.clock ++ [now]).Pairwise (· ≤ ·) →
      (∀ i id, .broker i ∈ events → i.call ≠ .runTaskNow id) →
      ∀ entryID slot slot' t t' row row', unixSecond slot = unixSecond slot' →
        (run (CronSystem.step trigger) {} events).broker.tasks.lookup t = some row →
        (run (CronSystem.step trigger) {} events).broker.tasks.lookup t' = some row' →
        holdsClaim row (cronUniqueKey entryID slot) now = true →
        holdsClaim row' (cronUniqueKey entryID slot') now = true → t = t' := by
  constructor
  · rintro before after id entry entry' rfl hupserts hentry harmed hentry'
    rw [run_append] at hentry'
    have hdue : (run (CronSystem.step trigger) {} before).Due :=
      run_invariant_of_forall CronSystem.Due (fun _ _ h => CronSystem.due_step h) before fun _ => trivial
    have hmeet : StepsMeet (CronSystem.step trigger)
        (fun _ e => ∀ upserted, e = .upsertCronEntry upserted → upserted.id ≠ id)
        (run (CronSystem.step trigger) {} before) after := by
      refine stepsMeet_of_forall (fun e he upserted heq => hupserts upserted ?_) _
      rw [← heq]
      exact he
    have hforward := run_invariant (fun s : CronSystem => s.Due ∧ s.ArmedFrom id entry.nextRunAt)
      (fun s e hupsert h => ⟨CronSystem.due_step h.1, h.2.step hlater h.1 hupsert⟩) _ after hmeet ⟨hdue, ?_⟩
    · exact (hforward.2 entry' hentry').2
    · intro stored hstored
      cases hentry.symm.trans hstored
      exact ⟨harmed, .inl rfl⟩
  · intro now hclock hrun entryID slot slot' t t' row row' hsecond hrow hrow' hheld hheld'
    have hkey : cronUniqueKey entryID slot' = cronUniqueKey entryID slot := by rw [cronUniqueKey, cronUniqueKey, hsecond]
    have hempty : ∀ start, Broker.UniqueAt {} start := by
      intro start key t t' row row' _ hrow
      cases hrow
    -- the run starts at its first clock reading
    obtain ⟨start, rest, hreadings⟩ := List.exists_cons_of_ne_nil
      (List.append_ne_nil_of_right_ne_nil (events.filterMap CronEvent.clock) (List.cons_ne_nil now []))
    have hfirst : ∀ reading ∈ events.filterMap CronEvent.clock ++ [now], start ≤ reading := by
      rw [hreadings] at hclock ⊢
      exact List.forall_mem_cons.mpr ⟨le_rfl, (List.pairwise_cons.mp hclock).1⟩
    have hunique := CronSystem.run_uniqueAt trigger events (s := {}) (hempty start)
      (List.pairwise_cons.mpr ⟨hfirst, hclock⟩) hrun
    refine hunique (cronUniqueKey entryID slot) t t' row row' ?_ hrow hrow' hheld (hkey ▸ hheld')
    simp [cronUniqueKey]

/-- The library on the expression that fires at every full minute. -/
def everyMinute : CronTrigger := fun spec after =>
  if spec = "0 * * * * *" ∧ unixEpoch ≤ after ∧ after < unixEpoch + 10 ^ 18 then
    some (Int64.ofInt (((after - unixEpoch) / (60 * 10 ^ 9) + 1) * (60 * 10 ^ 9)))
  else none

theorem minute_after (n : Int) (hlow : 0 ≤ n) (hhigh : n < 10 ^ 18) :
    -2 ^ 63 ≤ (n / (60 * 10 ^ 9) + 1) * (60 * 10 ^ 9) ∧ (n / (60 * 10 ^ 9) + 1) * (60 * 10 ^ 9) < 2 ^ 63 ∧
      n < (n / (60 * 10 ^ 9) + 1) * (60 * 10 ^ 9) := by
  omega

theorem everyMinute_later (spec : String) (after next : Time) (h : nextFire everyMinute spec after = some next) :
    after < next := by
  obtain ⟨nanos, hnanos, rfl⟩ := Option.map_eq_some_iff.mp h
  rw [everyMinute] at hnanos
  split at hnanos
  · rename_i hrange
    cases hnanos
    obtain ⟨hlow, hhigh, hlater⟩ := minute_after (after - unixEpoch) (Int.sub_nonneg_of_le hrange.2.1)
      (Int.sub_left_lt_of_lt_add hrange.2.2)
    rw [unixNanoTime, Int64.toInt_ofInt_of_le hlow hhigh]
    exact Int.lt_add_of_sub_left_lt hlater
  · cases hnanos

/-- Two schedulers hold the same listing of an armed entry. The first fires the slot and stops before it
moves the cursor; the second, whose clock is behind, meets the claimed slot and moves the cursor. -/
def racingSchedulers : List CronEvent :=
  [.upsertCronEntry { id := "c", spec := "0 * * * * *", taskType := "report", queue := "q" },
   .list 0 (unixEpoch + 10 * 10 ^ 9) .listed, .visit 0 1 "x", .visit 0 1 "x",
   .list 0 (unixEpoch + 90 * 10 ^ 9) .listed, .list 1 (unixEpoch + 70 * 10 ^ 9) .listed,
   .visit 0 2 "a", .stop 0, .visit 1 3 "b", .advance 1]

theorem cron_cursors_forward_racingSchedulers :
    (∃ entry entry', (run (CronSystem.step everyMinute) {} (racingSchedulers.take 5)).entries.lookup "c" = some entry ∧
      (run (CronSystem.step everyMinute) {} racingSchedulers).entries.lookup "c" = some entry' ∧
      (entry'.nextRunAt = entry.nextRunAt ∨ entry.nextRunAt < entry'.nextRunAt)) ∧
    ∃ row, (run (CronSystem.step everyMinute) {} racingSchedulers).broker.tasks.lookup "a" = some row ∧
      holdsClaim row (cronUniqueKey "c" (unixEpoch + 60 * 10 ^ 9)) 4 = true ∧
      ∀ t' row', (run (CronSystem.step everyMinute) {} racingSchedulers).broker.tasks.lookup t' = some row' →
        holdsClaim row' (cronUniqueKey "c" (unixEpoch + 60 * 10 ^ 9)) 4 = true → t' = "a" := by
  obtain ⟨hcursors, hslots⟩ := cron_cursors_forward everyMinute everyMinute_later racingSchedulers
  constructor
  · obtain ⟨entry, hentry⟩ : ∃ entry,
        (run (CronSystem.step everyMinute) {} (racingSchedulers.take 5)).entries.lookup "c" = some entry :=
      Option.isSome_iff_exists.mp (by decide +kernel)
    obtain ⟨entry', hentry'⟩ : ∃ entry',
        (run (CronSystem.step everyMinute) {} racingSchedulers).entries.lookup "c" = some entry' :=
      Option.isSome_iff_exists.mp (by decide +kernel)
    have harmed : ((run (CronSystem.step everyMinute) {} (racingSchedulers.take 5)).entries.lookup "c").map
        CronEntry.nextRunAt ≠ some 0 := by decide +kernel
    refine ⟨entry, entry', hentry, hentry', hcursors (racingSchedulers.take 5) (racingSchedulers.drop 5) "c" entry entry'
      rfl ?_ hentry ?_ hentry'⟩
    · intro upserted hmem
      simp [racingSchedulers] at hmem
    · intro hzero
      rw [hentry] at harmed
      exact harmed (congrArg some hzero)
  · obtain ⟨row, hrow⟩ : ∃ row,
        (run (CronSystem.step everyMinute) {} racingSchedulers).broker.tasks.lookup "a" = some row :=
      Option.isSome_iff_exists.mp (by decide +kernel)
    have hheld : ((run (CronSystem.step everyMinute) {} racingSchedulers).broker.tasks.lookup "a").map
        (holdsClaim · (cronUniqueKey "c" (unixEpoch + 60 * 10 ^ 9)) 4) = some true := by decide +kernel
    rw [hrow] at hheld
    have hclaim := Option.some.inj hheld
    refine ⟨row, hrow, hclaim, fun t' row' hrow' hclaim' => ?_⟩
    refine hslots 4 (by decide +kernel) ?_ "c" _ _ t' "a" row' row rfl hrow' hrow hclaim' hclaim
    intro i id hi
    simp [racingSchedulers] at hi

end Conveyor
