import Conveyor.Broker.Lease

/-!
# Cron entries

The persisted cron entries and the operations on them. The scheduler moves an entry's next fire time by a
compare-and-set, so an update computed from an old listing is dropped once the entry has moved on.
-/

namespace Conveyor

open Lib

/-- A persisted cron entry. A zero next fire time means that the entry is not armed yet. -/
structure CronEntry where
  id : String
  spec : String := ""
  taskType : String := ""
  queue : String := ""
  payload : List UInt8 := []
  contentType : String := ""
  options : Option TaskOptions := none
  paused : Bool := false
  nextRunAt : Time := 0
  deriving DecidableEq

/-- The stored cron entries by id. -/
abbrev CronEntries := GoMap String CronEntry

/-- Whether the scheduler has to look at the entry: it is not armed, or its slot has come. -/
def CronEntry.due (now : Time) (entry : CronEntry) : Bool :=
  !entry.paused && (isZero entry.nextRunAt || decide (entry.nextRunAt ≤ now))

namespace CronEntries

/-- Create or replace an entry. -/
def upsertCronEntry (entries : CronEntries) (entry : CronEntry) : CronEntries := entries.insert entry.id entry

/-- The entries a loop visits that pass a test, ordered by id. -/
def listWhere (entries : CronEntries) (order : MapOrder String) (test : CronEntry → Bool) : List CronEntry :=
  sortFunc (fun a other => compareBy a.id other.id) ((GoMap.values order entries).filter test)

/-- All entries ordered by id. -/
def listCronEntries (entries : CronEntries) (order : MapOrder String) : List CronEntry :=
  entries.listWhere order fun _ => true

/-- The entries that are due and not paused, ordered by id. -/
def listDueCronEntries (entries : CronEntries) (order : MapOrder String) (now : Time) : List CronEntry :=
  entries.listWhere order (CronEntry.due now)

/-- Persist an entry's pause flag. -/
def setCronPaused (entries : CronEntries) (id : String) (paused : Bool) : Except BrokerError CronEntries :=
  match entries.lookup id with
  | none => .error .taskNotFound
  | some entry => .ok (entries.insert id { entry with paused := paused })

/-- Move an entry's next fire time if it is still the expected one. -/
def updateCronNextRun (entries : CronEntries) (id : String) (expected next : Time) : CronEntries :=
  match entries.lookup id with
  | none => entries
  | some entry => if entry.nextRunAt = expected then entries.insert id { entry with nextRunAt := next } else entries

/-- Remove an entry. -/
def deleteCronEntry (entries : CronEntries) (id : String) : CronEntries := entries.erase id

variable {entries : CronEntries} {id : String} {entry : CronEntry}

variable {order : MapOrder String}

/-- The listed entries are stored ones that pass the test. -/
theorem mem_listWhere {test : CronEntry → Bool} (h : entry ∈ entries.listWhere order test) : test entry = true := by
  rw [listWhere, mem_sortFunc] at h
  exact (List.mem_filter.mp h).2

/-- A listed entry is not armed or its slot has come. -/
theorem mem_listDueCronEntries {now : Time}
    (h : entry ∈ entries.listDueCronEntries order now) : entry.nextRunAt = 0 ∨ entry.nextRunAt ≤ now := by
  have hdue := mem_listWhere h
  simp only [CronEntry.due, isZero, Bool.and_eq_true, Bool.or_eq_true, beq_iff_eq, decide_eq_true_eq] at hdue
  exact hdue.2

variable {other : String}

/-- What the compare-and-set leaves under an id: the entry as it was, or with the new fire time where the
expected one stood. -/
theorem lookup_updateCronNextRun {expected next : Time}
    (h : (entries.updateCronNextRun id expected next).lookup other = some entry) :
    entries.lookup other = some entry ∨
      ∃ old, entries.lookup other = some old ∧ old.nextRunAt = expected ∧ entry = { old with nextRunAt := next } := by
  rw [updateCronNextRun] at h
  cases hold : entries.lookup id with
  | none =>
    rw [hold] at h
    exact .inl h
  | some old =>
    rw [hold] at h
    dsimp only at h
    split at h
    · rename_i hexpected
      rw [GoMap.lookup_insert_eq_ite] at h
      split at h
      · rename_i heq
        cases h
        exact .inr ⟨old, heq ▸ hold, hexpected, rfl⟩
      · exact .inl h
    · exact .inl h

/-- Pausing leaves the fire times alone. -/
theorem lookup_setCronPaused {paused : Bool} {entries' : CronEntries}
    (h : entries.setCronPaused id paused = .ok entries') (hentry : entries'.lookup other = some entry) :
    ∃ old, entries.lookup other = some old ∧ entry.nextRunAt = old.nextRunAt := by
  rw [setCronPaused] at h
  cases hold : entries.lookup id with
  | none =>
    rw [hold] at h
    cases h
  | some old =>
    rw [hold] at h
    cases h
    rw [GoMap.lookup_insert_eq_ite] at hentry
    split at hentry
    · rename_i heq
      cases hentry
      exact ⟨old, heq ▸ hold, rfl⟩
    · exact ⟨entry, hentry, rfl⟩

end CronEntries

end Conveyor
