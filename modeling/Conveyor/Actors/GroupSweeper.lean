import Conveyor.Actors.Message
import Conveyor.Broker.Reads
import Mathlib.Data.List.Induction

/-!
# Firing due aggregation groups

A sweep fires the groups whose waiting tasks call for it.
-/

namespace Conveyor

open Lib

/-- The thresholds a group fires at. -/
structure GroupLimits where
  maxSize : Int
  (maxDelay gracePeriod : Duration)

def indexGroupConfigs (configs : List GroupConfig) : GoMap (String × String) GroupConfig :=
  configs.foldl (fun index config => index.insert (config.queue, config.group) config) ∅

/-- The override of the group, else the one of its queue, else the settings. -/
def effectiveGroupConfig (queue group : String) (index : GoMap (String × String) GroupConfig)
    (settings : GroupLimits) : GroupLimits :=
  match (index.lookup (queue, group)).or (index.lookup (queue, "")) with
  | some config => ⟨config.maxSize, config.maxDelay, config.gracePeriod⟩
  | none => settings

/-- Enough members, too long since the first, or quiet since the last. -/
def groupDue (stat : GroupStat) (limits : GroupLimits) (now : Time) : Bool :=
  decide (stat.count ≥ limits.maxSize ∨ now - stat.oldest ≥ limits.maxDelay ∨ now - stat.newest ≥ limits.gracePeriod)

variable (settings : GroupLimits) (overrides : List GroupConfig) (now : Time)

/-- The messages of one sweep to the queues' grains. A failed read of the overrides leaves none. -/
def GroupSweeper.sweep (groups : List GroupStat) : List (String × GrainMessage) :=
  groups.filterMap fun stat =>
    let limits := effectiveGroupConfig stat.queue stat.group (indexGroupConfigs overrides) settings
    if groupDue stat limits now then
      some (stat.queue, GrainMessage.fireGroup stat.group stat.type (Int32.ofInt limits.maxSize))
    else none

def TaskRow.waitsIn (key : String × String) (row : TaskRow) : Bool :=
  row.state == .aggregating && (row.envelope.queue, row.group) == key

/-- The waiting tasks are enough, one has waited the longest delay, or none is recent. -/
def GroupLimits.Reached (limits : GroupLimits) (rows : List TaskRow) : Prop :=
  limits.maxSize ≤ rows.length ∨ (∃ row ∈ rows, row.enqueuedAt ≤ now - limits.maxDelay) ∨
    ∀ row ∈ rows, row.enqueuedAt ≤ now - limits.gracePeriod

/-- A record that sums up the waiting tasks of a group. -/
structure GroupStat.Sums (key : String × String) (rows : List TaskRow) (stat : GroupStat) : Prop where
  key : (stat.queue, stat.group) = key
  some : rows ≠ []
  count : stat.count = rows.length
  oldest : ∀ time, stat.oldest ≤ time ↔ ∃ row ∈ rows, row.enqueuedAt ≤ time
  newest : ∀ time, stat.newest ≤ time ↔ ∀ row ∈ rows, row.enqueuedAt ≤ time

variable {key : String × String}

theorem GroupStat.Sums.due_iff {rows : List TaskRow} {stat : GroupStat} (h : stat.Sums key rows)
    (limits : GroupLimits) : groupDue stat limits now = true ↔ limits.Reached now rows := by
  rw [groupDue, GroupLimits.Reached, decide_eq_true_eq, h.count, ← h.oldest, ← h.newest]
  grind

theorem lookup_countGroup (stats : GoMap (String × String) GroupStat) (row : TaskRow) :
    (Broker.countGroup stats row).lookup key =
      if row.waitsIn key then some (((stats.lookup key).getD (.start row)).add row) else stats.lookup key := by
  grind [Broker.countGroup, TaskRow.waitsIn, GoMap.lookup_insert_eq_ite]

/-- The scan keeps one record for each group with waiting tasks. -/
theorem foldl_countGroup (rows : List TaskRow) (key : String × String) :
    match (rows.foldl Broker.countGroup ∅).lookup key with
    | none => rows.filter (TaskRow.waitsIn key) = []
    | some stat => stat.Sums key (rows.filter (TaskRow.waitsIn key)) := by
  induction rows using List.reverseRecOn with
  | nil => rfl
  | append_singleton rows row ih =>
    rw [List.foldl_append, List.foldl_cons, List.foldl_nil, lookup_countGroup, List.filter_append, List.filter_singleton]
    cases hwaits : row.waitsIn key with
    | false => simpa using ih
    | true =>
      rw [if_pos rfl]
      cases hstat : (rows.foldl Broker.countGroup ∅).lookup key with
      | none =>
        rw [hstat] at ih
        simp only [ih, Option.getD_none]
        constructor <;> simp_all [GroupStat.start, GroupStat.add, TaskRow.waitsIn]
      | some stat =>
        rw [hstat] at ih
        refine ⟨ih.key, by simp, by simp [GroupStat.add, ih.count], fun time => ?_, fun time => ?_⟩
        all_goals grind [GroupStat.add, ih.oldest time, ih.newest time]

/-- The statistics list the records of the scan. -/
theorem mem_groupStats {b : Broker} {tasks : MapOrder String} {groups : MapOrder (String × String)} {stat : GroupStat} :
    stat ∈ b.groupStats tasks groups ↔
      ∃ key, ((GoMap.values tasks b.tasks).foldl Broker.countGroup ∅).lookup key = some stat := by
  rw [Broker.groupStats, mem_sortFunc]
  constructor
  · intro hstat
    obtain ⟨key, -, hlookup⟩ := List.mem_filterMap.mp hstat
    exact ⟨key, hlookup⟩
  · rintro ⟨key, hlookup⟩
    exact List.mem_filterMap.mpr ⟨key, (groups.mem_visit _ _).mpr (GoMap.mem_of_lookup hlookup), hlookup⟩

/-- A sweep fires a group exactly when tasks wait in it and call for it, and always with the group's own batch size. -/
theorem sweep_fires_iff (b : Broker) (tasks : MapOrder String) (groups : MapOrder (String × String))
    (queue group : String) :
    let limits := effectiveGroupConfig queue group (indexGroupConfigs overrides) settings
    let waiting := (GoMap.values tasks b.tasks).filter (TaskRow.waitsIn (queue, group))
    let sent := GroupSweeper.sweep settings overrides now (b.groupStats tasks groups)
    ((∃ type size, (queue, GrainMessage.fireGroup group type size) ∈ sent) ↔
        waiting ≠ [] ∧ limits.Reached now waiting) ∧
      ∀ type size, (queue, GrainMessage.fireGroup group type size) ∈ sent → size = Int32.ofInt limits.maxSize := by
  intro limits waiting sent
  have hscan := foldl_countGroup (GoMap.values tasks b.tasks)
  -- a message stems from the record of its own group
  have hsource : ∀ {type size}, (queue, GrainMessage.fireGroup group type size) ∈ sent →
      size = Int32.ofInt limits.maxSize ∧ waiting ≠ [] ∧ limits.Reached now waiting := by
    intro type size hfired
    obtain ⟨stat, hstat, hfire⟩ := List.mem_filterMap.mp hfired
    obtain ⟨key, hlookup⟩ := mem_groupStats.mp hstat
    have hsums := hscan key
    rw [hlookup] at hsums
    obtain ⟨hdue, hfire⟩ := Option.ite_none_right_eq_some.mp hfire
    cases hfire
    cases hsums.key
    exact ⟨rfl, hsums.some, (hsums.due_iff _ _).mp hdue⟩
  refine ⟨⟨fun ⟨type, size, hfired⟩ => (hsource hfired).2, ?_⟩, fun type size hfired => (hsource hfired).1⟩
  rintro ⟨hsome, hreached⟩
  have hsums := hscan (queue, group)
  cases hlookup : ((GoMap.values tasks b.tasks).foldl Broker.countGroup ∅).lookup (queue, group) with
  | none => exact absurd (by rwa [hlookup] at hsums) hsome
  | some stat =>
    rw [hlookup] at hsums
    cases hsums.key
    exact ⟨stat.type, _, List.mem_filterMap.mpr ⟨stat, mem_groupStats.mpr ⟨_, hlookup⟩,
      if_pos ((hsums.due_iff _ _).mpr hreached)⟩⟩

end Conveyor
