import Conveyor.Broker.Store

/-!
# Committing tasks

A task is staged first, without touching the store: an id that is already committed is skipped, a
claimed unique key and a grouped task with a future due time are rejected, and the dependencies
that already finished are applied. A batch stages every member against the same store and applies
them only when all were accepted.
-/

namespace Conveyor

open Lib

/-- A validated task, ready to be inserted. -/
structure StagedTask where
  id : String
  queue : String
  taskType : String
  state : TaskState
  row : TaskRow

/-- Whether the row holds the key: it is incomplete and its claim has not lapsed. -/
def holdsClaim (row : TaskRow) (key : String) (now : Time) : Bool :=
  row.uniqueKey == key && incomplete row.state &&
    (isZero row.uniqueExpiresAt || decide (row.uniqueExpiresAt > now))

namespace Broker

/-- Whether an incomplete task holds the key under a claim that has not lapsed. -/
def uniqueKeyClaimed (b : Broker) (key : String) (now : Time) : Bool :=
  b.tasks.entries.any fun entry => holdsClaim entry.2 key now

/-- The loop of `resolveInitialDeps` over the declared edges, with the edges kept so far. A failed
cascade-cancel dependency ends it at once. -/
def resolveInitialDepsFrom (b : Broker) (taskID : String) :
    List TaskDependency → GoMap String DependencyFailurePolicy → GoMap String DependencyFailurePolicy × Bool
  | [], deps => (deps, false)
  | edge :: rest, deps =>
    let depID := edge.taskId
    if depID = "" ∨ depID = taskID then resolveInitialDepsFrom b taskID rest deps
    else
      let policy := dependencyPolicy edge.onFailure
      match b.tasks.lookup depID with
      | none => resolveInitialDepsFrom b taskID rest (deps.insert depID policy)
      | some dep =>
        if dep.state = .completed then resolveInitialDepsFrom b taskID rest deps
        else if dep.state = .archived ∨ dep.state = .canceled then
          match policy with
          | .continue_ => resolveInitialDepsFrom b taskID rest deps
          | .cascadeCancel => (∅, true)
          | _ => resolveInitialDepsFrom b taskID rest (deps.insert depID policy)
        else resolveInitialDepsFrom b taskID rest (deps.insert depID policy)

/-- The unsatisfied dependencies of a task being enqueued, and whether one of them already failed
in a way that cancels the task. -/
def resolveInitialDeps (b : Broker) (taskID : String) (edges : List TaskDependency) :
    GoMap String DependencyFailurePolicy × Bool :=
  resolveInitialDepsFrom b taskID edges ∅

/-- The state a task lands in. -/
def initialState (group : String) (processAt now : Time)
    (deps : GoMap String DependencyFailurePolicy) (cancel : Bool) : TaskState :=
  if cancel then .canceled
  else if deps.keys ≠ [] then .blocked
  else if group ≠ "" then .aggregating
  else if processAt > now then .scheduled
  else .pending

/-- The row built for an accepted task. -/
def initialRow (task : TaskEnvelope) (now : Time)
    (deps : GoMap String DependencyFailurePolicy) (cancel : Bool) : TaskRow :=
  let options := task.options
  let processAt := options.processAt.getD now
  let state := initialState options.group processAt now deps cancel
  { envelope := task
    state := state
    priority := options.priority
    processAt := processAt
    expiresAt := options.expiresAt.getD 0
    retried := task.retried
    lastError := task.lastError
    retention := options.retention.getD 0
    uniqueKey := options.uniqueKey
    uniqueExpiresAt :=
      if options.uniqueKey = "" then 0
      else match options.uniqueTtl with
        | some ttl => now + ttl
        | none => 0
    maxRetry := options.maxRetry
    group := options.group
    enqueuedAt := task.enqueuedAt.getD now
    deps := deps
    completedAt := if state = .canceled then now else 0 }

/-- The staged form of a task that was accepted. -/
def stagedTask (b : Broker) (task : TaskEnvelope) (now : Time) : StagedTask :=
  let (deps, cancel) := b.resolveInitialDeps task.id task.options.dependsOn
  let row := initialRow task now deps cancel
  { id := task.id, queue := task.queue, taskType := task.type, state := row.state, row := row }

/-- Validate one task and build its row. `none` means that the id is already committed or already
staged in the same batch, whose staged ids and unique keys are the last two arguments. -/
def stageEnqueue (b : Broker) (task : TaskEnvelope) (now : Time) (batchIDs batchKeys : GoSet String) :
    Except BrokerError (Option StagedTask) :=
  let options := task.options
  if task.id ∈ b.tasks then .ok none
  else if task.id ∈ batchIDs then .ok none
  else if options.uniqueKey ≠ "" ∧
      (b.uniqueKeyClaimed options.uniqueKey now = true ∨ options.uniqueKey ∈ batchKeys) then
    .error .duplicateTask
  else if options.group ≠ "" ∧ options.processAt.getD now > now then .error .groupedSchedule
  else .ok (some (b.stagedTask task now))

/-- Insert a staged task, record its edges and deliver its event. -/
def applyStaged (b : Broker) (staged : StagedTask) (now : Time) : Broker :=
  let linked := staged.row.deps.keys.foldl (fun b depID => b.addDependent depID staged.id) b
  (linked.setRow staged.id staged.row).emit .unspecified staged.state staged.id staged.row now

/-- Commit one task. -/
def enqueue (b : Broker) (now : Time) (task : TaskEnvelope) : Except BrokerError Broker :=
  match b.stageEnqueue task now ∅ ∅ with
  | .error e => .error e
  | .ok none => .ok b
  | .ok (some staged) => .ok (b.applyStaged staged now)

/-- Stage the members of a batch from the given index on, carrying the ids and keys staged so far. -/
def stageBatch (b : Broker) (now : Time) :
    List TaskEnvelope → Nat → GoSet String → GoSet String → Except BrokerError (List StagedTask)
  | [], _, _, _ => .ok []
  | task :: rest, index, batchIDs, batchKeys =>
    match b.stageEnqueue task now batchIDs batchKeys with
    | .error e => .error (.batch index task.id e)
    | .ok none => stageBatch b now rest (index + 1) batchIDs batchKeys
    | .ok (some entry) =>
      let batchKeys :=
        if entry.row.uniqueKey ≠ "" then batchKeys.insert entry.row.uniqueKey () else batchKeys
      match stageBatch b now rest (index + 1) (batchIDs.insert entry.id ()) batchKeys with
      | .error e => .error e
      | .ok staged => .ok (entry :: staged)

/-- Commit every task of a batch or none. -/
def enqueueBatch (b : Broker) (now : Time) (tasks : List TaskEnvelope) : Except BrokerError Broker :=
  match b.stageBatch now tasks 0 ∅ ∅ with
  | .error e => .error e
  | .ok staged => .ok (staged.foldl (fun b entry => b.applyStaged entry now) b)

/-- A key is claimed exactly when some stored row holds it. -/
theorem uniqueKeyClaimed_iff (b : Broker) (key : String) (now : Time) :
    b.uniqueKeyClaimed key now = true ↔ ∃ t row, b.tasks.lookup t = some row ∧ holdsClaim row key now = true := by
  rw [uniqueKeyClaimed, List.any_eq_true]
  constructor
  · rintro ⟨⟨t, row⟩, hmem, hholds⟩
    exact ⟨t, row, AList.mem_lookup_iff.mpr hmem, hholds⟩
  · rintro ⟨t, row, hrow, hholds⟩
    exact ⟨⟨t, row⟩, AList.mem_lookup_iff.mp hrow, hholds⟩

/-- A task is staged only under a fresh id, with its key free, and not grouped into the future. -/
theorem stageEnqueue_eq_some {b : Broker} {task : TaskEnvelope} {now : Time}
    {batchIDs batchKeys : GoSet String} {staged : StagedTask}
    (h : b.stageEnqueue task now batchIDs batchKeys = .ok (some staged)) :
    staged = b.stagedTask task now ∧ task.id ∉ b.tasks ∧ task.id ∉ batchIDs ∧
      (task.options.uniqueKey ≠ "" →
        b.uniqueKeyClaimed task.options.uniqueKey now = false ∧ task.options.uniqueKey ∉ batchKeys) := by
  simp only [stageEnqueue] at h
  split at h
  · cases h
  rename_i hid
  split at h
  · cases h
  rename_i hbatch
  split at h
  · cases h
  rename_i hkey
  split at h
  · cases h
  cases h
  refine ⟨rfl, hid, hbatch, ?_⟩
  intro hne
  have hfree := not_and.mp hkey hne
  exact ⟨by simpa using fun hclaimed => hfree (.inl hclaimed), fun hmem => hfree (.inr hmem)⟩

/-- Linking a new task's edges leaves the rows alone. -/
theorem foldl_addDependent_tasks (depIDs : List String) (t : String) (b : Broker) :
    (depIDs.foldl (fun b depID => b.addDependent depID t) b).tasks = b.tasks :=
  List.foldlRecOn (motive := fun c : Broker => c.tasks = b.tasks) depIDs _ rfl fun _ h _ _ => h

/-- The rows after a staged task was applied. -/
@[simp] theorem applyStaged_tasks (b : Broker) (staged : StagedTask) (now : Time) :
    (b.applyStaged staged now).tasks = b.tasks.insert staged.id staged.row := by
  simp only [applyStaged, emit_tasks, setRow_tasks, foldl_addDependent_tasks]

end Broker

end Conveyor
