import Conveyor.Lib.ReadCommitted
import Conveyor.Postgres.Operations
import Mathlib.Data.String.Basic

/-!
# `ResolveDependents` as a transaction among others

The statements of `ResolveDependents`, in the order the broker issues them, as the program of a transaction
that runs interleaved with others. Task rows and edge rows are locked by `UPDATE`, `DELETE` and
`SELECT … FOR UPDATE`; between two statements the transaction stands at a point that holds the variables
of `resolveWithin`.
-/

namespace Conveyor.Postgres.Concurrent

open Lib Lib.ReadCommitted

/-- The key of a row of `conveyor_tasks` or of `conveyor_task_deps`. -/
inductive Key where
  | task (id : String)
  | edge (dependentID dependencyID : String)
  deriving DecidableEq

/-- The task a row belongs to; an edge row belongs to its dependent. -/
def Key.dependent : Key → String
  | .task id => id
  | .edge dependentID _ => dependentID

/-- The content of a row; of an edge row this is its policy column. -/
inductive Content where
  | task (row : Row)
  | edge (onFailure : Int16)

/-- What a statement sees of the two tables. -/
abbrev Rows := View Key Content

/-- The task ids that occur in the tables, in ascending order. -/
structure TaskIDs where
  list : List String
  sorted : list.Pairwise (· < ·)

/-- The row keys over the given ids. -/
def TaskIDs.keys (ids : TaskIDs) : List Key :=
  ids.list.map .task ++ ids.list.flatMap fun dependentID => ids.list.map (.edge dependentID)

namespace Rows

/-- The row of a task. -/
def task (rows : Rows) (id : String) : Option Row :=
  match rows (.task id) with
  | some (.task row) => some row
  | _ => none

/-- The policy of an edge. -/
def edge (rows : Rows) (dependentID dependencyID : String) : Option Int16 :=
  match rows (.edge dependentID dependencyID) with
  | some (.edge onFailure) => some onFailure
  | _ => none

/-- The edges that wait on a task, ordered by dependent id. -/
def edgesWaitingOn (ids : TaskIDs) (rows : Rows) (dependencyID : String) : List (String × Int16) :=
  ids.list.filterMap fun dependentID =>
    (rows.edge dependentID dependencyID).map fun onFailure => (dependentID, onFailure)

/-- Whether a task still holds an edge. -/
def waits (ids : TaskIDs) (rows : Rows) (dependentID : String) : Bool :=
  ids.list.any fun dependencyID => (rows.edge dependentID dependencyID).isSome

end Rows

section Statements

/-- An update of one task row that satisfies a condition, which may look at the tables. -/
def updateTask (id : String) (cond : Rows → Row → Bool) (set : Row → Row) : Write Key Content where
  targets rows k :=
    match k, rows k with
    | .task x, some (.task row) => x == id && cond rows row
    | _, _ => false
  change rows k latest :=
    match k, latest with
    | .task x, some (.task row) =>
      if x == id && cond rows row then some (some (.task (set row))) else none
    | _, _ => none

/-- A deletion of the edge rows that satisfy a condition. -/
def deleteEdges (cond : String → String → Bool) : Write Key Content where
  targets rows k :=
    match k, rows k with
    | .edge dependentID dependencyID, some (.edge _) => cond dependentID dependencyID
    | _, _ => false
  change _ k latest :=
    match k, latest with
    | .edge dependentID dependencyID, some (.edge _) =>
      if cond dependentID dependencyID then some none else none
    | _, _ => none

/-- Cancel a blocked dependent. -/
def cascadeCancelQuery (dependentID : String) (now : Time) : Write Key Content :=
  updateTask dependentID (fun _ row => row.state == .blocked) fun row =>
    { row with state := .canceled, completedAt := some now, lastError := cascadeCanceledMessage }

/-- Drop every edge of a dependent. -/
def dropDependentEdgesQuery (dependentID : String) : Write Key Content :=
  deleteEdges fun x _ => x == dependentID

/-- Drop the satisfied edges that waited on one task. -/
def dropSatisfiedEdgesQuery (dependencyID : String) (dependentIDs : List String) : Write Key Content :=
  deleteEdges fun x d => d == dependencyID && decide (x ∈ dependentIDs)

/-- Lock a dependent that is still blocked. -/
def lockBlockedDependentQuery (dependentID : String) : Write Key Content :=
  updateTask dependentID (fun _ row => row.state == .blocked) id

/-- Promote a blocked dependent that holds no more edges. -/
def promoteDependentQuery (ids : TaskIDs) (dependentID : String) (now : Time) : Write Key Content :=
  updateTask dependentID (fun rows row => row.state == .blocked && !rows.waits ids dependentID) fun row =>
    { row with state := unblockedState row now }

end Statements

/-- The variables of `resolveWithin` that outlive a round. An event is kept as the task and its new
state. -/
structure Frame where
  worklist : List String := []
  seen : List String := []
  queues : List String := []
  emitted : List (String × TaskState) := []

/-- Where `resolveWithin` stands: at the statement it issues next. -/
inductive Point where
  | terminalState (finishedID : String) (frame : Frame)
  | edgesWaitingOn (finishedID : String) (failed : Bool) (frame : Frame)
  | cascadeCancel (dependentID finishedID : String) (rest : List (String × Int16))
      (satisfied : List String) (frame : Frame)
  | dropDependentEdges (dependentID finishedID : String) (rest : List (String × Int16))
      (satisfied : List String) (frame : Frame)
  | dropSatisfiedEdges (finishedID : String) (satisfied : List String) (frame : Frame)
  | lockDependent (dependentID : String) (rest : List String) (frame : Frame)
  | promoteDependent (dependentID : String) (rest : List String) (frame : Frame)
  | returned (frame : Frame)

namespace Point

/-- Take the next id from the worklist that was not seen. -/
def nextRound : List String → Frame → Point
  | [], frame => .returned { frame with worklist := [] }
  | finishedID :: rest, frame =>
    if finishedID ∈ frame.seen then nextRound rest frame
    else .terminalState finishedID { frame with worklist := rest, seen := finishedID :: frame.seen }

/-- The end of a round: the next id of the worklist. -/
def continueWith (frame : Frame) : Point := nextRound frame.worklist frame

/-- Apply the policies of the remaining edges. A blocking edge on a failed task stays, a cascading one
cancels its dependent, every other one is satisfied. -/
def applyPolicies (failed : Bool) (finishedID : String) :
    List (String × Int16) → List String → Frame → Point
  | [], satisfied, frame =>
    if satisfied = [] then continueWith frame else .dropSatisfiedEdges finishedID satisfied frame
  | (dependentID, policy) :: rest, satisfied, frame =>
    if failed && policy == 1 then applyPolicies failed finishedID rest satisfied frame
    else if failed && policy == 2 then .cascadeCancel dependentID finishedID rest satisfied frame
    else applyPolicies failed finishedID rest (satisfied ++ [dependentID]) frame

/-- Promote the dependents of the satisfied edges one by one. -/
def promoteEach : List String → Frame → Point
  | [], frame => continueWith frame
  | dependentID :: rest, frame => .lockDependent dependentID rest frame

end Point

/-- The event of a changed task row. -/
def Frame.emit (frame : Frame) (id : String) : List (Key × Option Content) → Frame
  | (_, some (.task row)) :: _ => { frame with emitted := frame.emitted ++ [(id, row.state)] }
  | _ => frame

/-- The queue of a promoted task row. -/
def Frame.wake (frame : Frame) : List (Key × Option Content) → Frame
  | (_, some (.task row)) :: _ => { frame with queues := frame.queues ++ [row.queue] }
  | _ => frame

/-- The statement `resolveWithin` issues at a point. `embed` places its points among those of the caller,
which goes on with the frame that `resolveWithin` returns. -/
def resolveWithin {L : Type} (ids : TaskIDs) (now : Time) (embed : Point → L)
    (caller : Frame → ReadCommitted.Statement Key Content L) : Point → ReadCommitted.Statement Key Content L
  | .terminalState finishedID frame =>
    .read fun rows =>
      match (Rows.task rows finishedID).map Row.state with
      | some .completed => embed (.edgesWaitingOn finishedID false frame)
      | some .archived | some .canceled => embed (.edgesWaitingOn finishedID true frame)
      | _ => embed (Point.continueWith frame)
  | .edgesWaitingOn finishedID failed frame =>
    .read fun rows =>
      embed (Point.applyPolicies failed finishedID (Rows.edgesWaitingOn ids rows finishedID) [] frame)
  | .cascadeCancel dependentID finishedID rest satisfied frame =>
    .write (cascadeCancelQuery dependentID now) fun affected =>
      embed (.dropDependentEdges dependentID finishedID rest satisfied (frame.emit dependentID affected))
  | .dropDependentEdges dependentID finishedID rest satisfied frame =>
    .write (dropDependentEdgesQuery dependentID) fun _ =>
      embed (Point.applyPolicies true finishedID rest satisfied
        { frame with worklist := frame.worklist ++ [dependentID] })
  | .dropSatisfiedEdges finishedID satisfied frame =>
    .write (dropSatisfiedEdgesQuery finishedID satisfied) fun _ => embed (Point.promoteEach satisfied frame)
  | .lockDependent dependentID rest frame =>
    .write (lockBlockedDependentQuery dependentID) fun affected =>
      if affected = [] then embed (Point.promoteEach rest frame)
      else embed (.promoteDependent dependentID rest frame)
  | .promoteDependent dependentID rest frame =>
    .write (promoteDependentQuery ids dependentID now) fun affected =>
      embed (Point.promoteEach rest ((frame.emit dependentID affected).wake affected))
  | .returned frame => caller frame

/-- Where `ResolveDependents` stands. -/
inductive ResolvePoint where
  | hasDependents
  | within (point : Point)
  | finished (frame : Frame)

/-- The program of `ResolveDependents` on a task: the fast path looks for edges before a transaction is
begun. -/
def resolveDependents (ids : TaskIDs) (now : Time) (taskID : String) :
    ResolvePoint → ReadCommitted.Statement Key Content ResolvePoint
  | .hasDependents =>
    .read fun rows =>
      if Rows.edgesWaitingOn ids rows taskID = [] then .finished {}
      else .within (Point.continueWith { worklist := [taskID] })
  | .within point => resolveWithin ids now .within (fun frame => .commit (.finished frame)) point
  | .finished _ => .finished

/-- Any number of `ResolveDependents` calls, one for each task; each has its own clock reading. -/
def resolvers (ids : TaskIDs) (now : String → Time) : ReadCommitted.System String Key Content ResolvePoint where
  keys := ids.keys
  program taskID := resolveDependents ids (now taskID) taskID

/-- The calls before their first statement, over the committed rows. The calls that are not made have
nothing left to do. -/
def initial (base : Rows) (calls : List String) : State String Key Content ResolvePoint where
  committed := base
  tx taskID := { point := if taskID ∈ calls then .hasDependents else .finished {} }

/-- The rows that the statement at a point still has to lock. -/
def PendingAt : ResolvePoint → Key → Prop
  | .within (.cascadeCancel x _ _ _ _), k | .within (.lockDependent x _ _), k
  | .within (.promoteDependent x _ _), k => k = .task x
  | .within (.dropDependentEdges x _ _ _ _), k => ∃ d, k = .edge x d
  | .within (.dropSatisfiedEdges f satisfied _), k => ∃ x ∈ satisfied, k = .edge x f
  | _, _ => False

variable {rows : Rows} {id : String}

theorem Rows.task_eq_some {row : Row} : rows.task id = some row ↔ rows (.task id) = some (.task row) := by
  rw [Rows.task]
  split
  · rename_i row' hrow
    rw [hrow]
    simp
  · rename_i hother
    refine ⟨nofun, fun h => absurd h (hother row)⟩

variable {policy : Int16}

theorem Rows.edge_eq_some {x d : String} : rows.edge x d = some policy ↔ rows (.edge x d) = some (.edge policy) := by
  rw [Rows.edge]
  split
  · rename_i policy' hrow
    rw [hrow]
    simp
  · rename_i hother
    refine ⟨nofun, fun h => absurd h (hother policy)⟩

/-- A promoted task is not blocked. -/
theorem unblockedState_ne (row : Row) (now : Time) : unblockedState row now ≠ .blocked := by
  rw [unblockedState]
  split_ifs <;> nofun

section Contents

/-- The task is blocked in the given rows. -/
def Rows.Blocked (rows : Rows) (id : String) : Prop := ∃ row, rows.task id = some row ∧ row.state = .blocked

/-- What a row can hold while calls run over `base`: an edge is there as before or gone, and a task that was
not blocked is as it was. -/
def Reachable (base : Rows) : Key → Option Content → Prop
  | .task id, content => ¬ base.Blocked id → content = base (.task id)
  | .edge x d, content => content = none ∨ content = base (.edge x d)

/-- What the calls write: they remove edges, and change tasks that were blocked. -/
def Writable (base : Rows) : Key → Option Content → Prop
  | .task id, _ => base.Blocked id
  | .edge _ _, content => content = none

variable {base : Rows} {ids : TaskIDs} {now : String → Time} {i : String}

variable {cond : Rows → Row → Bool} {set : Row → Row} {k : Key}

theorem updateTask_change {latest v : Option Content} (h : (updateTask id cond set).change rows k latest = some v) :
    ∃ row, k = .task id ∧ latest = some (.task row) ∧ cond rows row = true ∧ v = some (.task (set row)) := by
  simp only [updateTask] at h
  split at h
  · rename_i x row
    split at h
    · rename_i hcond
      rw [Bool.and_eq_true, beq_iff_eq] at hcond
      obtain ⟨rfl, hcond⟩ := hcond
      exact ⟨row, rfl, rfl, hcond, (Option.some.inj h).symm⟩
    · cases h
  · cases h

theorem updateTask_targets (h : (updateTask id cond set).targets rows k = true) :
    ∃ row, k = .task id ∧ rows (.task id) = some (.task row) ∧ cond rows row = true := by
  simp only [updateTask] at h
  split at h
  · rename_i x row hrow
    rw [Bool.and_eq_true, beq_iff_eq] at h
    obtain ⟨rfl, hcond⟩ := h
    exact ⟨row, rfl, hrow, hcond⟩
  · cases h

theorem deleteEdges_change {cond : String → String → Bool} {latest v : Option Content}
    (h : (deleteEdges cond).change rows k latest = some v) :
    ∃ x d policy, k = .edge x d ∧ latest = some (.edge policy) ∧ cond x d = true ∧ v = none := by
  simp only [deleteEdges] at h
  split at h
  · rename_i x d policy
    split at h
    · rename_i hcond
      exact ⟨x, d, policy, rfl, rfl, hcond, (Option.some.inj h).symm⟩
    · cases h
  · cases h

theorem deleteEdges_targets {cond : String → String → Bool} (h : (deleteEdges cond).targets rows k = true) :
    ∃ x d policy, k = .edge x d ∧ rows (.edge x d) = some (.edge policy) ∧ cond x d = true := by
  simp only [deleteEdges] at h
  split at h
  · rename_i x d policy hrow
    exact ⟨x, d, policy, rfl, hrow, h⟩
  · cases h

/-- An update that only takes blocked rows writes blocked tasks. -/
theorem updateTask_writable {latest v : Option Content} (hcond : ∀ row, cond rows row = true → row.state = .blocked)
    (hlatest : Reachable base k latest) (h : (updateTask id cond set).change rows k latest = some v) :
    Writable base k v := by
  obtain ⟨row, rfl, rfl, hrow, -⟩ := updateTask_change h
  by_contra hblocked
  have hbase := hlatest hblocked
  exact hblocked ⟨row, by simp [Rows.task, ← hbase], hcond row hrow⟩

theorem deleteEdges_writable {cond : String → String → Bool} {latest v : Option Content}
    (h : (deleteEdges cond).change rows k latest = some v) : Writable base k v := by
  obtain ⟨x, d, policy, rfl, -, -, rfl⟩ := deleteEdges_change h
  rfl

variable {p : ResolvePoint}

/-- `ResolveDependents` inserts no row. -/
theorem resolve_not_insert (k : Key) (v : Content) (resume : Bool → ResolvePoint) :
    (resolvers ids now).program i p ≠ .insert k v resume := by
  intro hprogram
  cases p with
  | hasDependents => cases hprogram
  | finished => cases hprogram
  | within point => cases point <;> cases hprogram

/-- The statements of `ResolveDependents` keep the rows within bounds. -/
theorem resolvers_bounds (base : Rows) (ids : TaskIDs) (now : String → Time) :
    (resolvers ids now).Bounds (Reachable base) (Writable base) where
  content k v h := by
    cases k with
    | task id => exact fun hblocked => absurd h hblocked
    | edge x d => exact .inl h
  insert i p k v resume hprogram := absurd hprogram (resolve_not_insert k v resume)
  change i p w resume hprogram snapshot k latest v hlatest hchange := by
    have hblocked : ∀ row : Row, (row.state == .blocked) = true → row.state = .blocked := fun row h => beq_iff_eq.mp h
    cases p with
    | hasDependents => cases hprogram
    | finished => cases hprogram
    | within point =>
      cases point with
      | terminalState => cases hprogram
      | edgesWaitingOn => cases hprogram
      | returned => cases hprogram
      | cascadeCancel => cases hprogram; exact updateTask_writable hblocked hlatest hchange
      | dropDependentEdges => cases hprogram; exact deleteEdges_writable hchange
      | dropSatisfiedEdges => cases hprogram; exact deleteEdges_writable hchange
      | lockDependent => cases hprogram; exact updateTask_writable hblocked hlatest hchange
      | promoteDependent =>
        cases hprogram
        refine updateTask_writable (fun row h => ?_) hlatest hchange
        rw [Bool.and_eq_true] at h
        exact hblocked row h.1

/-- The calls start within bounds. -/
theorem initial_within (base : Rows) (calls : List String) :
    System.Within (Reachable base) (Writable base) (initial base calls) where
  committed k := by
    cases k with
    | task id => exact fun _ => rfl
    | edge x d => exact .inr rfl
  writes i k v h := by cases h

/-- An edge that is still there is the one of the start. -/
theorem Reachable.edge_eq {x d : String} (h : Reachable base (.edge x d) (rows (.edge x d)))
    (hedge : rows.edge x d = some policy) : base.edge x d = some policy := by
  rcases h with hnone | hsame
  · simp [Rows.edge, hnone] at hedge
  · simpa [Rows.edge, hsame] using hedge

/-- A task that was not blocked at the start is as it was. -/
theorem Reachable.task_eq (h : Reachable base (.task id) (rows (.task id)))
    (hblocked : ¬ base.Blocked id) : rows.task id = base.task id := by
  simp only [Rows.task, h hblocked]

/-- The listed edges are those of the rows, once for each dependent, in ascending order. -/
theorem mem_edgesWaitingOn {d x : String}
    (h : (x, policy) ∈ rows.edgesWaitingOn ids d) : rows.edge x d = some policy := by
  obtain ⟨x', -, hedge⟩ := List.mem_filterMap.mp h
  obtain ⟨policy', hpolicy, heq⟩ := Option.map_eq_some_iff.mp hedge
  obtain ⟨rfl, rfl⟩ := Prod.ext_iff.mp heq
  exact hpolicy

theorem edgesWaitingOn_sorted (rows : Rows) (ids : TaskIDs) (d : String) :
    ((rows.edgesWaitingOn ids d).map Prod.fst).Pairwise (· < ·) := by
  have hsub : ((rows.edgesWaitingOn ids d).map Prod.fst).Sublist ids.list := by
    rw [Rows.edgesWaitingOn]
    induction ids.list with
    | nil => exact .slnil
    | cons x rest ih =>
      cases hedge : rows.edge x d with
      | none => simpa [hedge] using ih.cons x
      | some policy => simpa [hedge] using ih.cons_cons x
  exact ids.sorted.sublist hsub

/-- The rows a statement finds are those its point says. -/
theorem resolve_targets {w : Write Key Content} {resume : List (Key × Option Content) → ResolvePoint}
    (hprogram : (resolvers ids now).program i p = .write w resume)
    (htarget : w.targets rows k = true) : PendingAt p k := by
  cases p with
  | hasDependents => cases hprogram
  | finished => cases hprogram
  | within point =>
    cases point with
    | cascadeCancel => cases hprogram; exact (updateTask_targets htarget).choose_spec.1
    | lockDependent => cases hprogram; exact (updateTask_targets htarget).choose_spec.1
    | promoteDependent => cases hprogram; exact (updateTask_targets htarget).choose_spec.1
    | dropDependentEdges x =>
      cases hprogram
      obtain ⟨y, d, policy, rfl, -, hcond⟩ := deleteEdges_targets htarget
      exact ⟨d, by rw [beq_iff_eq.mp hcond]⟩
    | dropSatisfiedEdges f satisfied =>
      cases hprogram
      obtain ⟨y, d, policy, rfl, -, hcond⟩ := deleteEdges_targets htarget
      rw [Bool.and_eq_true, beq_iff_eq, decide_eq_true_eq] at hcond
      exact ⟨y, hcond.2, by rw [hcond.1]⟩
    | _ => cases hprogram

/-- A call commits when `resolveWithin` has returned. -/
theorem resolve_commit {next : ResolvePoint} (hprogram : (resolvers ids now).program i p = .commit next) :
    ∃ frame, p = .within (.returned frame) ∧ next = .finished frame := by
  cases p with
  | hasDependents => cases hprogram
  | finished => cases hprogram
  | within point =>
    cases point with
    | returned frame => cases hprogram; exact ⟨frame, rfl, rfl⟩
    | _ => cases hprogram

end Contents

section Examples

/-- A row of a queue `q` in the given state. -/
def plainRow (state : TaskState) : Row where
  queue := "q"
  type := ""
  state := state
  priority := 0
  payload := { id := "" }
  uniqueKey := none
  uniqueExpiresAt := none
  processAt := 0
  maxRetry := 0
  retried := 0
  lastError := ""
  retention := 0
  enqueuedAt := 0
  groupKey := ""
  expiresAt := none

/-- `a` is archived, `b` is completed, and `x` waits on both, on `a` under the given policy. -/
def twoDependencies (policy : Int16) : Rows
  | .task "a" => some (.task (plainRow .archived))
  | .task "b" => some (.task (plainRow .completed))
  | .task "x" => some (.task (plainRow .blocked))
  | .edge "x" "a" => some (.edge policy)
  | .edge "x" "b" => some (.edge 1)
  | _ => none

def sampleIDs : TaskIDs := ⟨["a", "b", "x"], by decide⟩

end Examples

end Conveyor.Postgres.Concurrent
