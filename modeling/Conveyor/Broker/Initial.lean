import Conveyor.Broker.Dependents
import Conveyor.Broker.Enqueue

/-!
# What the declared edges of a new task come to

The loop over the declared edges reads one thing of the store: the state of each dependency. An edge on a
failed dependency that cascades dooms the task; otherwise the edges that are kept are inserted one after
the other, so that the last one on each dependency counts.
-/

namespace Conveyor

open Lib

/-- Whether the loop over the declared edges looks at the edge. -/
def TaskDependency.counts (taskID : String) (edge : TaskDependency) : Bool :=
  !(edge.taskId == "" || edge.taskId == taskID)

/-- Whether an edge with this policy on a dependency in this state cancels the new task at once. -/
def doomsIn (state : Option TaskState) (policy : DependencyFailurePolicy) : Bool :=
  state.any failedDependency && policy == .cascadeCancel

/-- Whether an edge with this policy on a dependency in this state, if it does not cancel the new task, holds it
back. -/
def keptIn (state : Option TaskState) (policy : DependencyFailurePolicy) : Bool :=
  !(state == some .completed) && !(state.any failedDependency && policy == .continue_)

namespace Broker

/-- The state of a stored task. -/
def stateOf (b : Broker) (t : String) : Option TaskState := (b.tasks.lookup t).map TaskRow.state

/-- Whether the edge cancels the new task at once. -/
def dooms (b : Broker) (taskID : String) (edge : TaskDependency) : Bool :=
  edge.counts taskID && doomsIn (b.stateOf edge.taskId) (dependencyPolicy edge.onFailure)

/-- Whether the edge, if none cancels the new task, holds it back. -/
def keeps (b : Broker) (taskID : String) (edge : TaskDependency) : Bool :=
  edge.counts taskID && keptIn (b.stateOf edge.taskId) (dependencyPolicy edge.onFailure)

variable {b : Broker} {taskID : String} {edge : TaskDependency}

/-- Insert an edge that holds the new task back. -/
def keepEdge (b : Broker) (taskID : String) (deps : GoMap String DependencyFailurePolicy) (edge : TaskDependency) :
    GoMap String DependencyFailurePolicy :=
  if b.keeps taskID edge = true then deps.insert edge.taskId (dependencyPolicy edge.onFailure) else deps

/-- One round of the loop over the declared edges. -/
theorem resolveInitialDepsFrom_cons (b : Broker) (taskID : String) (edge : TaskDependency) (rest : List TaskDependency)
    (deps : GoMap String DependencyFailurePolicy) :
    b.resolveInitialDepsFrom taskID (edge :: rest) deps = if b.dooms taskID edge =
      true then (∅, true) else b.resolveInitialDepsFrom taskID rest (b.keepEdge taskID deps edge) := by
  rw [resolveInitialDepsFrom]
  by_cases hskip : edge.taskId = "" ∨ edge.taskId = taskID
  · have hcounts : edge.counts taskID = false := by simpa [TaskDependency.counts, or_iff_not_imp_left] using hskip
    simp [hskip, dooms, keepEdge, keeps, hcounts]
  · have hcounts : edge.counts taskID = true := by simpa [TaskDependency.counts] using not_or.mp hskip
    simp only [hskip, if_false, dooms, keepEdge, keeps, hcounts, Bool.true_and, stateOf]
    cases hdep : b.tasks.lookup edge.taskId with
    | none => simp [doomsIn, keptIn]
    | some dep =>
      cases hstate : dep.state with
      | archived | canceled =>
        cases hpolicy : dependencyPolicy edge.onFailure <;> simp [doomsIn, keptIn, hstate, failedDependency]
      | _ => simp [doomsIn, keptIn, hstate, failedDependency]

/-- The loop over the declared edges in closed form. -/
theorem resolveInitialDepsFrom_eq (b : Broker) (taskID : String) (edges : List TaskDependency)
    (deps : GoMap String DependencyFailurePolicy) :
    b.resolveInitialDepsFrom taskID edges deps = if edges.any (b.dooms taskID) =
      true then (∅, true) else (edges.foldl (b.keepEdge taskID) deps, false) := by
  induction edges generalizing deps with
  | nil => rfl
  | cons edge rest ih =>
    rw [resolveInitialDepsFrom_cons, ih]
    cases hdooms : b.dooms taskID edge with
    | true => simp [hdooms]
    | false => simp [hdooms]

end Broker

end Conveyor
