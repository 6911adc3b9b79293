import Conveyor.Broker.Store

/-!
# Resolving dependency edges

When a task reaches a terminal state its waiting records are drained. A dependent is released from
the edge, canceled with everything that follows from it, or left blocked, as the edge's policy
says. Canceled dependents are worked off through a worklist, each id at most once per call.
-/

namespace Conveyor

open Lib

/-- The iteration orders of one call of `resolveDependents`: of a finished task's waiters, of a
canceled dependent's edges, and of the returned queues. -/
structure ResolveOrder where
  waiters : String → MapOrder String := fun _ => .listed
  edges : String → MapOrder String := fun _ => .listed
  queues : MapOrder String := .listed

namespace TaskRow

/-- The row of a dependent canceled by a failed dependency. -/
def cascaded (row : TaskRow) (now : Time) : TaskRow :=
  { row with
    state := .canceled, completedAt := now, lastError := cascadeCanceledMessage, deps := ∅ }

/-- The row of a dependent released from one edge. -/
def satisfied (row : TaskRow) (dependencyID : String) : TaskRow :=
  { row with deps := row.deps.erase dependencyID }

/-- The row of a dependent with no edge left, in the state it would have had without any. -/
def promoted (row : TaskRow) (now : Time) : TaskRow :=
  { row with
    state :=
      if row.group ≠ "" then .aggregating
      else if row.processAt > now then .scheduled
      else .pending }

end TaskRow

/-- The progress of one call of `resolveDependents`. -/
structure Resolution where
  store : Broker
  queues : GoSet String := ∅
  seen : GoSet String := ∅
  worklist : List String := []

/-- Whether a dependency in this state failed for its dependents. -/
def failedDependency (state : TaskState) : Bool := state == .archived || state == .canceled

namespace Broker

/-- Promote a blocked row without remaining dependencies, and name its queue if it was promoted. -/
def promoteIfReady (b : Broker) (id : String) (row : TaskRow) (now : Time) : Broker × Option String :=
  if row.state ≠ .blocked ∨ row.deps.keys ≠ [] then (b, none)
  else (b.transition id row (row.promoted now) now, some row.envelope.queue)

end Broker

namespace Resolution

/-- Add a queue to the result, if there is one. -/
def addQueue (r : Resolution) : Option String → Resolution
  | some queue => { r with queues := r.queues.insert queue () }
  | none => r

/-- React to the outcome of `finishedID` in one of its recorded waiters. -/
def resolveEdge (order : ResolveOrder) (now : Time) (finishedID : String) (failed : Bool)
    (r : Resolution) (dependentID : String) : Resolution :=
  match r.store.tasks.lookup dependentID with
  | none => { r with store := r.store.removeDependent finishedID dependentID }
  | some dependent =>
    match dependent.deps.lookup finishedID with
    | none => { r with store := r.store.removeDependent finishedID dependentID }
    | some policy =>
      if failed = true ∧ policy = .block then r
      else if failed = true ∧ policy = .cascadeCancel then
        let unlinked := r.store.removeDependents ((order.edges dependentID).visit dependent.deps) dependentID
        { r with
          store := unlinked.transition dependentID dependent (dependent.cascaded now) now
          worklist := r.worklist ++ [dependentID] }
      else
        let row := dependent.satisfied finishedID
        let drained := (r.store.setRow dependentID row).removeDependent finishedID dependentID
        let (store, queue) := drained.promoteIfReady dependentID row now
        { r with store := store }.addQueue queue

/-- React to the outcome of one task taken from the worklist. -/
def resolveFinished (order : ResolveOrder) (now : Time) (finishedID : String) (r : Resolution) : Resolution :=
  if finishedID ∈ r.seen then r
  else
    let r := { r with seen := r.seen.insert finishedID () }
    match r.store.tasks.lookup finishedID with
    | none => r
    | some finished =>
      if terminal finished.state then
        ((order.waiters finishedID).visit (r.store.waiters finishedID)).foldl
          (resolveEdge order now finishedID (failedDependency finished.state)) r
      else r

/-- Work off the worklist; the fuel bounds the number of ids taken from it. -/
def drain (order : ResolveOrder) (now : Time) : Nat → Resolution → Resolution
  | 0, r => r
  | fuel + 1, r =>
    match r.worklist with
    | [] => r
    | finishedID :: rest =>
      drain order now fuel (resolveFinished order now finishedID { r with worklist := rest })

end Resolution

namespace Broker

/-- Drain the edges that point at a terminal task, and return the queues that gained tasks. Every
id after the first enters the worklist when its row loses its edges, so one more than the number
of rows is fuel enough. -/
def resolveDependents (b : Broker) (order : ResolveOrder) (taskID : String) (now : Time) : Broker × List String :=
  let start : Resolution := { store := b, worklist := [taskID] }
  let done := start.drain order now (b.tasks.keys.length + 1)
  (done.store, order.queues.visit done.queues)

/-- The terminal tasks some blocked task still waits on. -/
def finishedDependencies (b : Broker) : GoSet String :=
  b.tasks.keys.foldl (fun finished id =>
    match b.tasks.lookup id with
    | none => finished
    | some row =>
      if row.state = .blocked then
        row.deps.keys.foldl (fun finished depID =>
          match b.tasks.lookup depID with
          | some dep => if terminal dep.state then finished.insert depID () else finished
          | none => finished) finished
      else finished) ∅

/-- Resolve the given finished tasks one after the other, collecting the queues. -/
def resolveAll (order : String → ResolveOrder) (now : Time) :
    List String → Broker × GoSet String → Broker × GoSet String
  | [], acc => acc
  | depID :: rest, (b, queues) =>
    let (b', found) := b.resolveDependents (order depID) depID now
    resolveAll order now rest (b', found.foldl (fun queues queue => queues.insert queue ()) queues)

/-- Promote every blocked row without remaining dependencies among the given ids. -/
def promoteAll (now : Time) : List String → Broker × GoSet String → Broker × GoSet String
  | [], acc => acc
  | id :: rest, (b, queues) =>
    match b.tasks.lookup id with
    | none => promoteAll now rest (b, queues)
    | some row =>
      match b.promoteIfReady id row now with
      | (b', some queue) => promoteAll now rest (b', queues.insert queue ())
      | (b', none) => promoteAll now rest (b', queues)

/-- The safety net: resolve up to `limit` finished dependencies, then promote every task left
blocked without a dependency. -/
def promoteReadyDependents (b : Broker) (now : Time) (tasks finished queues : MapOrder String)
    (order : String → ResolveOrder) (limit : Int) : Broker × List String :=
  if limit ≤ 0 then (b, [])
  else
    let resolved := resolveAll order now ((finished.visit b.finishedDependencies).take limit.toNat) (b, ∅)
    let promoted := promoteAll now (tasks.visit resolved.1.tasks) resolved
    (promoted.1, queues.visit promoted.2)

end Broker

end Conveyor
