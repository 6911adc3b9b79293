import Conveyor.Broker.Admin
import Conveyor.Broker.Reads
import Conveyor.Actors.Message

/-!
# Admin actions on one task and on many

The admin service deletes, runs, cancels or archives one task or each task of a list. An action returns the store
it leaves, the messages it sends to queue grains, and whether it failed. Sends succeed.
-/

namespace Conveyor.Api

open Lib

/-- The largest number of tasks of one batch request. -/
def maxBatchTasks : Nat := 1000

/-- Why the admin service refuses an action. -/
inductive AdminError where
  | taskIDRequired
  | noTasks
  | tooManyTasks (count : Nat)
  | broker (cause : BrokerError)
  deriving DecidableEq

/-- What an action leaves behind. -/
structure Acted where
  store : Broker
  told : List (String × GrainMessage) := []
  failure : Option AdminError := none

/-- The outcome of a store operation that tells nobody. -/
def acted (b : Broker) : Except BrokerError Broker → Acted
  | .ok b' => { store := b' }
  | .error cause => { store := b, failure := some (.broker cause) }

section Single

variable (now : Time) (id : String) (b : Broker)

/-- Check the id before the action. -/
def requireTaskID (action : Acted) : Acted :=
  if id = "" then { store := b, failure := some .taskIDRequired } else action

/-- Route a cancel request to the grain of an executing task. -/
def cancelActive : Except BrokerError (String × GrainMessage) :=
  match b.getTask id with
  | .error cause => .error cause
  | .ok (envelope, state) =>
    if state ≠ .active then .error .invalidState else .ok (envelope.queue, .cancelActive id)

/-- Cancel a waiting task in the store, or ask the worker of an executing one to stop. -/
def cancelTask : Acted :=
  requireTaskID id b <|
    match b.cancelTask now id, cancelActive id b with
    | .error .invalidState, .ok told => { store := b, told := [told] }
    | outcome, _ => acted b outcome

/-- Make a task due and wake its grain. -/
def runTask : Acted :=
  match b.getTask id with
  | .error cause => acted b (.error cause)
  | .ok (envelope, _) =>
    match b.runTaskNow now id with
    | .error cause => acted b (.error cause)
    | .ok b' => { store := b', told := [(envelope.queue, .taskEnqueued)] }

end Single

/-- The four actions that have a batch form. -/
inductive Action where
  | delete
  | run
  | cancel
  | archive

/-- The action on one task, as its own request. -/
def Action.single (now : Time) (id : String) (b : Broker) : Action → Acted
  | .delete => requireTaskID id b (acted b (b.deleteTask id))
  | .run => requireTaskID id b (runTask now id b)
  | .cancel => cancelTask now id b
  | .archive => requireTaskID id b (acted b (b.archiveTask now id))

/-- The function a batch request applies to each id. -/
def Action.op (now : Time) (id : String) (b : Broker) : Action → Acted
  | .delete => acted b (b.deleteTask id)
  | .run => runTask now id b
  | .cancel => acted b (b.cancelTask now id)
  | .archive => acted b (b.archiveTask now id)

/-- A run of actions: the last store, all messages in order, and which positions failed. -/
structure Outcomes where
  store : Broker
  told : List (String × GrainMessage) := []
  failed : List Bool := []

/-- Act on each id in turn, each at its own reading of the clock. -/
def inTurn (act : Time → String → Broker → Acted) : List (Time × String) → Broker → Outcomes
  | [], b => { store := b }
  | (now, id) :: rest, b =>
    let first := act now id b
    let later := inTurn act rest first.store
    { store := later.store, told := first.told ++ later.told, failed := first.failure.isSome :: later.failed }

/-- A batch request; one without tasks or with too many is refused as a whole. -/
def batchTasks (action : Action) (tasks : List (Time × String)) (b : Broker) : Outcomes × Option AdminError :=
  if tasks = [] then ({ store := b }, some .noTasks)
  else if tasks.length > maxBatchTasks then ({ store := b }, some (.tooManyTasks tasks.length))
  else (inTurn (fun now id b => requireTaskID id b (action.op now id b)) tasks b, none)

/-- The store holds no executing task under the id. -/
def Idle (b : Broker) (id : String) : Prop := ∀ row, b.tasks.lookup id = some row → row.state ≠ .active

variable {b : Broker} {now : Time} {id : String} {action : Action} {tasks : List (Time × String)}

/-- The two forms differ only in what a cancel does to an executing task. -/
theorem single_eq_op (hidle : action = .cancel → Idle b id) :
    action.single now id b = requireTaskID id b (action.op now id b) := by
  cases action with
  | cancel =>
    rw [Action.single, cancelTask, Action.op]
    have hnot : ∀ told, cancelActive id b ≠ .ok told := by
      intro told htold
      cases hrow : b.tasks.lookup id with
      | none => simp [cancelActive, Broker.getTask, hrow] at htold
      | some row => simp [cancelActive, Broker.getTask, hrow, hidle rfl row hrow] at htold
    congr 1
    split
    · rename_i told _ htold
      exact absurd htold (hnot told)
    · rfl
  | _ => rfl

/-- On an executing task the single cancel succeeds and the one of a batch fails. -/
theorem cancel_of_active (hid : id ≠ "") (hactive : ¬ Idle b id) :
    (Action.cancel.single now id b).failure.isSome = false ∧
      (requireTaskID id b (Action.cancel.op now id b)).failure.isSome = true := by
  obtain ⟨row, hrow, hstate⟩ : ∃ row, b.tasks.lookup id = some row ∧ row.state = .active := by
    simpa [Idle] using hactive
  have hrefused : b.cancelTask now id = .error .invalidState := by
    simp [Broker.cancelTask, Broker.moveTask, hrow, hstate, cancelable]
  have htold : cancelActive id b = .ok (row.envelope.queue, .cancelActive id) := by
    simp [cancelActive, Broker.getTask, hrow, hstate, overlay]
  rw [Action.single, cancelTask, Action.op, requireTaskID, requireTaskID, if_neg hid, if_neg hid, hrefused, htold]
  exact ⟨rfl, rfl⟩

/-- A cancel leaves the executing tasks as they are and makes no other task executing. -/
theorem idle_cancel (t : String) : Idle (requireTaskID id b (Action.cancel.op now id b)).store t ↔ Idle b t := by
  rw [requireTaskID, Action.op, Broker.cancelTask, Broker.moveTask]
  split
  · rfl
  cases hrow : b.tasks.lookup id with
  | none => rfl
  | some row =>
    dsimp only
    split
    · rename_i hcancelable
      rw [acted, Idle, Idle, Broker.transition_tasks, GoMap.lookup_insert_eq_ite]
      rcases eq_or_ne t id with rfl | hne
      · simp only [↓reduceIte, hrow, Option.some.injEq, forall_eq']
        refine iff_of_true (by simp [TaskRow.canceled]) fun hactive => ?_
        rw [hactive] at hcancelable
        cases hcancelable
      · rw [if_neg hne]
    · rfl

/-- The loop of a batch request is the requests in turn exactly if a cancel names no executing task. -/
theorem inTurn_single_iff (hids : ∀ task ∈ tasks, task.2 ≠ "") :
    inTurn (fun now id b => requireTaskID id b (action.op now id b)) tasks b =
      inTurn (fun now id b => action.single now id b) tasks b ↔ (action = .cancel → ∀ task ∈ tasks, Idle b task.2) := by
  induction tasks generalizing b with
  | nil => exact iff_of_true rfl fun _ => List.forall_mem_nil _
  | cons task rest ih =>
    obtain ⟨now, id⟩ := task
    rw [List.forall_mem_cons] at hids
    by_cases hfirst : action = .cancel → Idle b id
    · -- the first requests agree, so the rest decides, from a store with the same executing tasks
      rw [inTurn, inTurn, single_eq_op hfirst]
      have hrest := @ih (requireTaskID id b (action.op now id b)).store hids.2
      rw [Outcomes.mk.injEq, List.append_cancel_left_eq, List.cons_eq_cons]
      refine Iff.trans ⟨fun heq => ?_, fun hlater => ?_⟩ (hrest.trans ?_)
      · obtain ⟨hstore, htold, -, hfailed⟩ := heq
        exact (Outcomes.mk.injEq ..).mpr ⟨hstore, htold, hfailed⟩
      · rw [hlater]
        exact ⟨rfl, rfl, rfl, rfl⟩
      · refine forall_congr' fun hcancel => ?_
        subst hcancel
        simp only [idle_cancel, List.forall_mem_cons, hfirst rfl, true_and]
    · obtain ⟨hcancel, hactive⟩ := Classical.not_imp.mp hfirst
      subst hcancel
      obtain ⟨hsingle, hbatch⟩ := @cancel_of_active b now id hids.1 hactive
      refine iff_of_false (fun heq => ?_) fun hidle => hactive (hidle rfl _ (.head _))
      have hfailed := (List.cons_eq_cons.mp (congrArg Outcomes.failed heq)).1
      rw [hsingle, hbatch] at hfailed
      cases hfailed

/-- A batch request on non-empty ids leaves the store, sends the messages and reports the failures of the single
requests in turn, exactly if it is no cancel or names no executing task. -/
theorem batch_equals_singles (action : Action) (tasks : List (Time × String)) (b : Broker)
    (hcount : tasks.length ≤ maxBatchTasks) (hids : ∀ task ∈ tasks, task.2 ≠ "") :
    (batchTasks action tasks b).1 = inTurn (fun now id b => action.single now id b) tasks b ↔
      (action = .cancel → ∀ task ∈ tasks, Idle b task.2) := by
  rw [← inTurn_single_iff hids, batchTasks]
  split
  · rename_i hnil
    rw [hnil]
    rfl
  · rw [if_neg (by omega)]

/-- A store with one task in a given state. -/
def oneStored (state : TaskState) : Broker :=
  Broker.empty.setRow "t" { envelope := { id := "t", queue := "q", type := "mail" }, state := state }

theorem batch_equals_singles_twice :
    (batchTasks .cancel [(5, "t"), (6, "t")] (oneStored .pending)).1 =
      inTurn (fun now id b => Action.cancel.single now id b) [(5, "t"), (6, "t")] (oneStored .pending) := by
  have hids : ∀ task ∈ [((5 : Time), "t"), (6, "t")], task.2 = "t" := by simp
  refine (batch_equals_singles .cancel _ _ (by decide) fun task htask => ?_).mpr fun _ task htask row hrow => ?_
  · rw [hids task htask]
    decide
  · rw [hids task htask] at hrow
    cases (show some _ = some row from hrow)
    decide

/-- A batch cancel reports an executing task as a failure and tells nobody; the single form reaches its worker. -/
theorem batch_cancel_misses_active :
    let batch := (batchTasks .cancel [(5, "t")] (oneStored .active)).1
    let singles := inTurn (Action.cancel.single) [(5, "t")] (oneStored .active)
    batch.failed = [true] ∧ batch.told.length = 0 ∧ singles.failed = [false] ∧ singles.told.length = 1 := by
  decide

end Conveyor.Api
