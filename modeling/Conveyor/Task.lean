import Mathlib.Algebra.Ring.Int.Defs
import Mathlib.Data.List.Basic

/-!
# Task envelopes, lifecycle states and lifecycle events

The wire types the brokers and the actors exchange. Absolute times count nanoseconds from the
zero time, so the zero value of a time is `0`; an absent message field is `none`, and a field of
a scalar type that was never set has its zero value.
-/

namespace Conveyor

/-- An absolute time in nanoseconds since the zero time. -/
abbrev Time := Int

/-- A length of time in nanoseconds. -/
abbrev Duration := Int

/-- Whether a time is the zero time. -/
def isZero (t : Time) : Bool := t == 0

/-- The lifecycle state of a task. -/
inductive TaskState where
  | unspecified
  | scheduled
  | pending
  | active
  | retry
  | completed
  | archived
  | canceled
  | aggregating
  | blocked
  deriving DecidableEq, Repr

/-- What happens to a dependent whose dependency fails terminally. The wire enumeration is open:
a number without a name travels as `unrecognized`. -/
inductive DependencyFailurePolicy where
  | unspecified
  | block
  | cascadeCancel
  | continue_
  | unrecognized (value : Int32)
  deriving DecidableEq

/-- One declared dependency edge. -/
structure TaskDependency where
  taskId : String
  onFailure : DependencyFailurePolicy := .unspecified
  deriving DecidableEq

/-- The execution options captured at enqueue time. -/
structure TaskOptions where
  maxRetry : Int32 := 0
  timeout : Option Duration := none
  deadline : Option Time := none
  processAt : Option Time := none
  uniqueKey : String := ""
  uniqueTtl : Option Duration := none
  retention : Option Duration := none
  priority : Int32 := 0
  group : String := ""
  expiresAt : Option Time := none
  dependsOn : List TaskDependency := []
  concurrencyKey : String := ""
  deriving DecidableEq

/-- A task as producers, brokers and workers pass it around. -/
structure TaskEnvelope where
  id : String
  queue : String := ""
  type : String := ""
  payload : List UInt8 := []
  contentType : String := ""
  options : TaskOptions := {}
  retried : Int32 := 0
  lastError : String := ""
  enqueuedAt : Option Time := none
  startedAt : Option Time := none
  completedAt : Option Time := none
  progress : UInt32 := 0
  progressMessage : String := ""
  deriving DecidableEq

/-- The kind of a lifecycle event. -/
inductive TaskEventType where
  | unspecified
  | enqueued
  | leased
  | completed
  | retried
  | archived
  | canceled
  | scheduled
  | released
  deriving DecidableEq

/-- A lifecycle event as a watcher receives it. -/
structure TaskEvent where
  id : String
  queue : String
  type : String
  state : TaskState
  eventType : TaskEventType
  occurredAt : Time
  attempt : Int32
  lastError : String
  deriving DecidableEq

/-- The event type of a transition; the old state only separates a release from an enqueue. -/
def classify (oldState newState : TaskState) : TaskEventType :=
  match newState with
  | .active => .leased
  | .completed => .completed
  | .retry => .retried
  | .archived => .archived
  | .canceled => .canceled
  | .scheduled => .scheduled
  | .pending => if oldState = .active then .released else .enqueued
  | .aggregating | .blocked => .enqueued
  | .unspecified => .unspecified

/-- The event of a transition, absent when the transition carries none. -/
def derive (oldState newState : TaskState) (id queue taskType lastError : String)
    (attempt : Int32) (occurredAt : Time) : Option TaskEvent :=
  if oldState = newState then none
  else if classify oldState newState = .unspecified then none
  else some
    { id := id, queue := queue, type := taskType, state := newState,
      eventType := classify oldState newState, occurredAt := occurredAt,
      attempt := attempt, lastError := lastError }

/-- The policy an edge is stored with: an unspecified one blocks. -/
def dependencyPolicy : DependencyFailurePolicy → DependencyFailurePolicy
  | .unspecified => .block
  | policy => policy

/-- Whether the state still holds a uniqueness claim. -/
def incomplete : TaskState → Bool
  | .scheduled | .pending | .active | .retry | .aggregating | .blocked => true
  | _ => false

/-- Whether the state is eligible for leasing. -/
def dispatchable (state : TaskState) : Bool := state == .pending || state == .retry

/-- Whether the state is an outcome a dependent reacts to. -/
def terminal : TaskState → Bool
  | .completed | .archived | .canceled => true
  | _ => false

end Conveyor
