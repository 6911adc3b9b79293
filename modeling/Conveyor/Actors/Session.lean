import Conveyor.Actors.Message

/-!
# The frame check of a worker session

Every frame a worker sends passes `check` before it reaches the gateway, and a violation ends the
session. Comparing semantic versions is left to the version library, so the two version gates are
arguments.
-/

namespace Conveyor

open Lib

/-- The frame that opens a session. -/
structure Hello where
  sdkVersion : String := ""
  minServerVersion : String := ""
  queues : GoMap String Int32
  concurrency : Int32
  batchTypes : List String := []

/-- A frame of a worker. -/
inductive WorkerFrame where
  | hello (hello : Hello)
  | credit (n : Int32)
  | result (result : Result)
  | batchResult (results : List Result)
  | heartbeat (activeTaskIds : List String)
  | progress (taskId : String) (percent : UInt32) (message : String)
  | empty

/-- The protocol violations, with the values their messages print. -/
inductive ProtocolViolation where
  | frameBeforeHello
  | duplicateHello
  | emptyFrame
  | unsupportedSDK (version : String)
  | serverTooOld (required : String)
  | concurrencyNotPositive (concurrency : Int32)
  | noQueues
  | invalidQueueName (name : String)
  | weightNotPositive (name : String) (weight : Int32)
  | creditNotPositive (n : Int32)
  | creditExceedsConcurrency (n concurrency : Int32)
  | resultWithoutTaskID
  | undefinedOutcome (outcome : TaskOutcome)
  | progressWithoutTaskID
  deriving DecidableEq

/-- The frame state machine of one worker session. -/
structure SessionState where
  helloSeen : Bool := false
  concurrency : Int32 := 0
  deriving DecidableEq

/-- The version gates: which SDK versions are admitted, and which required server versions this
server meets. -/
structure VersionGates where
  sdkSupported : String → Bool := fun _ => true
  serverMeets : String → Bool := fun _ => true

/-- The character class of queue names; the first character is alphanumeric. -/
def queueNameChar (c : Char) : Bool := c.isAlphanum || c == '-' || c == '_' || c == '.'

/-- Whether a name matches the queue name pattern. -/
def validQueueName (name : String) : Bool :=
  match name.toList with
  | [] => false
  | first :: rest => first.isAlphanum && rest.all queueNameChar

/-- Check the declared queues in the order the loop visits them. -/
def validateQueues (queues : GoMap String Int32) : List String → Except ProtocolViolation Unit
  | [] => .ok ()
  | name :: rest =>
    let weight := (queues.lookup name).getD 0
    if !validQueueName name then .error (.invalidQueueName name)
    else if weight ≤ 0 then .error (.weightNotPositive name weight)
    else validateQueues queues rest

/-- Check the session-opening frame. -/
def validateHello (gates : VersionGates) (order : MapOrder String) (hello : Hello) : Except ProtocolViolation Unit :=
  if !gates.sdkSupported hello.sdkVersion then .error (.unsupportedSDK hello.sdkVersion)
  else if !gates.serverMeets hello.minServerVersion then
    .error (.serverTooOld hello.minServerVersion)
  else if hello.concurrency ≤ 0 then .error (.concurrencyNotPositive hello.concurrency)
  else if hello.queues.keys = [] then .error .noQueues
  else validateQueues hello.queues (order.visit hello.queues)

/-- Bound a credit grant by the declared concurrency. -/
def SessionState.validateCredit (s : SessionState) (n : Int32) : Except ProtocolViolation Unit :=
  if n ≤ 0 then .error (.creditNotPositive n)
  else if n > s.concurrency then .error (.creditExceedsConcurrency n s.concurrency)
  else .ok ()

/-- Check a result frame: a task id and a defined outcome. -/
def validateResult (result : Result) : Except ProtocolViolation Unit :=
  if result.taskId = "" then .error .resultWithoutTaskID
  else
    match result.outcome with
    | .success | .retry | .skipRetry | .released => .ok ()
    | outcome => .error (.undefinedOutcome outcome)

/-- Check every member of a batch result frame. -/
def validateBatchResult : List Result → Except ProtocolViolation Unit
  | [] => .ok ()
  | result :: rest =>
    match validateResult result with
    | .error violation => .error violation
    | .ok () => validateBatchResult rest

/-- Check a progress frame: it must name a task. -/
def validateProgress (taskId : String) : Except ProtocolViolation Unit :=
  if taskId = "" then .error .progressWithoutTaskID else .ok ()

/-- Check one frame and advance the state. -/
def SessionState.check (gates : VersionGates) (order : MapOrder String) (s : SessionState) :
    WorkerFrame → Except ProtocolViolation SessionState
  | .hello hello =>
    if s.helloSeen then .error .duplicateHello
    else (validateHello gates order hello).map fun _ => ⟨true, hello.concurrency⟩
  | .credit n => afterHello (s.validateCredit n)
  | .result result => afterHello (validateResult result)
  | .batchResult results => afterHello (validateBatchResult results)
  | .heartbeat _ => afterHello (.ok ())
  | .progress taskId _ _ => afterHello (validateProgress taskId)
  | .empty => afterHello (.error .emptyFrame)
where
  /-- Any other frame needs the opening one, and leaves the state as it is. -/
  afterHello (checked : Except ProtocolViolation Unit) : Except ProtocolViolation SessionState :=
    if s.helloSeen then checked.map fun _ => s else .error .frameBeforeHello

/-- The state of a session whose opening frame was accepted. -/
def SessionState.opened (concurrency : Int32) : SessionState := ⟨true, concurrency⟩

/-- Whether an open session accepts a frame. -/
def accepts (concurrency : Int32) (frame : WorkerFrame) : Bool :=
  ((SessionState.opened concurrency).check {} .listed frame).isOk

/-- A credit frame that passes announces at least one slot. -/
theorem accepts_credit {concurrency n : Int32} (h : accepts concurrency (.credit n) = true) : 0 < n.toInt := by
  by_contra hle
  have hn : n ≤ 0 := Int32.le_iff_toInt_le.mpr (Int.not_lt.mp hle)
  simp [accepts, SessionState.check, SessionState.check.afterHello, SessionState.opened,
    SessionState.validateCredit, hn, Except.map, Except.isOk, Except.toBool] at h

end Conveyor
