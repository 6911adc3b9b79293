import Conveyor.Actors.QueueGrain

/-!
# A paused queue dispatches nothing

Leases run off the grain's turn, so results that were started before a pause arrive during it. From
the turn that persisted the pause to the one that persists a resume, a turn starts no lease and sends
no work, and every lease result goes to the release path in the turn that hears of it.
-/

namespace Conveyor

open Lib

/-- One message a grain handles, with what its turn meets outside the grain. -/
abbrev GrainEvent := GrainTurn × GrainMessage

/-- The turn persists and applies a resume. -/
def GrainEvent.Resumes (event : GrainEvent) : Prop :=
  event.2 = .resumeQueue ∧ event.1.persisted = true

/-- The lease result a message carries: its lease and the tasks claimed under it. -/
def GrainMessage.leaseResult? : GrainMessage → Option (String × List TaskEnvelope)
  | .leaseCycleCompleted leaseID _ _ tasks => if tasks = [] then none else some (leaseID, tasks)
  | .groupLeaseCompleted leaseID _ _ _ _ tasks => if tasks = [] then none else some (leaseID, tasks)
  | _ => none

/-- A lease result carries an error or tasks, never both: it is built from what one call returned. -/
def GrainMessage.FromCall : GrainMessage → Prop
  | .leaseCycleCompleted _ _ error tasks => error = "" ∨ tasks = []
  | .groupLeaseCompleted _ _ _ _ error tasks => error = "" ∨ tasks = []
  | _ => True

/-- The effect sends work to a gateway or starts a lease. -/
def GrainEffect.startsWork : GrainEffect → Bool
  | .lease .. | .leaseGroup .. | .executeTask .. | .executeBatch .. => true
  | _ => false

/-- The effect hands tasks to the release path. -/
def GrainEffect.releases : GrainEffect → Bool
  | .release .. => true
  | _ => false

namespace QueueGrain

/-- The grain after the messages it handles, and what its turns do outside it. -/
def handle (settings : Settings) : List GrainEvent → QueueGrain → QueueGrain × List GrainEffect
  | [], x => (x, [])
  | event :: rest, x =>
    let (x, effects) := x.receive settings event.1 event.2
    let (x, later) := handle settings rest x
    (x, effects ++ later)

/-- What one call of the release path does for the lease result of a message, if it carries one. -/
def releasesResult (event : GrainEvent) : List GrainEffect :=
  match event.2.leaseResult? with
  | some (leaseID, tasks) => releaseLeased event.1 leaseID tasks
  | none => []

section Paused

variable {settings : Settings} {turn : GrainTurn} {x : QueueGrain}

/-- The release path starts no work, and releases what it is given. -/
theorem releaseLeased_quiet (turn : GrainTurn) (leaseID : String) (tasks : List TaskEnvelope) :
    (∀ effect ∈ releaseLeased turn leaseID tasks, effect.startsWork = false) ∧
      (releaseLeased turn leaseID tasks).filter GrainEffect.releases = releaseLeased turn leaseID tasks := by
  rw [releaseLeased]
  split
  · exact ⟨fun effect heffect => List.mem_singleton.mp heffect ▸ rfl, rfl⟩
  · exact ⟨by simp, rfl⟩

/-- A paused grain starts no lease cycle. -/
theorem maybeLease_paused (h : x.paused = true) : x.maybeLease settings turn = (x, []) := by
  simp [maybeLease, h]

/-- Freeing a slot leaves the pause flag alone. -/
@[simp] theorem releaseConcurrencyKey_paused (x : QueueGrain) (taskID : String) :
    (x.releaseConcurrencyKey taskID).paused = x.paused := by
  rw [releaseConcurrencyKey]
  split <;> rfl

/-- Registering a gateway leaves the pause flag alone. -/
@[simp] theorem registerGateway_paused (x : QueueGrain) (name : String) (capacity weight : Int32)
    (batchTypes : List String) : (x.registerGateway name capacity weight batchTypes).paused = x.paused := by
  rw [registerGateway]
  split <;> rfl

/-- A paused grain releases the tasks of a lease cycle. -/
theorem finishLeaseCycle_paused (leaseID : String) (expiresAt : Time) {error : String}
    {tasks : List TaskEnvelope} (hpaused : x.paused = true) (hcall : error = "" ∨ tasks = []) :
    x.finishLeaseCycle settings turn leaseID expiresAt error tasks =
      ({ x with leasing := false }, releasesResult (turn, .leaseCycleCompleted leaseID expiresAt error tasks)) := by
  by_cases htasks : tasks = []
  · simp [finishLeaseCycle, releasesResult, GrainMessage.leaseResult?, htasks]
  · simp [finishLeaseCycle, releasesResult, GrainMessage.leaseResult?, htasks, hcall.resolve_right htasks, hpaused]

/-- A paused grain releases the tasks of a group lease, whatever gateway it would have picked. -/
theorem finishGroupLease_paused (leaseID : String) (expiresAt : Time) (group type : String) {error : String}
    {tasks : List TaskEnvelope} (hpaused : x.paused = true) (hcall : error = "" ∨ tasks = []) :
    (x.finishGroupLease turn leaseID expiresAt group type error tasks).1.paused = true ∧
      (x.finishGroupLease turn leaseID expiresAt group type error tasks).2 =
      releasesResult (turn, .groupLeaseCompleted leaseID expiresAt group type error tasks) := by
  by_cases htasks : tasks = []
  · simp [finishGroupLease, releasesResult, GrainMessage.leaseResult?, htasks, hpaused]
  · have hpicking : (x.pickBatchGateway type).1.paused = true := hpaused
    rw [finishGroupLease, if_neg (fun h => h (hcall.resolve_right htasks)), if_neg htasks]
    cases hpicked : (x.pickBatchGateway type).2 with
    | none => simp [hpicked, hpicking, releasesResult, GrainMessage.leaseResult?, htasks]
    | some index => simp [hpicked, hpicking, releasesResult, GrainMessage.leaseResult?, htasks]

/-- The release path for the result of a message starts no work, and releases what it is given. -/
theorem releasesResult_quiet (event : GrainEvent) :
    (∀ effect ∈ releasesResult event, effect.startsWork = false) ∧
      (releasesResult event).filter GrainEffect.releases = releasesResult event := by
  rw [releasesResult]
  split
  · exact releaseLeased_quiet _ _ _
  · exact ⟨by simp, rfl⟩

/-- What one turn of a paused grain does, unless it persists a resume. -/
theorem receive_paused {event : GrainEvent} (hpaused : x.paused = true) (hresumes : ¬ event.Resumes)
    (hcall : event.2.FromCall) :
    (x.receive settings event.1 event.2).1.paused = true ∧
      (∀ effect ∈ (x.receive settings event.1 event.2).2, effect.startsWork = false) ∧
      (x.receive settings event.1 event.2).2.filter GrainEffect.releases = releasesResult event := by
  rcases event with ⟨turn, message⟩
  -- a turn that ends in an attempt to lease leaves a paused grain with nothing to do
  have hidle : ∀ y : QueueGrain, y.paused = true → (y.maybeLease settings turn).1.paused = true ∧
      (∀ effect ∈ (y.maybeLease settings turn).2, effect.startsWork = false) ∧
      (y.maybeLease settings turn).2.filter GrainEffect.releases = [] := fun y hy => by
    rw [maybeLease_paused hy]
    exact ⟨hy, by simp, rfl⟩
  cases message with
  | taskEnqueued | tasksAvailable | rateLimitChanged => exact hidle x hpaused
  | taskCompleted taskID success name =>
    exact hidle (x.recordCompletion taskID name) ((releaseConcurrencyKey_paused _ _).trans hpaused)
  | batchCompleted name total succeeded => exact hidle (x.recordBatchCompletion name) hpaused
  | fireGroup =>
    simp [receive, fireGroup, hpaused, releasesResult, GrainMessage.leaseResult?]
  | groupLeaseCompleted leaseID expiresAt group type error tasks =>
    obtain ⟨hstays, heffects⟩ := @finishGroupLease_paused turn x leaseID expiresAt group type error tasks hpaused hcall
    rw [receive, heffects]
    exact ⟨hstays, releasesResult_quiet _⟩
  | registerGateway name capacity weight batchTypes =>
    exact hidle (x.registerGateway name capacity weight batchTypes)
      ((registerGateway_paused x name capacity weight batchTypes).trans hpaused)
  | unregisterGateway name => exact ⟨hpaused, by simp [receive], rfl⟩
  | gatewayCredit name credits => exact hidle (x.addCredits name credits) hpaused
  | leaseCycleCompleted leaseID expiresAt error tasks =>
    rw [receive, finishLeaseCycle_paused leaseID expiresAt hpaused hcall]
    exact ⟨hpaused, releasesResult_quiet _⟩
  | leasedTasksReleased => exact ⟨hpaused, by simp [receive], rfl⟩
  | cancelActive taskID =>
    refine ⟨hpaused, fun effect heffect => ?_, List.filter_eq_nil_iff.mpr fun effect heffect => ?_⟩
    all_goals
      obtain ⟨entry, -, rfl⟩ := List.mem_map.mp heffect
      simp [GrainEffect.startsWork, GrainEffect.releases]
  | drainQueue =>
    rw [receive, setPaused]
    split
    · exact ⟨rfl, by simp [GrainEffect.startsWork], rfl⟩
    · exact ⟨hpaused, by simp, rfl⟩
  | resumeQueue =>
    -- a resume that is not persisted leaves the flag as it was
    have hfailed : turn.persisted = false := by
      cases hpersisted : turn.persisted with
      | false => rfl
      | true => exact absurd ⟨rfl, hpersisted⟩ hresumes
    have heq : x.receive settings turn .resumeQueue = (x, []) := by
      simp [receive, setPaused, hfailed, maybeLease_paused hpaused]
    rw [heq]
    exact ⟨hpaused, by simp, rfl⟩
  | concurrencyLimitChanged maxActive => exact hidle (x.applyConcurrencyLimitChange maxActive) hpaused
  | statusFailure => exact ⟨hpaused, by simp [receive], rfl⟩

/-- The grain after one more message. -/
theorem handle_append (settings : Settings) (events : List GrainEvent) (event : GrainEvent) (x : QueueGrain) :
    (x.handle settings (events ++ [event])).1 = ((x.handle settings events).1.receive settings event.1 event.2).1 := by
  induction events generalizing x with
  | nil => rfl
  | cons first rest ih => exact ih _

/-- What the turns of a paused grain do until one persists a resume. -/
theorem handle_paused (window : List GrainEvent) (x : QueueGrain) (hpaused : x.paused = true)
    (hwindow : ∀ event ∈ window, ¬ event.Resumes ∧ event.2.FromCall) :
    (∀ effect ∈ (x.handle settings window).2, effect.startsWork = false) ∧
      (x.handle settings window).2.filter GrainEffect.releases = window.flatMap releasesResult := by
  induction window generalizing x with
  | nil => exact ⟨by simp [handle], rfl⟩
  | cons event rest ih =>
    obtain ⟨hresumes, hcall⟩ := hwindow event (.head _)
    obtain ⟨hstays, hquiet, hreleases⟩ := @receive_paused settings x event hpaused hresumes hcall
    obtain ⟨hquiet', hreleases'⟩ := ih _ hstays fun event' hevent' =>
      hwindow event' (.tail event hevent')
    refine ⟨fun effect heffect => ?_, ?_⟩
    · rcases List.mem_append.mp heffect with hnow | hlater
      · exact hquiet effect hnow
      · exact hquiet' effect hlater
    · rw [handle, List.filter_append, hreleases, hreleases', List.flatMap_cons]

end Paused

end QueueGrain

/-- From the turn that persists a pause on, whatever was handled before it, and as long as no turn
persists a resume: the grain sends no task and no batch, starts no lease, and hands the tasks of every
lease result to the release path once, in the turn the result arrives in. -/
theorem paused_queue_dispatches_nothing (settings : Settings) (x : QueueGrain) (earlier window : List GrainEvent)
    (drain : GrainTurn) (hdrain : drain.persisted = true)
    (hwindow : ∀ event ∈ window, ¬ event.Resumes ∧ event.2.FromCall) :
    let paused := (x.handle settings (earlier ++ [(drain, .drainQueue)])).1
    (∀ effect ∈ (paused.handle settings window).2, effect.startsWork = false) ∧
      (paused.handle settings window).2.filter GrainEffect.releases = window.flatMap QueueGrain.releasesResult := by
  refine QueueGrain.handle_paused window _ ?_ hwindow
  rw [QueueGrain.handle_append, QueueGrain.receive, QueueGrain.setPaused, if_pos hdrain]

/-- A single and a group lease that were started before a pause, with a resume that fails between their
results. -/
def pauseWindow : List GrainEvent :=
  [({ now := 3 }, .leaseCycleCompleted "L" 63 "" [{ id := "t", queue := "q" }]),
   ({ now := 4, persisted := false }, .resumeQueue),
   ({ now := 5 }, .groupLeaseCompleted "M" 64 "g" "mail" "" [{ id := "u", queue := "q" }])]

/-- A grain with a credit starts a lease, is paused, and releases what both leases claimed. -/
theorem paused_queue_dispatches_nothing_pauseWindow :
    let started := (QueueGrain.activate "q" false none).handle defaultSettings
      ([({ now := 1, newID := "L" }, .registerGateway "s" 1 1 ["mail"])] ++ [({ now := 2 }, .drainQueue)])
    (∀ effect ∈ (started.1.handle defaultSettings pauseWindow).2, effect.startsWork = false) ∧
      (started.1.handle defaultSettings pauseWindow).2.filter GrainEffect.releases =
        [.release "L" [{ id := "t", queue := "q" }], .release "M" [{ id := "u", queue := "q" }]] := by
  refine paused_queue_dispatches_nothing defaultSettings (.activate "q" false none)
    [({ now := 1, newID := "L" }, .registerGateway "s" 1 1 ["mail"])] pauseWindow { now := 2 } rfl ?_
  intro event hevent
  simp only [pauseWindow, List.mem_cons, List.not_mem_nil, or_false] at hevent
  rcases hevent with rfl | rfl | rfl <;>
    exact ⟨by simp [GrainEvent.Resumes], by simp [GrainMessage.FromCall]⟩

end Conveyor
