import Conveyor.Broker.Payload

/-!
# Payloads pass through the interface

Replacing every payload, of the tasks and of the cron entries, commutes with the whole broker interface, those
operations that only read included.
-/

namespace Conveyor

open Lib

section Replacing

variable (f : List UInt8 → List UInt8)

/-- The cron entry with its payload replaced. -/
def CronEntry.mapPayload (entry : CronEntry) : CronEntry := { entry with payload := f entry.payload }

/-- The listed task with its payload replaced. -/
def TaskRecord.mapPayload (record : TaskRecord) : TaskRecord := { record with envelope := record.envelope.mapPayload f }

/-- The cron entries with every payload replaced. -/
def CronEntries.mapPayload (entries : CronEntries) : CronEntries :=
  GoMap.mapValues (fun _ entry => entry.mapPayload f) entries

/-- The broker with every stored payload replaced. -/
def MemoryBroker.mapPayload (b : MemoryBroker) : MemoryBroker :=
  { b with log := b.log.mapPayload f, cronEntries := b.cronEntries.mapPayload f }

/-- The operation with every payload and result it carries replaced. -/
def Operation.mapPayload : Operation → Operation
  | .call logged => .call (logged.mapPayload f)
  | .ack taskID leaseID result => .ack taskID leaseID (f result)
  | .ackBatch items => .ackBatch (items.map (Prod.map id f))
  | .upsertCronEntry entry => .upsertCronEntry (entry.mapPayload f)
  | operation => operation

/-- The returned value with every payload it carries replaced. -/
def Returned.mapPayload : Returned → Returned
  | .reply answer => .reply (answer.mapPayload f)
  | .task envelope state => .task (envelope.mapPayload f) state
  | .records listed => .records (listed.map (TaskRecord.mapPayload f))
  | .cronEntries entries => .cronEntries (entries.map (CronEntry.mapPayload f))
  | returned => returned

end Replacing

variable {f : List UInt8 → List UInt8}

namespace Broker

variable (b : Broker)

/-- A read of one task shows its payload replaced. -/
theorem getTask_mapPayload (id : String) :
    (b.mapPayload f).getTask id = (b.getTask id).map (Prod.map (TaskEnvelope.mapPayload f) fun state => state) := by
  rw [getTask, getTask, mapPayload_lookup]
  cases b.tasks.lookup id <;> rfl

/-- A listing shows the same tasks. -/
theorem listTasks_mapPayload (order : MapOrder String) (query : TaskQuery) :
    (b.mapPayload f).listTasks order query = (b.listTasks order query).map (TaskRecord.mapPayload f) := by
  have hsorted := @sortFunc_map _ _ (TaskRow.mapPayload f)
    (fun a other => compareBy other.envelope.id a.envelope.id) (fun a other => compareBy other.envelope.id a.envelope.id)
    (fun _ _ => rfl) ((GoMap.values order b.tasks).filter query.matches)
  have hmatched : ((GoMap.values order b.tasks).map (TaskRow.mapPayload f)).filter query.matches =
      ((GoMap.values order b.tasks).filter query.matches).map (TaskRow.mapPayload f) := List.filter_map
  simp only [listTasks, values_mapPayload, hmatched, hsorted, ← List.map_take, List.map_map]
  rfl

/-- The same groups are counted. -/
theorem groupStats_mapPayload (tasks : MapOrder String) (groups : MapOrder (String × String)) :
    (b.mapPayload f).groupStats tasks groups = b.groupStats tasks groups := by
  simp only [groupStats, values_mapPayload, List.foldl_map]
  rfl

/-- The same tasks are pending. -/
theorem pendingCount_mapPayload (now : Time) (order : MapOrder String) :
    (b.mapPayload f).pendingCount now order = b.pendingCount now order := by
  simp only [pendingCount, values_mapPayload, List.foldl_map]
  rfl

/-- The same states are counted. -/
theorem queueStats_mapPayload (paused tasks queues : MapOrder String) :
    (b.mapPayload f).queueStats paused tasks queues = b.queueStats paused tasks queues := by
  simp only [queueStats, values_mapPayload, List.foldl_map]
  rfl

end Broker

namespace CronEntries

variable (entries : CronEntries)

/-- A listing of crontab entries shows the same entries. -/
theorem listWhere_mapPayload (order : MapOrder String) (test : CronEntry → Bool)
    (htest : ∀ entry, test (entry.mapPayload f) = test entry) :
    (entries.mapPayload f).listWhere order test = (entries.listWhere order test).map (CronEntry.mapPayload f) := by
  have hvalues := GoMap.values_mapValues (CronEntry.mapPayload f) order entries
  have htests : test ∘ CronEntry.mapPayload f = test := funext htest
  have hsorted := @sortFunc_map _ _ (CronEntry.mapPayload f) (fun a other => compareBy a.id other.id)
    (fun a other => compareBy a.id other.id) (fun _ _ => rfl) ((GoMap.values order entries).filter test)
  rw [listWhere, listWhere, mapPayload, hvalues, List.filter_map, htests, hsorted]

/-- An entry is stored with its payload replaced. -/
theorem lookup_mapPayload (id : String) :
    (entries.mapPayload f).lookup id = (entries.lookup id).map (CronEntry.mapPayload f) := GoMap.lookup_mapValues _ _ _

/-- An entry is written with its payload replaced. -/
theorem insert_mapPayload (id : String) (entry : CronEntry) :
    (entries.mapPayload f).insert id (entry.mapPayload f) = mapPayload f (entries.insert id entry) :=
  (GoMap.mapValues_insert (fun _ => CronEntry.mapPayload f) entries id entry).symm

/-- `SetCronPaused` keeps the payload. -/
theorem setCronPaused_mapPayload (id : String) (paused : Bool) :
    (entries.mapPayload f).setCronPaused id paused = (entries.setCronPaused id paused).map (mapPayload f) := by
  rw [setCronPaused, setCronPaused, lookup_mapPayload]
  cases entries.lookup id with
  | none => rfl
  | some entry => exact congrArg Except.ok (entries.insert_mapPayload id { entry with paused := paused })

/-- `UpdateCronNextRun` keeps the payload. -/
theorem updateCronNextRun_mapPayload (id : String) (expected next : Time) :
    (entries.mapPayload f).updateCronNextRun id expected next = (entries.updateCronNextRun id expected next).mapPayload f := by
  rw [updateCronNextRun, updateCronNextRun, lookup_mapPayload]
  cases entries.lookup id with
  | none => rfl
  | some entry =>
    simp only [Option.map_some, apply_ite (mapPayload f)]
    exact if_congr .rfl (entries.insert_mapPayload id { entry with nextRunAt := next }) rfl

end CronEntries

namespace MemoryBroker

variable (b : MemoryBroker) (env : Surroundings)

/-- An operation on the log, behind the interface. -/
theorem exec_mapPayload (call : Call) :
    (b.mapPayload f).exec env (call.mapPayload f) = (b.exec env call).map (mapPayload f) (Returned.mapPayload f) := by
  have hlog := b.log.exec_mapPayload (f := f) env.now call env.order
  simp only [exec, mapPayload, hlog]
  cases call <;> rfl

/-- No operation of the interface looks at a payload. -/
theorem perform_mapPayload (operation : Operation) :
    (b.mapPayload f).perform env (operation.mapPayload f) =
      (b.perform env operation).map (mapPayload f) (Returned.mapPayload f) := by
  cases operation with
  | call call => exact b.exec_mapPayload env call
  | ack taskID leaseID result => exact b.exec_mapPayload env (.ack taskID leaseID)
  | ackBatch items =>
    have hacked := b.exec_mapPayload (f := f) env (.ackBatch (items.map Prod.fst))
    simp only [Operation.mapPayload, perform, List.map_map]
    exact hacked
  | getTask id =>
    have hread := b.log.getTask_mapPayload (f := f) id
    simp only [Operation.mapPayload, perform, mapPayload, hread]
    cases b.log.getTask id <;> rfl
  | listTasks query =>
    have hread := b.log.listTasks_mapPayload (f := f) env.order.tasks query
    simp only [Operation.mapPayload, perform, mapPayload, hread]
    rfl
  | groupStats =>
    have hread := b.log.groupStats_mapPayload (f := f) env.order.tasks env.groups
    simp only [Operation.mapPayload, perform, mapPayload, hread]
    rfl
  | pendingCount =>
    have hread := b.log.pendingCount_mapPayload (f := f) env.now env.order.tasks
    simp only [Operation.mapPayload, perform, mapPayload, hread]
    rfl
  | queueStats =>
    have hread := b.log.queueStats_mapPayload (f := f) env.order.finished env.order.tasks env.order.queues
    simp only [Operation.mapPayload, perform, mapPayload, hread]
    rfl
  | info =>
    have htasks := b.log.mapPayload_keys (f := f)
    have hentries : (b.cronEntries.mapPayload f).keys = b.cronEntries.keys := GoMap.keys_mapValues _ _
    simp only [Operation.mapPayload, perform, mapPayload, engineInfo, htasks, hentries]
    rfl
  | upsertCronEntry entry =>
    exact congrArg (fun entries => ({ b.mapPayload f with cronEntries := entries }, Returned.reply .ok))
      (b.cronEntries.insert_mapPayload entry.id entry)
  | listCronEntries =>
    exact congrArg (fun entries => (b.mapPayload f, Returned.cronEntries entries))
      (b.cronEntries.listWhere_mapPayload env.order.tasks (fun _ => true) fun _ => rfl)
  | listDueCronEntries now =>
    exact congrArg (fun entries => (b.mapPayload f, Returned.cronEntries entries))
      (b.cronEntries.listWhere_mapPayload env.order.tasks (CronEntry.due now) fun _ => rfl)
  | setCronPaused id paused =>
    have hpaused := b.cronEntries.setCronPaused_mapPayload (f := f) id paused
    simp only [Operation.mapPayload, perform, mapPayload, hpaused]
    cases b.cronEntries.setCronPaused id paused <;> rfl
  | updateCronNextRun id expected next =>
    exact congrArg (fun entries => ({ b.mapPayload f with cronEntries := entries }, Returned.reply .ok))
      (b.cronEntries.updateCronNextRun_mapPayload id expected next)
  | deleteCronEntry id =>
    exact congrArg (fun entries => ({ b.mapPayload f with cronEntries := entries }, Returned.reply .ok))
      (GoMap.mapValues_erase _ b.cronEntries id).symm
  | getWebhookWorker name =>
    simp only [Operation.mapPayload, perform, mapPayload]
    cases b.webhookWorkers.getWebhookWorker name <;> rfl
  | setWebhookWorkerPaused name paused =>
    simp only [Operation.mapPayload, perform, mapPayload]
    cases b.webhookWorkers.setWebhookWorkerPaused name paused <;> rfl
  | _ => rfl

end MemoryBroker

end Conveyor
