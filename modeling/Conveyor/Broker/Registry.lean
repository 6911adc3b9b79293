import Conveyor.Broker.Lease

/-!
# Settings persisted beside the task log

Per-queue rate limits, per-group thresholds and webhook registrations. Nothing in them depends on the tasks.
-/

namespace Conveyor

open Lib

/-- A per-queue dispatch-rate override. The rate, a 64-bit float nothing here computes with, is kept as its bits. -/
structure RateLimit where
  queue : String
  ratePerSec : UInt64
  burst : Int
  updatedAt : Time
  deriving DecidableEq

/-- A per-group aggregation override; an empty group is the default of the queue. -/
structure GroupConfig where
  queue : String
  group : String
  maxSize : Int
  maxDelay : Duration
  gracePeriod : Duration
  updatedAt : Time
  deriving DecidableEq

/-- A persisted webhook registration. -/
structure WebhookWorker where
  name : String
  queues : GoMap String Int32
  concurrency : Int32
  batchTypes : List String := []
  url : String := ""
  secrets : List String := []
  requestTimeout : Duration := 0
  paused : Bool := false
  deriving DecidableEq

/-- The stored webhook registrations by name. -/
abbrev WebhookWorkers := GoMap String WebhookWorker

namespace WebhookWorkers

/-- Create or replace a registration. -/
def upsertWebhookWorker (workers : WebhookWorkers) (worker : WebhookWorker) : WebhookWorkers :=
  workers.insert worker.name worker

/-- One registration by name. -/
def getWebhookWorker (workers : WebhookWorkers) (name : String) : Except BrokerError WebhookWorker :=
  match workers.lookup name with
  | none => .error .taskNotFound
  | some worker => .ok worker

/-- All registrations ordered by name. -/
def listWebhookWorkers (workers : WebhookWorkers) (order : MapOrder String) : List WebhookWorker :=
  sortFunc (fun a other => compareBy a.name other.name) (GoMap.values order workers)

/-- Persist a registration's pause flag. -/
def setWebhookWorkerPaused (workers : WebhookWorkers) (name : String) (paused : Bool) :
    Except BrokerError WebhookWorkers :=
  match workers.lookup name with
  | none => .error .taskNotFound
  | some worker => .ok (workers.insert name { worker with paused := paused })

/-- Remove a registration. -/
def deleteWebhookWorker (workers : WebhookWorkers) (name : String) : WebhookWorkers := workers.erase name

end WebhookWorkers

end Conveyor
