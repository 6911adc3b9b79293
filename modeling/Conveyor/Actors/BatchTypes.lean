import Conveyor.Actors.After
import Conveyor.Actors.GroupSweeper
import Conveyor.Broker.Fencing

/-!
# Batches and the types of their tasks

A group is fired with the type of one of its tasks, and the gateway of the batch is chosen by that type. The
members are claimed later, by queue and group alone. While all members have the type the group was fired
with, every batch goes to a gateway that takes all its tasks; no part of the server keeps the members of a
group of one type.
-/

namespace Conveyor

open Lib

/-- A fired group is leased only while its aggregating members have the type it was fired with. -/
def System.GroupTyped (s : System) : Event → Prop
  | .pipe index _ _ =>
    match takeAt s.pipes index with
    | some (.leaseGroup queue group type .., _) =>
      ∀ entry ∈ s.broker.tasks.entries, Broker.groupLeasable queue group entry.2 = true → entry.2.envelope.type = type
    | _ => True
  | _ => True

instance (s : System) (e : Event) : Decidable (s.GroupTyped e) := by
  unfold System.GroupTyped
  split
  · split <;> infer_instance
  · infer_instance

/-- The tasks of a group lease on its way to its grain have the type the group was fired with. -/
def System.BatchesTyped (s : System) : Prop :=
  ∀ queue leaseID expiresAt group type error tasks,
    (queue, GrainMessage.groupLeaseCompleted leaseID expiresAt group type error tasks) ∈ s.toGrain →
      ∀ task ∈ tasks, task.type = type

/-- A batch goes to a gateway that has registered the type its group was fired with. -/
theorem QueueGrain.receive_executeBatch {settings : Settings} {turn : GrainTurn} {x : QueueGrain}
    {message : GrainMessage} {name leaseID group : String} {tasks : List TaskEnvelope} {expiresAt : Time}
    (h : GrainEffect.executeBatch name tasks leaseID expiresAt group ∈ (x.receive settings turn message).2) :
    ∃ type error, message = .groupLeaseCompleted leaseID expiresAt group type error tasks ∧
      ∃ gateway ∈ x.gateways, gateway.name = name ∧ type ∈ gateway.batchTypes := by
  have hemits := receive_emits h
  cases hemits with
  | @executeBatch _ _ _ type error =>
    refine ⟨type, error, rfl, ?_⟩
    -- the parts of the turn say of every batch they send where it goes
    have hpart := @finishGroupLease_part turn (fun effect => ∀ name, effect = .executeBatch name tasks leaseID expiresAt group →
      ∃ gateway ∈ x.gateways, gateway.name = name ∧ type ∈ gateway.batchTypes) x leaseID expiresAt tasks group type error
      (fun gateway hgateway htype _ _ heq => ⟨gateway, hgateway, by cases heq; rfl, htype⟩) (by rintro _ ⟨⟩)
    exact hpart.all _ h name rfl

section Runs

variable {settings : Settings} {s s' : System} {e : Event}

/-- The tasks a group lease call returns have the type of the group's members. -/
theorem leasedGroup_type {b : Broker} {now : Time} {order : Iteration} {queue group leaseID type : String}
    {limit : Int} {ttl : Duration} {task : TaskEnvelope}
    (hmembers : ∀ entry ∈ b.tasks.entries, Broker.groupLeasable queue group entry.2 = true → entry.2.envelope.type = type)
    (h : task ∈ System.leasedTasks (b.exec ⟨now, .leaseGroup queue group limit ttl leaseID, order⟩).2) :
    task.type = type := by
  obtain ⟨t, row, hrow, htest, rfl, -⟩ := claimSorted_reply (show task ∈ (b.claimSorted ..).2 from h)
  exact hmembers ⟨t, row⟩ ((List.mem_dlookup_iff b.tasks.nodupKeys).mp hrow) htest

/-- Leasing a fired group of one type keeps the batches on their way of one type. -/
theorem System.BatchesTyped.moves (h : s.BatchesTyped) (htyped : s.GroupTyped e) (hmove : Moves settings s e s') :
    s'.BatchesTyped := by
  intro queue leaseID expiresAt group type error tasks hp task htask
  rcases hmove.group_after hp with hold | ⟨index, now, order, limit, rest, rfl, htake, rfl, -⟩
  · exact h queue leaseID expiresAt group type error tasks hold task htask
  · simp only [GroupTyped, htake] at htyped
    exact leasedGroup_type htyped htask

end Runs

/-- In every run in which each fired group is leased while its members have the type it was fired with, a
batch that a grain sends goes to a gateway that has registered the types of all its tasks. -/
theorem batches_go_to_capable_gateways (settings : Settings) (d : Deployment) (events : List Event)
    (hmeet : StepsMeet (System.step settings) System.GroupTyped (System.start d) events) (index : Nat) (turn : GrainTurn)
    (queue : String) (message : GrainMessage) (rest : List (String × GrainMessage))
    (htake : takeAt (run (System.step settings) (System.start d) events).toGrain index = some ((queue, message), rest))
    (name : String) (tasks : List TaskEnvelope) (leaseID : String) (expiresAt : Time) (group : String)
    (hsent : GrainEffect.executeBatch name tasks leaseID expiresAt group ∈
      (((run (System.step settings) (System.start d) events).grains queue).receive settings turn message).2) :
    ∃ gateway ∈ ((run (System.step settings) (System.start d) events).grains queue).gateways,
      gateway.name = name ∧ ∀ task ∈ tasks, task.type ∈ gateway.batchTypes := by
  have htyped : (run (System.step settings) (System.start d) events).BatchesTyped :=
    run_invariant System.BatchesTyped (fun s e he h => h.moves he (step_moves settings s e)) _ events hmeet
      fun _ _ _ _ _ _ _ h => absurd h List.not_mem_nil
  obtain ⟨type, error, rfl, gateway, hgateway, hname, htype⟩ := QueueGrain.receive_executeBatch hsent
  refine ⟨gateway, hgateway, hname, fun task htask => ?_⟩
  have hmem := (takeAt_perm htake).mem_iff.mpr List.mem_cons_self
  rw [htyped queue leaseID expiresAt group type error tasks hmem task htask]
  exact htype

section Examples

/-- A worker on queue `q` that takes batches of type `mail`. -/
def mailDeployment : Deployment :=
  { sessions := [{ sessionID := "s", queues := ["q"], weights := ∅, concurrency := 1, batchTypes := ["mail"] }] }

/-- The worker registers, and group `g` is fired with the type of one of its tasks and leased. The other task has
the given type. -/
def firedGroup (type : String) : List Event :=
  [.tellGateway "gateway-s" .postStart, .gateway 0 { now := 1 }, .grain 0 { now := 1, newID := "L1" }, .pipe 0 1 {},
   .broker { now := 2, call := .enqueue { id := "u", queue := "q", type := type, options := { group := "g" } } },
   .broker { now := 2, call := .enqueue { id := "t", queue := "q", type := "mail", options := { group := "g" } } },
   .tellGrain "q" (.fireGroup "g" "mail" 2), .grain 1 { now := 3, newID := "L2" }, .pipe 0 3 {}]

set_option maxRecDepth 20000 in
/-- Two tasks of type `mail` are sent as one batch. -/
theorem batches_go_to_capable_gateways_mail :
    ∃ tasks : List TaskEnvelope, tasks.map TaskEnvelope.id = ["t", "u"] ∧ ∃ gateway ∈ ((run
      (System.step defaultSettings) (System.start mailDeployment) (firedGroup "mail")).grains "q").gateways,
      gateway.name = "gateway-s" ∧ ∀ task ∈ tasks, task.type ∈ gateway.batchTypes :=
  ⟨_, rfl, batches_go_to_capable_gateways defaultSettings mailDeployment (firedGroup "mail") (by decide) 1 { now := 4 }
    "q" _ _ rfl "gateway-s" _ "L2" _ "g" (List.mem_singleton.mpr rfl)⟩

/-- The batches on their way to gateways, with the types of their tasks. -/
def System.batchesSent (s : System) : List (String × List String) :=
  s.toGateway.filterMap fun
    | (name, .executeBatch tasks ..) => some (name, tasks.map TaskEnvelope.type)
    | _ => none

set_option maxRecDepth 20000 in
/-- The sweep fires a group of a `mail` and an `sms` task as one of type `mail`, and both tasks are sent to the
worker, which takes batches of type `mail` only. -/
theorem batch_of_another_type :
    let before := run (System.step defaultSettings) (System.start mailDeployment) ((firedGroup "sms").take 6)
    let s := run (System.step defaultSettings) (System.start mailDeployment)
      (firedGroup "sms" ++ [.grain 1 { now := 4, newID := "L3" }])
    GroupSweeper.sweep ⟨2, 60, 10⟩ [] 3 (before.broker.groupStats .listed .listed) = [("q", .fireGroup "g" "mail" 2)] ∧
      s.batchesSent = [("gateway-s", ["mail", "sms"])] ∧
      (s.grains "q").gateways.map (fun gateway => (gateway.name, gateway.batchTypes)) = [("gateway-s", ["mail"])] :=
  ⟨rfl, by decide⟩

end Examples

end Conveyor
