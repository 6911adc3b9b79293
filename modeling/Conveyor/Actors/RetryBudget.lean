import Conveyor.Actors.Leases
import Conveyor.Actors.Work

/-!
# The retry budget

A gateway decides between a retry and the archive from the counter it read when the task was leased,
while the reaper and other gateways count on in the store. The counter of a leased task is copied along
the path of the lease. `RetryBudget` says that every copy agrees with the stored counter for as long as
the task is held under the lease of the copy, so a retry granted by a copy is one the store has left.
-/

namespace Conveyor

open Lib

variable {b : Broker} {i : Invocation}

section Store

/-- An increment below another value does not wrap. -/
theorem int32_add_one_le_of_lt {a b : Int32} (h : a < b) : a + 1 ≤ b := by
  have ha := a.le_toInt
  have hb := b.toInt_lt
  rw [Int32.lt_iff_toInt_lt] at h
  rw [Int32.le_iff_toInt_le, Int32.toInt_add, Int.bmod_eq_of_le] <;> simp <;> omega

/-- The row keeps the committed limit, and stays within it if the task was committed within it. -/
structure TaskRow.Budget (row : TaskRow) : Prop where
  limit : row.maxRetry = row.envelope.options.maxRetry
  within : row.envelope.retried ≤ row.maxRetry → row.retried ≤ row.maxRetry

/-- Every row is within its budget, and its envelope is one that was committed. -/
def Broker.Budgeted (Committed : TaskEnvelope → Prop) (b : Broker) : Prop :=
  ∀ t row, b.tasks.lookup t = some row → row.Budget ∧ Committed row.envelope

/-- The call fails no task whose retries are used up. -/
def Broker.FailsWithin (b : Broker) (call : Call) : Prop :=
  ∀ t leaseID errMsg processAt row, call = .fail t leaseID errMsg processAt →
    b.tasks.lookup t = some row → row.HeldUnder leaseID → row.retried < row.maxRetry

variable {now : Time} {call : Call} {seeds : List String} {base : Broker}
  {Committed : TaskEnvelope → Prop}

/-- A change keeps a row within its budget if it counts a failure only below the limit. -/
theorem RowChange.budget {t : String} {row row' : TaskRow} (h : RowChange now t call row row')
    (hfail : ∀ leaseID errMsg processAt, call = .fail t leaseID errMsg processAt →
      row.HeldUnder leaseID → row.retried < row.maxRetry) (hrow : row.Budget) : row'.Budget := by
  cases h with
  | failed hheld => exact ⟨hrow.limit, fun _ => int32_add_one_le_of_lt (hfail _ _ _ rfl hheld)⟩
  | reaped hreapable =>
    rw [TaskRow.reaped]
    split
    · exact ⟨hrow.limit, hrow.within⟩
    · rename_i hbelow
      exact ⟨hrow.limit, fun _ => int32_add_one_le_of_lt (Int32.not_le.mp hbelow)⟩
  | _ => exact ⟨hrow.limit, hrow.within⟩

/-- A step keeps every row within its budget if it counts a failure only below the limit. -/
theorem StoreStep.budgeted {b' : Broker} (h : StoreStep now call seeds base b b') (hfail : b.FailsWithin call)
    (hcommit : ∀ task ∈ call.enqueued, Committed task) (hb : b.Budgeted Committed) : b'.Budgeted Committed := by
  intro t row' hrow'
  have hrow := h.row t
  rw [hrow'] at hrow
  generalize hstored : b.tasks.lookup t = stored at hrow
  cases hrow with
  | same => exact hb t row' hstored
  | created hcall hid hkey => exact ⟨⟨rfl, id⟩, hcommit _ hcall⟩
  | @changed row _ hchange =>
    obtain ⟨hbudget, hcommitted⟩ := hb t row hstored
    refine ⟨hchange.budget (fun leaseID errMsg processAt hcall hheld => ?_) hbudget, hchange.envelope ▸ hcommitted⟩
    exact hfail t leaseID errMsg processAt row hcall hstored hheld
  | @satisfied f finished row =>
    obtain ⟨hbudget, hcommitted⟩ := hb t row hstored
    exact ⟨⟨hbudget.limit, hbudget.within⟩, hcommitted⟩
  | @cascaded f finished row =>
    obtain ⟨hbudget, hcommitted⟩ := hb t row hstored
    exact ⟨⟨hbudget.limit, hbudget.within⟩, hcommitted⟩

/-- An operation keeps every row within its budget if it counts a failure only below the limit. -/
theorem after_budgeted (hfail : b.FailsWithin i.call) (hcommit : ∀ task ∈ i.call.enqueued, Committed task)
    (hb : b.Budgeted Committed) : (b.after i).Budgeted Committed := by
  have hsteps := exec_steps b i
  generalize b.after i = b' at hsteps
  induction hsteps with
  | refl => exact hb
  | tail hbefore hlast ih =>
    refine hlast.budgeted (fun t leaseID errMsg processAt row hcall hrow hheld => ?_) hcommit ih
    -- the row is still in the attempt it was in when the operation started
    rcases StoreSteps.heldUnder hbefore hrow hheld with ⟨old, hold, hheldOld, hattempt⟩ | hleases
    · have hbelow := hfail t leaseID errMsg processAt old hcall hold hheldOld
      rwa [hattempt.retried, hattempt.maxRetry] at hbelow
    · rw [hcall] at hleases
      cases hleases

end Store

/-- The retry counters of a task as they were read when it was leased. -/
structure Snapshot where
  taskID : String
  leaseID : String
  retried : Int32
  maxRetry : Int32

/-- The counters an envelope under a lease carries. -/
def TaskEnvelope.snapshot (task : TaskEnvelope) (leaseID : String) : Snapshot :=
  ⟨task.id, leaseID, task.retried, task.options.maxRetry⟩

/-- The counters a gateway's record carries. -/
def InflightTask.snapshot (entry : InflightTask) (taskID : String) : Snapshot :=
  ⟨taskID, entry.leaseID, entry.retried, entry.maxRetry⟩

/-- Records of one delivery carry the same counters. -/
theorem InflightTask.SameDelivery.snapshot {old e : InflightTask} (h : old.SameDelivery e)
    (t : String) : e.snapshot t = old.snapshot t := by
  rw [InflightTask.snapshot, InflightTask.snapshot, h.leaseID, h.retried, h.maxRetry]

/-- The lease and the tasks a message to a grain carries. -/
def GrainMessage.leased : GrainMessage → Option (String × List TaskEnvelope)
  | .leaseCycleCompleted leaseID _ _ tasks | .groupLeaseCompleted leaseID _ _ _ _ tasks =>
    some (leaseID, tasks)
  | _ => none

/-- The record and the result a piece of work settles. -/
def GatewayWork.settles : GatewayWork → Option (InflightTask × Result)
  | .settle entry result _ | .settleMember entry result _ => some (entry, result)
  | _ => none

/-- The counters a gateway may read: those of the records it tracks, and those of the records its turn
has taken out to settle. -/
inductive GatewayActor.Reads : GatewayActor → Snapshot → Prop where
  | tracked {a : GatewayActor} {t : String} {e : InflightTask} (he : a.inflight.lookup t = some e) :
      Reads a (e.snapshot t)
  | settling {g : Gateway} {work : GatewayWork} {entry : InflightTask} {result : Result}
      (hwork : work ∈ g.turn) (hsettles : work.settles = some (entry, result)) :
      Reads (.stream g) (entry.snapshot result.taskId)

/-- The places that hold a copy of a task's retry counters. -/
inductive System.Holds (s : System) : Snapshot → Prop where
  | leased {queue leaseID : String} {message : GrainMessage} {tasks : List TaskEnvelope}
      {task : TaskEnvelope} (hmem : (queue, message) ∈ s.toGrain)
      (hleased : message.leased = some (leaseID, tasks)) (htask : task ∈ tasks) :
      Holds s (task.snapshot leaseID)
  | dispatched {name : String} {message : GatewayMessage} {task : TaskEnvelope}
      (hmem : (name, message) ∈ s.toGateway) (htask : task ∈ message.dispatched) :
      Holds s (task.snapshot message.lease)
  | read {name : String} {a : GatewayActor} {snap : Snapshot} (ha : s.gateways name = some a)
      (hread : a.Reads snap) : Holds s snap

/-- A copy of the counters agrees with the store as long as the task is held under its lease. -/
def Broker.Agrees (b : Broker) (snap : Snapshot) : Prop :=
  ∀ row, b.tasks.lookup snap.taskID = some row → row.HeldUnder snap.leaseID →
    row.retried = snap.retried ∧ row.maxRetry = snap.maxRetry

/-- Rows are within their budgets, and the copies of their counters agree with them. -/
structure RetryBudget (Committed : TaskEnvelope → Prop) (s : System) : Prop where
  budgeted : s.broker.Budgeted Committed
  handedOut : ∀ snap, s.Holds snap → ∃ queue, (snap.leaseID, queue) ∈ s.leases
  agrees : ∀ snap, s.Holds snap → s.broker.Agrees snap

variable {leaseID : String} {snap : Snapshot}

section Turns

variable {settings : Settings} {turn : GatewayTurn} {a : GatewayActor}

variable {processAt : Time}

/-- A failure is counted only for a record whose counter is below its limit. -/
theorem applyOutcome_fail {now : Time} {delay : Duration} {entry : InflightTask} {result : Result}
    {t errMsg : String} (h : (applyOutcome now delay entry result).1 = .fail t leaseID errMsg processAt) :
    t = result.taskId ∧ leaseID = entry.leaseID ∧ entry.retried < entry.maxRetry := by
  simp only [applyOutcome] at h
  split at h
  · cases h
  · split at h
    · cases h
    · split at h
      · cases h
      · rename_i hbelow
        cases h
        exact ⟨rfl, rfl, Int32.not_le.mp hbelow⟩
  · cases h
  · split at h <;> cases h
  · cases h
  · cases h

/-- A copy the gateway may read leaves the task a retry under the lease. -/
def GatewayActor.Permits (a : GatewayActor) (t leaseID : String) : Prop :=
  ∃ snap, a.Reads snap ∧ snap.taskID = t ∧ snap.leaseID = leaseID ∧ snap.retried < snap.maxRetry

/-- A gateway counts a failure only when a copy leaves the task a retry. -/
theorem nextCall_fail {t errMsg : String} (hnamed : ∀ w, a = .webhook w → ∀ work ∈ w.turn, work.Named)
    (h : a.nextCall settings turn = some (.fail t leaseID errMsg processAt)) : a.Permits t leaseID := by
  generalize hcall : Call.fail t leaseID errMsg processAt = call at h
  cases nextCall_issues h with
  | settle hturn =>
    obtain ⟨rfl, rfl, hbelow⟩ := applyOutcome_fail hcall.symm
    rcases hturn with hwork | hwork
    · exact ⟨_, .settling hwork rfl, rfl, rfl, hbelow⟩
    · exact ⟨_, .settling hwork rfl, rfl, rfl, hbelow⟩
  | @resolve _ taskID _ result hturn hentry =>
    obtain ⟨rfl, rfl, hbelow⟩ := applyOutcome_fail hcall.symm
    have hid : result.taskId = taskID := by
      rcases hturn with ⟨_, hwork⟩ | ⟨_, hwork⟩
      · exact hnamed _ rfl _ hwork
      · exact hnamed _ rfl _ hwork
    exact ⟨_, .tracked hentry, hid.symm, rfl, hbelow⟩
  | other _ hfail => exact absurd hcall.symm (hfail _ _ _ _)

/-- After the first part of a turn a gateway reads what it read before or what was dispatched to it. -/
theorem receive_reads {message : GatewayMessage} (h : (a.receive settings turn message).1.Reads snap) :
    a.Reads snap ∨ ∃ task ∈ message.dispatched, snap = task.snapshot message.lease := by
  generalize hafter : (a.receive settings turn message).1 = after at h
  cases h with
  | @tracked _ t e he =>
    rcases GatewayActor.receive_records (hafter ▸ he) with ⟨-, old, hold, hsame⟩ |
      ⟨task, htask, rfl, rfl⟩
    · exact .inl (hsame.snapshot t ▸ .tracked hold)
    · exact .inr ⟨task, htask, rfl⟩
  | @settling g' work entry result hwork hsettles =>
    cases a with
    | webhook w => cases hafter
    | stream g =>
      cases GatewayActor.stream.inj hafter
      left
      cases Gateway.receive_starts g hwork with
      | kept hold => exact .settling hold hsettles
      | settle hentry =>
        cases hsettles
        exact .tracked hentry
      | settleMember hrouted hentry =>
        cases hsettles
        rw [Gateway.memberResult_taskId]
        exact .tracked hentry
      | release => cases hsettles
      | ackBatch hitems => cases hsettles
      | extendLease => cases hsettles
      | setProgress => cases hsettles

/-- Going on with a turn a gateway reads nothing new. -/
theorem resume_reads {reply : Reply} (h : (a.resume settings turn reply).1.Reads snap) : a.Reads snap := by
  generalize hafter : (a.resume settings turn reply).1 = after at h
  cases h with
  | @tracked _ t e he =>
    obtain ⟨old, hold, hsame⟩ := (GatewayActor.resume_keeps reply).records t e (hafter ▸ he)
    exact hsame.snapshot t ▸ .tracked hold
  | @settling g' work entry result hwork hsettles =>
    obtain ⟨g, rfl, hkept⟩ := GatewayActor.resume_work_stream hafter
    exact .settling (hkept work hwork) hsettles

end Turns

section Steps

variable {settings : Settings} {s s' : System} {e : Event} {Committed : TaskEnvelope → Prop}

/-- The tasks a claiming call returns carry the counters of their rows. -/
theorem claimSorted_agrees {now : Time} {order : MapOrder String} {test : TaskRow → Bool}
    {cmp : TaskRow → TaskRow → Int} {limit : Int} {ttl : Duration} {task : TaskEnvelope} (hkeyed : b.Keyed)
    (hb : b.Budgeted Committed) (htask : task ∈ (b.claimSorted now order test cmp limit ttl leaseID).2) :
    (b.claimSorted now order test cmp limit ttl leaseID).1.Agrees (task.snapshot leaseID) := by
  obtain ⟨t, row, hrow, -, rfl, hafter⟩ := claimSorted_reply htask
  intro row' hrow' hheld
  have hid : (overlay (row.leased now ttl leaseID)).id = t := hkeyed t row hrow
  rw [TaskEnvelope.snapshot, hid, hafter] at hrow'
  cases hrow'
  exact ⟨rfl, (hb t row hrow).1.limit⟩

/-- A copy held after a step comes from one held before it, or was just made from the store. -/
theorem Moves.holds (hmove : Moves settings s e s') (hkeyed : s.broker.Keyed) (hb : s.broker.Budgeted Committed)
    (h : s'.Holds snap) : s.Holds snap ∨ (∃ queue, (snap.leaseID, queue) ∈ s'.leases) ∧ s'.broker.Agrees snap := by
  cases h with
  | @leased queue leaseID message tasks task hmem hleased htask =>
    cases message with
    | leaseCycleCompleted =>
      cases hleased
      rcases hmove.cycle_after hmem with hold | ⟨index, now, order, limit, rest, -, -, rfl, rfl⟩
      · exact .inl (.leased hold rfl htask)
      · exact .inr ⟨⟨queue, List.mem_append_right _ (List.mem_singleton_self _)⟩, claimSorted_agrees hkeyed hb htask⟩
    | groupLeaseCompleted =>
      cases hleased
      rcases hmove.group_after hmem with hold | ⟨index, now, order, limit, rest, -, -, rfl, rfl⟩
      · exact .inl (.leased hold rfl htask)
      · exact .inr ⟨⟨queue, List.mem_append_right _ (List.mem_singleton_self _)⟩, claimSorted_agrees hkeyed hb htask⟩
    | _ => cases hleased
  | dispatched hmem htask =>
    refine .inl ?_
    rcases hmove.dispatch_after hmem with hold | hplain | ⟨_, turn, queue, received, rest, -, htake, -, hnew⟩
    · exact .dispatched hold htask
    · rw [GatewayMessage.dispatched_of_not_executes hplain] at htask
      cases htask
    · -- what is dispatched was leased with the message just handled
      rcases emitted_dispatch hnew with ⟨leaseID, expiresAt, error, tasks, rfl, task', htask', rfl⟩ |
        ⟨leaseID, expiresAt, group, type, error, tasks, rfl, -, rfl⟩ | ⟨taskID, rfl⟩
      · obtain rfl := List.mem_singleton.mp htask
        exact .leased (taken_mem htake) rfl htask'
      · exact .leased (taken_mem htake) rfl htask
      · cases htask
  | read ha' hreads =>
    refine .inl ?_
    obtain ⟨a, ha, rfl | ⟨index, turn, message, rest, -, htake, -, -, rfl⟩ | ⟨turn, order, reply, -, -, -, rfl⟩⟩ :=
      hmove.gateway_after ha'
    · exact .read ha hreads
    · rcases receive_reads hreads with hold | ⟨task, htask, rfl⟩
      · exact .read ha hold
      · exact .dispatched (taken_mem htake) htask
    · exact .read ha (resume_reads hreads)

/-- No call counts a failure for a task whose retries are used up. -/
theorem RetryBudget.failsWithin (h : RetryBudget Committed s) (hnamed : s.WorkNamed)
    (hcalls : Calls settings s e i) : s.broker.FailsWithin i.call := by
  rintro t leaseID errMsg processAt row hfail hrow hheld
  cases hcalls with
  | outside hexternal =>
    rw [hfail] at hexternal
    cases hexternal
  | gateway ha hcall =>
    obtain ⟨snap, hreads, rfl, rfl, hbelow⟩ :=
      nextCall_fail (fun w hw => hnamed _ w (hw ▸ ha)) (hcall.trans (congrArg some hfail))
    obtain ⟨hretried, hmax⟩ := h.agrees snap (.read ha hreads) row hrow hheld
    rwa [hretried, hmax]
  | piped _ hcall => exact absurd hfail ((Pipe.call_claims hcall).2 t leaseID errMsg processAt)

/-- Every step keeps rows within their budgets. -/
theorem RetryBudget.moves (h : RetryBudget Committed s) (hflow : LeaseFlow s) (hnamed : s.WorkNamed)
    (hmove : Moves settings s e s')
    (hcommit : ∀ i, e = .broker i → ∀ task ∈ i.call.enqueued, Committed task) :
    RetryBudget Committed s' where
  budgeted := by
    rcases hmove.broker_after with htasks | ⟨i, hcalls, hafter⟩
    · exact fun t row hrow => h.budgeted t row (htasks ▸ hrow)
    · rw [hafter]
      refine after_budgeted (h.failsWithin hnamed hcalls) (fun task htask => ?_) h.budgeted
      cases hcalls with
      | outside => exact hcommit i rfl task htask
      | gateway _ hcall =>
        rw [(Call.leaseScoped_spec (nextCall_leaseScoped hcall)).2] at htask
        cases htask
      | piped _ hcall =>
        rw [(Pipe.call_claims hcall).1] at htask
        cases htask
  handedOut snap hsnap := by
    rcases hmove.holds hflow.keyed h.budgeted hsnap with hold | ⟨hlease, -⟩
    · obtain ⟨queue, hmem⟩ := h.handedOut snap hold
      exact ⟨queue, hmove.leases hmem⟩
    · exact hlease
  agrees snap hsnap := by
    rcases hmove.holds hflow.keyed h.budgeted hsnap with hold | ⟨-, hagrees⟩
    · intro row' hrow' hunder
      obtain ⟨queue, hmem⟩ := h.handedOut snap hold
      obtain ⟨row, hrow, hunderRow, hattempt⟩ := hmove.heldBefore hflow _ row' _ queue hrow' hunder hmem
      obtain ⟨hretried, hmax⟩ := h.agrees snap hold row hrow hunderRow
      exact ⟨hattempt.retried.symm.trans hretried, hattempt.maxRetry.symm.trans hmax⟩
    · exact hagrees

end Steps

/-- A system that starts holds no tasks and no copies of their counters. -/
theorem retryBudget_start (Committed : TaskEnvelope → Prop) (d : Deployment) :
    RetryBudget Committed (System.start d) := by
  have hnone : ∀ snap, ¬ (System.start d).Holds snap := by
    intro snap hsnap
    cases hsnap with
    | leased hmem => cases hmem
    | dispatched hmem => cases hmem
    | read ha hreads =>
      rcases System.start_gateway ha with ⟨session, rfl⟩ | ⟨registration, rfl⟩
      · cases hreads with
        | tracked he => cases he
        | settling hwork => cases hwork
      · cases hreads with
        | tracked he => cases he
  exact ⟨fun t row hrow => (nomatch hrow), fun snap h => absurd h (hnone snap), fun snap h => absurd h (hnone snap)⟩

/-- The stored task is one a producer committed, and if it was committed with no more retries than its
limit, it never has more, whatever gateways, workers, endpoints, admins and the reaper do. -/
theorem retried_le_maxRetry (settings : Settings) (d : Deployment) (events : List Event) (t : String) (row : TaskRow)
    (hrow : (run (System.step settings) (System.start d) events).broker.tasks.lookup t = some row) :
    (∃ i, Event.broker i ∈ events ∧ row.envelope ∈ i.call.enqueued) ∧ row.maxRetry = row.envelope.options.maxRetry ∧
      (row.envelope.retried ≤ row.envelope.options.maxRetry → row.retried ≤ row.maxRetry) := by
  have hevents : StepsMeet (System.step settings) (fun _ e => e ∈ events) (System.start d) events :=
    stepsMeet_of_forall (fun e he => he) _
  have hinv := run_invariant
    (fun s => LeaseFlow s ∧ s.WorkNamed ∧
      RetryBudget (fun task => ∃ i, Event.broker i ∈ events ∧ task ∈ i.call.enqueued) s)
    (fun s e he hs => ?_) (System.start d) events hevents
    ⟨leaseFlow_start d, workNamed_start d, retryBudget_start _ d⟩
  · obtain ⟨hbudget, hcommitted⟩ := hinv.2.2.budgeted t row hrow
    exact ⟨hcommitted, hbudget.limit, hbudget.limit ▸ hbudget.within⟩
  · have hmove := step_moves settings s e
    obtain ⟨hflow, hnamed, hbudget⟩ := hs
    refine ⟨hflow.moves hmove, hnamed.moves hmove, hbudget.moves hflow hnamed hmove ?_⟩
    rintro i rfl task htask
    exact ⟨i, he, htask⟩

/-- One queue and one worker with room for two tasks. -/
def retryingDeployment : Deployment :=
  { sessions := [{ sessionID := "s", queues := ["q"], concurrency := 2
                   weights := (∅ : GoMap String Int32).insert "q" 1 }] }

/-- A task with one retry fails, fails again, and ends in the archive. -/
def failedTwice : List Event :=
  [.broker { now := 1, call := .enqueue { id := "t", queue := "q", options := { maxRetry := 1 } } },
   .tellGateway "gateway-s" .postStart, .gateway 0 { now := 1 },
   .grain 0 { now := 1, newID := "L1" }, .pipe 0 1 {}, .grain 0 { now := 1, newID := "L2" },
   .gateway 0 { now := 1 }, .answer 0 (.result .retry "boom"), .gateway 0 { now := 2 },
   .resume "gateway-s" { now := 2 } {}, .pipe 0 3 {}, .grain 1 { now := 3, newID := "L3" },
   .gateway 0 { now := 3 }, .answer 1 (.result .retry "boom"), .gateway 0 { now := 4 },
   .resume "gateway-s" { now := 4 } {}]

theorem retried_le_maxRetry_failedTwice :
    ∃ row, (run (System.step defaultSettings) (System.start retryingDeployment) failedTwice).broker.tasks.lookup "t" =
      some row ∧ (row.state, row.retried, row.envelope.retried) = (.archived, 1, 0) ∧ row.retried ≤ row.maxRetry := by
  have hchecked : ((run (System.step defaultSettings) (System.start retryingDeployment) failedTwice).broker.tasks.lookup
      "t").any (fun row => decide ((row.state, row.retried, row.envelope.retried) = (.archived, 1, 0) ∧
      row.envelope.retried ≤ row.envelope.options.maxRetry)) = true := by decide +kernel
  obtain ⟨row, hrow, hrow'⟩ := (Option.any_eq_true _ _).mp hchecked
  obtain ⟨hstate, hwithin⟩ := of_decide_eq_true hrow'
  exact ⟨row, hrow, hstate, (retried_le_maxRetry defaultSettings retryingDeployment failedTwice "t" row hrow).2.2 hwithin⟩

end Conveyor
