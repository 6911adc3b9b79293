import Conveyor.Broker.Fencing

/-!
# Time limits of leased tasks

`Lease` refuses a row whose expiry has passed. `LeaseGroup` does not look at the expiry, and neither
looks at the deadline: it reaches the worker as the bound of the execution only. What is leased within
its limits is therefore a task whose deadline is covered by its expiry and that belongs to no group.
-/

namespace Conveyor

open Lib

/-- Neither the expiry nor the deadline of the task has passed. -/
def TaskEnvelope.WithinLimits (task : TaskEnvelope) (now : Time) : Prop :=
  (∀ expiresAt, task.options.expiresAt = some expiresAt → now < expiresAt) ∧
    ∀ deadline, task.options.deadline = some deadline → now < deadline

/-- The limits of the task are enforced by its expiry alone: the expiry is not the zero time, which
counts as none, a deadline comes with an expiry that is no later, and a grouped task has no limit. -/
structure TaskEnvelope.LimitsCovered (task : TaskEnvelope) : Prop where
  expiry : task.options.expiresAt ≠ some 0
  deadline : ∀ deadline, task.options.deadline = some deadline →
    ∃ expiresAt, task.options.expiresAt = some expiresAt ∧ expiresAt ≤ deadline
  grouped : task.options.group ≠ "" → task.options.expiresAt = none

variable {task : TaskEnvelope}

/-- A covered task without an expiry is within its limits at all times. -/
theorem TaskEnvelope.LimitsCovered.unlimited (h : task.LimitsCovered)
    (hnone : task.options.expiresAt = none) (now : Time) : task.WithinLimits now := by
  refine ⟨fun expiresAt hexpiry => ?_, fun deadline hdeadline => ?_⟩
  · rw [hnone] at hexpiry
    cases hexpiry
  · obtain ⟨expiresAt, hexpiry, -⟩ := h.deadline deadline hdeadline
    rw [hnone] at hexpiry
    cases hexpiry

/-- The limits on the row are those of its envelope, which are covered, and only grouped tasks
aggregate. -/
structure TaskRow.Limited (row : TaskRow) : Prop where
  covered : row.envelope.LimitsCovered
  expiry : row.expiresAt = row.envelope.options.expiresAt.getD 0
  group : row.group = row.envelope.options.group
  aggregating : row.state = .aggregating → row.group ≠ ""

variable {b : Broker}

section Limited

variable {now : Time} {call : Call} {t : String} {row row' : TaskRow}

/-- No change touches the expiry or the group, and only grouped tasks start to aggregate. -/
theorem RowChange.limits (h : RowChange now t call row row') :
    row'.expiresAt = row.expiresAt ∧ row'.group = row.group ∧
      (row'.state = .aggregating → row.state = .aggregating ∨ row.group ≠ "") := by
  cases h with
  | extended | progressed | unclaimed => exact ⟨rfl, rfl, .inl⟩
  | reaped =>
    rw [TaskRow.reaped]
    split <;> exact ⟨rfl, rfl, by rintro ⟨⟩⟩
  | rescheduled h =>
    refine ⟨rfl, rfl, fun hstate => ?_⟩
    simp only [TaskRow.rescheduled] at hstate
    split_ifs at hstate
  | promoted =>
    refine ⟨rfl, rfl, fun haggregating => .inr ?_⟩
    simp only [TaskRow.promoted] at haggregating
    split_ifs at haggregating
    assumption
  | _ => exact ⟨rfl, rfl, by rintro ⟨⟩⟩

/-- A change keeps the limits of a row. -/
theorem TaskRow.Limited.change (h : row.Limited) (hchange : RowChange now t call row row') : row'.Limited := by
  obtain ⟨hexpiry, hgroup, haggregating⟩ := hchange.limits
  refine ⟨?_, ?_, ?_, fun hstate => ?_⟩
  · exact hchange.envelope ▸ h.covered
  · rw [hexpiry, hchange.envelope, h.expiry]
  · rw [hgroup, hchange.envelope, h.group]
  · rw [hgroup]
    exact (haggregating hstate).elim h.aggregating id

/-- The limits of a row committed for a covered task. -/
theorem stagedTask_limited (base : Broker) (h : task.LimitsCovered) : (base.stagedTask task now).row.Limited := by
  refine ⟨h, rfl, rfl, fun hstate => ?_⟩
  have hinitial : Broker.initialState task.options.group (task.options.processAt.getD now) now
      (base.resolveInitialDeps task.id task.options.dependsOn).1
      (base.resolveInitialDeps task.id task.options.dependsOn).2 = .aggregating := hstate
  rw [Broker.initialState] at hinitial
  split_ifs at hinitial
  assumption

/-- Every row has the limits of its covered envelope. -/
def Broker.Limited (b : Broker) : Prop := ∀ t row, b.tasks.lookup t = some row → row.Limited

/-- An operation that commits covered tasks only keeps the limits of every row. -/
theorem after_limited {i : Invocation} (h : b.Limited)
    (hcovered : ∀ task ∈ i.call.enqueued, task.LimitsCovered) : (b.after i).Limited := by
  refine after_rows h (fun task htask => stagedTask_limited b (hcovered task htask))
    (fun _ _ _ hchange hrow => hrow.change hchange) (fun _ _ _ hrow => ?_) (fun _ _ hrow => ?_)
  · exact ⟨hrow.covered, hrow.expiry, hrow.group, hrow.aggregating⟩
  · exact ⟨hrow.covered, hrow.expiry, hrow.group, nofun⟩

/-- A row `Lease` may claim is within its limits. -/
theorem TaskRow.Limited.leasable {queue : String} (h : row.Limited)
    (htest : Broker.leasable queue now row = true) : row.envelope.WithinLimits now := by
  simp only [Broker.leasable, Bool.and_eq_true, Bool.not_eq_true'] at htest
  have hfresh := htest.2
  cases hexpiry : row.envelope.options.expiresAt with
  | none => exact h.covered.unlimited hexpiry now
  | some expiresAt =>
    have hnonzero : expiresAt ≠ 0 := fun hzero => h.covered.expiry (hzero ▸ hexpiry)
    have hbefore : now < expiresAt := by
      simpa [expired, isZero, h.expiry, hexpiry, hnonzero] using hfresh
    refine ⟨fun _ hsome => ?_, fun deadline hdeadline => ?_⟩
    · cases hexpiry.symm.trans hsome
      exact hbefore
    · obtain ⟨_, hsome, hle⟩ := h.covered.deadline deadline hdeadline
      cases hexpiry.symm.trans hsome
      exact hbefore.trans_le hle

/-- A row `LeaseGroup` may claim has no limit. -/
theorem TaskRow.Limited.groupLeasable {queue group : String} (h : row.Limited)
    (htest : Broker.groupLeasable queue group row = true) : row.envelope.WithinLimits now := by
  have hgroup := h.aggregating (groupLeasable_state htest)
  rw [h.group] at hgroup
  exact h.covered.unlimited (h.covered.grouped hgroup) now

end Limited

/-- What a claim returns is within its limits when every row that passes its test is. -/
theorem claimSorted_withinLimits {now : Time} {order : MapOrder String} {test : TaskRow → Bool}
    {cmp : TaskRow → TaskRow → Int} {limit : Int} {ttl : Duration} {leaseID : String}
    (htest : ∀ t row, b.tasks.lookup t = some row → test row = true → row.envelope.WithinLimits now)
    (htask : task ∈ (b.claimSorted now order test cmp limit ttl leaseID).2) : task.WithinLimits now := by
  obtain ⟨t, row, hrow, hpass, rfl, -⟩ := claimSorted_reply htask
  exact htest t row hrow hpass

/-- An operation that may fail returns no tasks. -/
theorem Broker.outcome_ne_leased (b : Broker) (result : Except BrokerError Broker) (tasks : List TaskEnvelope) :
    (b.outcome result).2 ≠ .leased tasks := by
  cases result <;> nofun

/-- In a run that commits covered tasks only, every envelope a lease returns is within its limits. -/
theorem leased_within_limits (invocations : List Invocation) (i : Invocation)
    (hcovered : ∀ j ∈ invocations, ∀ task ∈ j.call.enqueued, task.LimitsCovered) {tasks : List TaskEnvelope}
    (hreply : ((Broker.empty.run invocations).exec i).2 = .leased tasks) : ∀ task ∈ tasks, task.WithinLimits i.now := by
  have hlimited : (Broker.empty.run invocations).Limited :=
    Broker.run_induction _ _ (fun t row hrow => nomatch hrow) fun b j hj hb =>
      after_limited hb (hcovered j hj)
  generalize Broker.empty.run invocations = b at hlimited hreply
  rcases i with ⟨now, call, order⟩
  intro task htask
  cases call with
  | lease =>
    cases hreply
    exact claimSorted_withinLimits (fun t row hrow htest => (hlimited t row hrow).leasable htest) htask
  | leaseGroup =>
    cases hreply
    exact claimSorted_withinLimits (fun t row hrow htest => (hlimited t row hrow).groupLeasable htest) htask
  | _ => first | cases hreply | exact absurd hreply (b.outcome_ne_leased _ tasks)

/-- A task with an expiry of ten and a deadline of twenty. -/
def limitedRun : List Invocation :=
  [⟨1, .enqueue { id := "t", queue := "q", options := { expiresAt := some 10, deadline := some 20 } }, {}⟩]

/-- The limits of the run's task are covered, and its lease at nine is within them. -/
theorem leased_within_limits_limitedRun : ∃ tasks,
    ((Broker.empty.run limitedRun).exec ⟨9, .lease "q" 1 60 "L", {}⟩).2 = .leased tasks ∧
      tasks.length = 1 ∧ ∀ task ∈ tasks, task.WithinLimits 9 := by
  refine ⟨_, rfl, by decide,
    leased_within_limits limitedRun ⟨9, .lease "q" 1 60 "L", {}⟩ (fun j hj task htask => ?_) rfl⟩
  obtain rfl := List.mem_singleton.mp hj
  obtain rfl := List.mem_singleton.mp htask
  refine ⟨by decide, fun deadline hdeadline => ?_, by decide⟩
  cases hdeadline
  exact ⟨10, rfl, by decide⟩

/-- `Lease` hands out a task whose deadline passed, and `LeaseGroup` a member whose expiry passed. -/
theorem leased_past_limits :
    (∃ task, ((Broker.empty.run
        [⟨1, .enqueue { id := "t", queue := "q", options := { deadline := some 5 } }, {}⟩]).exec
        ⟨10, .lease "q" 1 60 "L", {}⟩).2 = .leased [task] ∧ task.options.deadline = some 5) ∧
      ∃ task, ((Broker.empty.run
        [⟨1, .enqueue { id := "t", queue := "q", options := { group := "g", expiresAt := some 5 } }, {}⟩]).exec
        ⟨10, .leaseGroup "q" "g" 1 60 "L", {}⟩).2 = .leased [task] ∧ task.options.expiresAt = some 5 :=
  ⟨⟨_, rfl, rfl⟩, ⟨_, rfl, rfl⟩⟩

end Conveyor
