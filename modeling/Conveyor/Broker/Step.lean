import Conveyor.Broker.Call
import Mathlib.Logic.Relation

/-!
# What an operation can do to the store

Every operation is a sequence of elementary steps, each of which creates, changes or removes one
row, or clears one waiting record. `StoreStep` lists them with the guards under which the code
takes them, and `exec_steps` says that nothing else happens. Invariants of the store are proved
against these steps, never against the operations themselves.
-/

namespace Conveyor

open Lib

/-- The row is active under the lease. -/
def TaskRow.HeldUnder (row : TaskRow) (leaseID : String) : Prop :=
  row.state = .active ∧ row.leaseID = leaseID

section States

variable {queue group : String} {now : Time} {row : TaskRow}

/-- `Lease` claims ready rows. -/
theorem leasable_state (h : Broker.leasable queue now row = true) : row.state = .pending ∨ row.state = .retry := by
  simp only [Broker.leasable, dispatchable, Bool.and_eq_true, Bool.or_eq_true, beq_iff_eq] at h
  exact h.1.1.2

/-- `LeaseGroup` claims members that wait for their group. -/
theorem groupLeasable_state (h : Broker.groupLeasable queue group row = true) : row.state = .aggregating := by
  simp only [Broker.groupLeasable, Bool.and_eq_true, beq_iff_eq] at h
  exact h.1.1

/-- Only active rows are reclaimed. -/
theorem reapable_state (h : reapable now row = true) : row.state = .active :=
  beq_iff_eq.mp (Bool.and_eq_true_iff.mp h).1

/-- Only scheduled rows become due. -/
theorem promotable_state (h : promotable now row = true) : row.state = .scheduled :=
  beq_iff_eq.mp (Bool.and_eq_true_iff.mp h).1

end States

/-- What a call can do to the stored row of task `t`, apart from its edges. -/
inductive RowChange (now : Time) (t : String) : Call → TaskRow → TaskRow → Prop where
  | leased {row : TaskRow} {queue : String} {limit : Int} {ttl : Duration} {leaseID : String}
      (h : Broker.leasable queue now row = true) :
      RowChange now t (.lease queue limit ttl leaseID) row (row.leased now ttl leaseID)
  | groupLeased {row : TaskRow} {queue group : String} {limit : Int} {ttl : Duration}
      {leaseID : String} (h : Broker.groupLeasable queue group row = true) :
      RowChange now t (.leaseGroup queue group limit ttl leaseID) row (row.leased now ttl leaseID)
  | extended {row : TaskRow} {leaseID : String} {ttl : Duration} (h : row.HeldUnder leaseID) :
      RowChange now t (.extendLease t leaseID ttl) row (row.extended now ttl)
  | progressed {row : TaskRow} {leaseID : String} {percent : UInt32} {message : String}
      (h : row.HeldUnder leaseID) :
      RowChange now t (.setProgress t leaseID percent message) row (row.progressed percent message)
  | acked {row : TaskRow} {leaseID : String} (h : row.HeldUnder leaseID) :
      RowChange now t (.ack t leaseID) row (row.acked now)
  | batchAcked {row : TaskRow} {leaseID : String} {items : List AckItem}
      (hitem : ⟨t, leaseID⟩ ∈ items) (h : row.HeldUnder leaseID) :
      RowChange now t (.ackBatch items) row (row.acked now)
  | failed {row : TaskRow} {leaseID errMsg : String} {processAt : Time}
      (h : row.HeldUnder leaseID) :
      RowChange now t (.fail t leaseID errMsg processAt) row (row.failed errMsg processAt)
  | released {row : TaskRow} {leaseID : String} (h : row.HeldUnder leaseID) :
      RowChange now t (.release t leaseID) row (row.released now)
  | archived {row : TaskRow} {leaseID errMsg : String} (hlease : leaseID ≠ "")
      (h : row.HeldUnder leaseID) :
      RowChange now t (.archive t leaseID errMsg) row (row.archivedWith errMsg now)
  | discarded {row : TaskRow} {errMsg : String} (h : row.state ≠ .completed) :
      RowChange now t (.archive t "" errMsg) row (row.archivedWith errMsg now)
  | reaped {row : TaskRow} {limit : Int} (h : reapable now row = true) :
      RowChange now t (.reapExpiredLeases limit) row (row.reaped now)
  | due {row : TaskRow} {limit : Int} (h : promotable now row = true) :
      RowChange now t (.promoteScheduled limit) row row.due
  | expiredOut {row : TaskRow} {limit : Int} (h : archivable now row = true) :
      RowChange now t (.archiveExpired limit) row (row.expiredOut now)
  | promoted {row : TaskRow} {call : Call} (hcall : call.resolves = true)
      (hstate : row.state = .blocked) (hdeps : row.deps.keys = []) :
      RowChange now t call row (row.promoted now)
  | unclaimed {row : TaskRow} {archiveRetention : Duration} {limit : Int}
      (h : claimLapsed now row = true) :
      RowChange now t (.purgeTerminal archiveRetention limit) row row.unclaimed
  | canceled {row : TaskRow} (h : cancelable row.state = true) : RowChange now t (.cancelTask t) row (row.canceled now)
  | ranNow {row : TaskRow} (h : runnable row.state = true) : RowChange now t (.runTaskNow t) row (row.ranNow now)
  | rescheduled {row : TaskRow} {processAt : Time} (h : reschedulable row.state = true) :
      RowChange now t (.rescheduleTask t processAt) row (row.rescheduled processAt now)
  | deadLettered {row : TaskRow} (h : deadLetterable row.state = true) :
      RowChange now t (.archiveTask t) row (row.deadLettered now)

/-- The dependent is recorded as waiting on `f` under a cascade-cancel edge. -/
def Broker.CascadeEdge (b : Broker) (f d : String) : Prop :=
  d ∈ b.waiters f ∧ ∃ row, b.tasks.lookup d = some row ∧ row.deps.lookup f = some .cascadeCancel

/-- The tasks a resolving call can cancel: those reached over cascade-cancel edges from a failed task
it starts from. -/
inductive CascadeReached (b : Broker) (seeds : List String) : String → Prop where
  | seed {f d : String} {failed : TaskRow} (hseed : f ∈ seeds) (hrow : b.tasks.lookup f = some failed)
      (hfailed : failedDependency failed.state = true) (hedge : b.CascadeEdge f d) :
      CascadeReached b seeds d
  | next {f d : String} (hf : CascadeReached b seeds f) (hedge : b.CascadeEdge f d) : CascadeReached b seeds d

/-- One elementary step of a call that started in the store `base` and resolves the tasks `seeds`. -/
inductive StoreStep (now : Time) (call : Call) (seeds : List String) (base : Broker) :
    Broker → Broker → Prop where
  | create {b : Broker} {task : TaskEnvelope} (hcall : task ∈ call.enqueued)
      (hfresh : b.tasks.lookup task.id = none)
      (hkey : task.options.uniqueKey ≠ "" → b.uniqueKeyClaimed task.options.uniqueKey now = false) :
      StoreStep now call seeds base b (b.applyStaged (base.stagedTask task now) now)
  | change {b : Broker} {t : String} {row row' : TaskRow} (hrow : b.tasks.lookup t = some row)
      (hchange : RowChange now t call row row') :
      StoreStep now call seeds base b (b.transition t row row' now)
  | satisfy {b : Broker} {f d : String} {finished row : TaskRow} {policy : DependencyFailurePolicy}
      (hcall : call.resolves = true) (hfinished : b.tasks.lookup f = some finished)
      (hterminal : terminal finished.state = true) (hwaits : d ∈ b.waiters f)
      (hrow : b.tasks.lookup d = some row) (hedge : row.deps.lookup f = some policy)
      (hpolicy : failedDependency finished.state = true → policy ≠ .block ∧ policy ≠ .cascadeCancel) :
      StoreStep now call seeds base b ((b.setRow d (row.satisfied f)).removeDependent f d)
  | cascade {b : Broker} {f d : String} {finished row : TaskRow} {edges : List String}
      (hcall : call.resolves = true) (hfinished : b.tasks.lookup f = some finished)
      (hfailed : failedDependency finished.state = true) (hreached : CascadeReached base seeds d)
      (hrow : b.tasks.lookup d = some row) (hedge : row.deps.lookup f = some .cascadeCancel)
      (hedges : ∀ k, k ∈ edges ↔ k ∈ row.deps) :
      StoreStep now call seeds base b
        ((b.removeDependents edges d).transition d row (row.cascaded now) now)
  | unindex {b : Broker} {f d : String}
      (hstale : ∀ row, b.tasks.lookup d = some row → row.deps.lookup f = none ∨ incomplete row.state = false) :
      StoreStep now call seeds base b (b.removeDependent f d)
  | delete {b : Broker} {t : String} {row : TaskRow} (hcall : call = .deleteTask t)
      (hrow : b.tasks.lookup t = some row) (hwaiting : b.hasWaitingDependents t = false)
      (hstate : row.state ≠ .active) :
      StoreStep now call seeds base b
        { b.removeDependents row.deps.keys t with
          tasks := (b.removeDependents row.deps.keys t).tasks.erase t }
  | purge {b : Broker} {t : String} {row : TaskRow} {archiveRetention : Duration} {limit : Int}
      (hcall : call = .purgeTerminal archiveRetention limit) (hrow : b.tasks.lookup t = some row)
      (hdependents : b.hasDependents t = false)
      (hpurgeable : purgeable row now archiveRetention = true) :
      StoreStep now call seeds base b { b with tasks := b.tasks.erase t }
  | settings {b b' : Broker} (htasks : b'.tasks = b.tasks) (hdependents : b'.dependents = b.dependents)
      (hevents : b'.events = b.events) : StoreStep now call seeds base b b'

/-- Several elementary steps of one call. -/
abbrev StoreSteps (now : Time) (call : Call) (seeds : List String) (base : Broker) :
    Broker → Broker → Prop :=
  Relation.ReflTransGen (StoreStep now call seeds base)

/-- At most one elementary step of a call. -/
abbrev StoreStepOrNone (now : Time) (call : Call) (seeds : List String) (base : Broker) :
    Broker → Broker → Prop :=
  Relation.ReflGen (StoreStep now call seeds base)

/-- What one elementary step from the store `b` can do to the row of task `t`. -/
inductive RowStep (now : Time) (call : Call) (seeds : List String) (base b : Broker)
    (t : String) :
    Option TaskRow → Option TaskRow → Prop where
  | same {stored : Option TaskRow} : RowStep now call seeds base b t stored stored
  | created {task : TaskEnvelope} (hcall : task ∈ call.enqueued) (hid : task.id = t)
      (hkey : task.options.uniqueKey ≠ "" → b.uniqueKeyClaimed task.options.uniqueKey now = false) :
      RowStep now call seeds base b t none (some (base.stagedTask task now).row)
  | changed {row row' : TaskRow} (h : RowChange now t call row row') :
      RowStep now call seeds base b t (some row) (some row')
  | satisfied {f : String} {finished row : TaskRow} {policy : DependencyFailurePolicy}
      (hcall : call.resolves = true) (hfinished : b.tasks.lookup f = some finished)
      (hterminal : terminal finished.state = true) (hedge : row.deps.lookup f = some policy)
      (hpolicy : failedDependency finished.state = true → policy ≠ .block ∧ policy ≠ .cascadeCancel) :
      RowStep now call seeds base b t (some row) (some (row.satisfied f))
  | cascaded {f : String} {finished row : TaskRow} (hcall : call.resolves = true)
      (hfinished : b.tasks.lookup f = some finished)
      (hfailed : failedDependency finished.state = true) (hreached : CascadeReached base seeds t)
      (hedge : row.deps.lookup f = some .cascadeCancel) :
      RowStep now call seeds base b t (some row) (some (row.cascaded now))
  | deleted {row : TaskRow} (hcall : call = .deleteTask t)
      (hwaiting : b.hasWaitingDependents t = false) (hstate : row.state ≠ .active) :
      RowStep now call seeds base b t (some row) none
  | purged {row : TaskRow} {archiveRetention : Duration} {limit : Int}
      (hcall : call = .purgeTerminal archiveRetention limit) (hdependents : b.hasDependents t = false)
      (hpurgeable : purgeable row now archiveRetention = true) :
      RowStep now call seeds base b t (some row) none

variable {now : Time} {call : Call} {seeds : List String} {b : Broker}

/-- An elementary step touches the row of at most one task. -/
theorem StoreStep.frame {base b' : Broker} (h : StoreStep now call seeds base b b') :
    ∃ t stored stored', b.tasks.lookup t = stored ∧ RowStep now call seeds base b t stored stored' ∧
      ∀ t', b'.tasks.lookup t' = if t' = t then stored' else b.tasks.lookup t' := by
  have hsame : ∀ t', b.tasks.lookup t' = if t' = "" then b.tasks.lookup "" else b.tasks.lookup t' := by
    intro t'
    split_ifs with heq
    · rw [heq]
    · rfl
  cases h with
  | @create task hcall hfresh hkey =>
    refine ⟨task.id, _, _, hfresh, .created hcall rfl hkey, fun t' => ?_⟩
    rw [Broker.applyStaged_tasks]
    exact GoMap.lookup_insert_eq_ite ..
  | @change t row row' hrow hchange =>
    refine ⟨t, _, _, hrow, .changed hchange, fun t' => ?_⟩
    rw [Broker.transition_tasks, GoMap.lookup_insert_eq_ite]
  | @satisfy f d finished row policy hcall hfinished hterminal hwaits hrow hedge hpolicy =>
    refine ⟨d, _, _, hrow, .satisfied hcall hfinished hterminal hedge hpolicy, fun t' => ?_⟩
    rw [Broker.removeDependent_tasks, Broker.setRow_tasks, GoMap.lookup_insert_eq_ite]
  | @cascade f d finished row edges hcall hfinished hfailed hreached hrow hedge hedges =>
    refine ⟨d, _, _, hrow, .cascaded hcall hfinished hfailed hreached hedge, fun t' => ?_⟩
    rw [Broker.transition_tasks, Broker.removeDependents_tasks, GoMap.lookup_insert_eq_ite]
  | unindex hstale => exact ⟨"", _, _, rfl, .same, by simpa only [Broker.removeDependent_tasks] using hsame⟩
  | @delete t row hcall hrow hwaiting hstate =>
    refine ⟨t, _, _, hrow, .deleted hcall hwaiting hstate, fun t' => ?_⟩
    rw [Broker.removeDependents_tasks, GoMap.lookup_erase_eq_ite]
  | @purge t row archiveRetention limit hcall hrow hdependents hpurgeable =>
    exact ⟨t, _, _, hrow, .purged hcall hdependents hpurgeable, fun t' => GoMap.lookup_erase_eq_ite ..⟩
  | settings htasks hdependents hevents => exact ⟨"", _, _, rfl, .same, by simpa only [htasks] using hsame⟩

/-- An elementary step read at one task id. -/
theorem StoreStep.row {base b' : Broker} (h : StoreStep now call seeds base b b') (t : String) :
    RowStep now call seeds base b t (b.tasks.lookup t) (b'.tasks.lookup t) := by
  obtain ⟨t', _, stored', rfl, hstep, hlookup⟩ := h.frame
  rw [hlookup]
  split_ifs with heq
  · rw [heq]
    exact hstep
  · exact .same

variable {t : String} {row : TaskRow}

/-- No change touches the committed envelope. -/
theorem RowChange.envelope {row' : TaskRow} (h : RowChange now t call row row') : row'.envelope = row.envelope := by
  cases h with
  | reaped h =>
    rw [TaskRow.reaped]
    split <;> rfl
  | _ => rfl

/-- Among the row changes, a resolving call only promotes. -/
theorem RowChange.of_resolves {row' : TaskRow} (h : RowChange now t call row row') (hcall : call.resolves = true) :
    row.state = .blocked ∧ row.deps.keys = [] ∧ row' = row.promoted now := by
  cases h with
  | promoted _ hstate hdeps => exact ⟨hstate, hdeps, rfl⟩
  | _ => cases hcall

/-- A call that changes a stored row commits no task. -/
theorem RowChange.enqueued_nil {row' : TaskRow} (h : RowChange now t call row row') : call.enqueued = [] := by
  cases h with
  | promoted hcall hstate hdeps => cases call <;> first | rfl | cases hcall
  | _ => rfl

/-- A resolving call commits no task. -/
theorem Call.enqueued_nil_of_resolves (h : call.resolves = true) : call.enqueued = [] := by
  cases call <;> first | rfl | cases h

section Steps

variable {now : Time} {call : Call} {seeds : List String} {base : Broker}

/-- A change of one row is a sequence of one step. -/
theorem StoreSteps.change {row' : TaskRow} (hrow : b.tasks.lookup t = some row)
    (hchange : RowChange now t call row row') : StoreSteps now call seeds base b (b.transition t row row' now) :=
  .single (.change hrow hchange)

variable {order : MapOrder String} {test : TaskRow → Bool}

/-- The selected rows are stored, pass the test, and have distinct ids. -/
theorem mem_rowsWhere {entry : String × TaskRow} :
    entry ∈ b.rowsWhere order test ↔ b.tasks.lookup entry.1 = some entry.2 ∧ test entry.2 = true := by
  simp only [Broker.rowsWhere, List.mem_filterMap, MapOrder.mem_visit]
  constructor
  · rintro ⟨id, -, hid⟩
    cases hrow : b.tasks.lookup id with
    | none => simp [hrow] at hid
    | some row =>
      simp only [hrow, Option.ite_none_right_eq_some, Option.some.injEq] at hid
      obtain ⟨htest, rfl⟩ := hid
      exact ⟨hrow, htest⟩
  · rintro ⟨hrow, htest⟩
    exact ⟨entry.1, GoMap.mem_of_lookup hrow, by simp [hrow, htest]⟩

/-- No row is selected twice. -/
theorem rowsWhere_nodup (b : Broker) (order : MapOrder String) (test : TaskRow → Bool) :
    ((b.rowsWhere order test).map Prod.fst).Nodup := by
  have hsublist : ((b.rowsWhere order test).map Prod.fst).Sublist (order.visit b.tasks) := by
    rw [Broker.rowsWhere]
    induction order.visit b.tasks with
    | nil => exact List.Sublist.refl _
    | cons id rest ih =>
      rw [List.filterMap_cons]
      cases hrow : b.tasks.lookup id with
      | none => exact ih.cons id
      | some row =>
        by_cases htest : test row = true
        · simpa [htest] using ih
        · simpa [htest] using ih.cons id
  exact hsublist.nodup (order.nodup_visit b.tasks)

variable {ttl : Duration} {leaseID : String}

/-- Claiming distinct stored rows is a sequence of leases. -/
theorem claim_steps (chosen : List (String × TaskRow))
    (b : Broker) (hnodup : (chosen.map Prod.fst).Nodup)
    (hchosen : ∀ entry ∈ chosen, b.tasks.lookup entry.1 = some entry.2 ∧
      RowChange now entry.1 call entry.2 (entry.2.leased now ttl leaseID)) :
    StoreSteps now call seeds base b (b.claim now ttl leaseID chosen) := by
  induction chosen generalizing b with
  | nil => exact .refl
  | cons entry rest ih =>
    obtain ⟨hrow, hchange⟩ := hchosen entry (.head _)
    rw [List.map_cons, List.nodup_cons] at hnodup
    refine (StoreSteps.change hrow hchange).trans (ih _ hnodup.2 ?_)
    intro other hother
    have hne : other.1 ≠ entry.1 := fun heq => hnodup.1 (heq ▸ List.mem_map_of_mem hother)
    obtain ⟨horow, hochange⟩ := hchosen other (.tail entry hother)
    refine ⟨?_, hochange⟩
    rw [Broker.transition_tasks, AList.lookup_insert_ne hne]
    exact horow

/-- The rows `claimSorted` leases: stored, passing the test, with distinct ids. -/
theorem sorted_chosen (b : Broker) (order : MapOrder String) (test : TaskRow → Bool)
    (cmp : TaskRow → TaskRow → Int) (n : Nat) :
    let chosen := (sortFunc (fun x y : String × TaskRow => cmp x.2 y.2)
      (b.rowsWhere order test)).take n
    (chosen.map Prod.fst).Nodup ∧ ∀ entry ∈ chosen, b.tasks.lookup entry.1 = some entry.2 ∧ test entry.2 = true := by
  intro chosen
  have hsub : chosen.Sublist (sortFunc (fun x y : String × TaskRow => cmp x.2 y.2)
      (b.rowsWhere order test)) := List.take_sublist _ _
  constructor
  · have hperm := (sortFunc_perm (fun x y : String × TaskRow => cmp x.2 y.2)
      (b.rowsWhere order test)).map Prod.fst
    exact (hsub.map Prod.fst).nodup (hperm.nodup_iff.mpr (rowsWhere_nodup b order test))
  · intro entry hentry
    exact mem_rowsWhere.mp ((mem_sortFunc _ _ entry).mp (hsub.subset hentry))

variable {limit : Int}

/-- A sorted claim is a sequence of leases. -/
theorem claimSorted_steps {cmp : TaskRow → TaskRow → Int} (b : Broker)
    (hchange : ∀ t row, test row = true → RowChange now t call row (row.leased now ttl leaseID)) :
    StoreSteps now call seeds base b (b.claimSorted now order test cmp limit ttl leaseID).1 := by
  rw [Broker.claimSorted]
  split
  · exact .refl
  · obtain ⟨hnodup, hchosen⟩ := sorted_chosen b order test cmp limit.toNat
    exact claim_steps _ b hnodup fun entry hentry =>
      ⟨(hchosen entry hentry).1, hchange _ _ (hchosen entry hentry).2⟩

variable {update : TaskRow → TaskRow}

/-- A lease-scoped operation changes at most the named row, while it is held under the lease. -/
theorem settle_step {taskID : String} (b : Broker)
    (hchange : ∀ row, row.HeldUnder leaseID → RowChange now taskID call row (update row)) :
    StoreStepOrNone now call seeds base b (b.outcome (b.settle now taskID leaseID update)).1 := by
  rw [Broker.settle]
  cases hactive : b.activeRow taskID leaseID with
  | error e => exact .refl
  | ok row =>
    obtain ⟨hrow, hheld⟩ := (Broker.activeRow_eq_ok_iff b taskID leaseID row).mp hactive
    exact .single (.change hrow (hchange row hheld))

/-- A batched acknowledgement completes tasks held under the leases its items name. -/
theorem ackBatch_steps {all : List AckItem} (items : List AckItem) (b : Broker) (hitems : ∀ item ∈ items, item ∈ all) :
    StoreSteps now (.ackBatch all) seeds base b (b.ackBatch now items).1 := by
  induction items generalizing b with
  | nil => exact .refl
  | cons item rest ih =>
    have hrest := fun other hother => hitems other (.tail item hother)
    rw [Broker.ackBatch]
    cases hack : b.ack now item.taskID item.leaseID with
    | error e => exact ih b hrest
    | ok b' =>
      have hstep : StoreSteps now (.ackBatch all) seeds base b
          (b.outcome (b.ack now item.taskID item.leaseID)).1 :=
        (settle_step b fun row hheld =>
          .batchAcked (hitems item (.head _)) hheld).to_reflTransGen
      rw [hack] at hstep
      exact hstep.trans (ih b' hrest)

/-- A lease-scoped or lease-less archive changes at most the named row. -/
theorem archive_step (b : Broker) (taskID leaseID errMsg : String) :
    StoreStepOrNone now (.archive taskID leaseID errMsg) seeds base b
      (b.outcome (b.archive now taskID leaseID errMsg)).1 := by
  rw [Broker.archive]
  split
  · rename_i hlease
    exact settle_step b fun row hheld => .archived hlease hheld
  · rename_i hlease
    cases not_not.mp hlease
    cases hrow : b.tasks.lookup taskID with
    | none => exact .refl
    | some row =>
      dsimp only
      split
      · exact .refl
      · rename_i hstate
        exact .single (.change hrow (.discarded hstate))

variable {id : String}

/-- An admin move changes at most the named row, in a state that allows the move. -/
theorem moveTask_step {allowed : TaskState → Bool}
    (b : Broker) (hchange : ∀ row, allowed row.state = true → RowChange now id call row (update row)) :
    StoreStepOrNone now call seeds base b (b.outcome (b.moveTask now id allowed update)).1 := by
  rw [Broker.moveTask]
  cases hrow : b.tasks.lookup id with
  | none => exact .refl
  | some row =>
    dsimp only
    split_ifs with hallowed
    · exact .single (.change hrow (hchange row hallowed))
    · exact .refl

/-- Deleting a task removes its row and its waiting records, or does nothing. -/
theorem deleteTask_step (b : Broker) (id : String) :
    StoreStepOrNone now (.deleteTask id) seeds base b (b.outcome (b.deleteTask id)).1 := by
  rw [Broker.deleteTask]
  cases hrow : b.tasks.lookup id with
  | none => exact .refl
  | some row =>
    dsimp only
    split
    · exact .refl
    · split
      · exact .refl
      · rename_i hwaiting hstate
        exact .single (.delete rfl hrow (by simpa using hwaiting) hstate)

variable {eligible : TaskRow → Bool}

/-- A sweep only makes the change it is for. -/
theorem sweep_steps (hchange : ∀ t row, eligible row = true → RowChange now t call row (update row)) (ids : List String)
    (budget : Nat) (b : Broker) :
    StoreSteps now call seeds base b (Broker.sweep now eligible update ids budget b).1 := by
  induction ids generalizing budget b with
  | nil => exact .refl
  | cons id rest ih =>
    cases budget with
    | zero => exact .refl
    | succ left =>
      rw [Broker.sweep]
      cases hrow : b.tasks.lookup id with
      | none => exact ih (left + 1) b
      | some row =>
        dsimp only
        split_ifs with heligible
        · exact (StoreSteps.change hrow (hchange id row heligible)).trans (ih left _)
        · exact ih (left + 1) b

/-- A sweep over all rows only makes the change it is for. -/
theorem sweepTasks_steps {tasks : MapOrder String} (b : Broker)
    (hchange : ∀ t row, eligible row = true → RowChange now t call row (update row)) :
    StoreSteps now call seeds base b (b.sweepTasks now tasks eligible update limit).1 := by
  rw [Broker.sweepTasks]
  split
  · exact .refl
  · exact sweep_steps hchange _ _ b

/-- Promoting a ready row is a step of a resolving call. -/
theorem promoteIfReady_steps (hcall : call.resolves = true) (hrow : b.tasks.lookup id = some row) :
    StoreSteps now call seeds base b (b.promoteIfReady id row now).1 := by
  rw [Broker.promoteIfReady]
  split
  · exact .refl
  · rename_i hready
    rw [not_or, not_not, not_not] at hready
    exact StoreSteps.change hrow (.promoted hcall hready.1 hready.2)

end Steps

end Conveyor
