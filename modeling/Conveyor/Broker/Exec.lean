import Conveyor.Broker.Resolve

/-!
# Every operation is a sequence of elementary steps

The remaining operations are decomposed here, and `exec_steps` collects all of them. The second
half reads the elementary steps off at one task id: what the row of a task can become in one step.
-/

namespace Conveyor

open Lib

section Decomposition

variable {now : Time} {call : Call} {seeds : List String} {base : Broker}

/-- Clearing the stale waiting records of one dependency is a sequence of steps. -/
theorem dropStaleWaiters_steps (dependencyID : String) (ids : List String) (b : Broker) :
    StoreSteps now call seeds base b (b.dropStaleWaiters dependencyID ids) := by
  induction ids generalizing b with
  | nil => exact .refl
  | cons id rest ih =>
    rw [Broker.dropStaleWaiters]
    cases hrow : b.tasks.lookup id with
    | none => exact .head (.unindex (by simp [hrow])) (ih _)
    | some row =>
      dsimp only
      split
      · exact ih b
      · rename_i hincomplete
        refine .head (.unindex ?_) (ih _)
        intro row' hrow'
        cases hrow.symm.trans hrow'
        exact .inr (by simpa using hincomplete)

/-- Clearing all stale waiting records is a sequence of steps. -/
theorem dropTerminalDependentEdges_steps (b : Broker) :
    StoreSteps now call seeds base b b.dropTerminalDependentEdges := by
  rw [Broker.dropTerminalDependentEdges]
  generalize b.dependents.keys = ids
  induction ids generalizing b with
  | nil => exact .refl
  | cons id rest ih => exact (dropStaleWaiters_steps id _ b).trans (ih _)

/-- The purge loop is a sequence of steps. -/
theorem purge_steps {archiveRetention : Duration} {limit : Int} {budget : Nat} (ids : List String)
    (completed archived : Nat) (b : Broker) :
    StoreSteps now (.purgeTerminal archiveRetention limit) seeds base b
      (Broker.purge now archiveRetention budget ids completed archived b).1 := by
  induction ids generalizing completed archived b with
  | nil => exact .refl
  | cons id rest ih =>
    rw [Broker.purge]
    cases hrow : b.tasks.lookup id with
    | none => exact ih completed archived b
    | some stored =>
      dsimp only
      generalize hrow' : (if claimLapsed now stored = true then stored.unclaimed else stored) = row'
      generalize hb' : (if claimLapsed now stored = true then b.setRow id stored.unclaimed else b) = b'
      have hclaim : StoreSteps now (.purgeTerminal archiveRetention limit) seeds base b b' := by
        subst hb'
        split_ifs with hlapsed
        · rw [← Broker.transition_eq_setRow b id stored stored.unclaimed now rfl]
          exact StoreSteps.change hrow (.unclaimed hlapsed)
        · exact .refl
      have hstored : b'.tasks.lookup id = some row' := by
        subst hb' hrow'
        split
        · exact AList.lookup_insert _
        · exact hrow
      refine hclaim.trans ?_
      split
      · exact ih completed archived b'
      · rename_i hkeep
        simp only [Bool.or_eq_true, Bool.not_eq_true', not_or, Bool.not_eq_true, Bool.not_eq_false] at hkeep
        have hremove : StoreSteps now (.purgeTerminal archiveRetention limit) seeds base b'
            { b' with tasks := b'.tasks.erase id } := .single (.purge rfl hstored hkeep.1 hkeep.2)
        split
        · split
          · exact ih completed archived b'
          · exact hremove.trans (ih _ _ _)
        · split
          · exact ih completed archived b'
          · exact hremove.trans (ih _ _ _)

/-- Purging is a sequence of steps. -/
theorem purgeTerminal_steps (b : Broker) (tasks : MapOrder String) (archiveRetention : Duration)
    (limit : Int) :
    StoreSteps now (.purgeTerminal archiveRetention limit) seeds base b
      (b.purgeTerminal now tasks archiveRetention limit).1 := by
  rw [Broker.purgeTerminal]
  split
  · exact .refl
  · exact (dropTerminalDependentEdges_steps b).trans (purge_steps _ _ _ _)

/-- Applying the staged members of a batch is a sequence of creations. The rows added so far are
those whose ids and keys the batch has recorded. -/
theorem stageBatch_steps {batch : List TaskEnvelope} (tasks : List TaskEnvelope) (index : Nat)
    (batchIDs batchKeys : GoSet String) (staged : List StagedTask) (b : Broker)
    (htasks : ∀ task ∈ tasks, task ∈ batch)
    (hstaged : base.stageBatch now tasks index batchIDs batchKeys = .ok staged)
    (hadded : ∀ t row, b.tasks.lookup t = some row → base.tasks.lookup t = some row ∨
      (t ∈ batchIDs ∧ (row.uniqueKey = "" ∨ row.uniqueKey ∈ batchKeys))) :
    StoreSteps now (.enqueueBatch batch) seeds base b
      (staged.foldl (fun b entry => b.applyStaged entry now) b) := by
  induction tasks generalizing index batchIDs batchKeys staged b with
  | nil =>
    cases hstaged
    exact .refl
  | cons task rest ih =>
    have hrest := fun other hother => htasks other (.tail task hother)
    rw [Broker.stageBatch] at hstaged
    split at hstaged
    · cases hstaged
    · exact ih _ _ _ _ b hrest hstaged hadded
    · rename_i entry hentry
      dsimp only at hstaged
      split at hstaged
      · cases hstaged
      · rename_i later hlater
        cases hstaged
        obtain ⟨rfl, hid, hbatch, hkey⟩ := Broker.stageEnqueue_eq_some hentry
        have hfresh : b.tasks.lookup task.id = none := by
          by_contra hsome
          obtain ⟨row, hrow⟩ := Option.ne_none_iff_exists'.mp hsome
          rcases hadded task.id row hrow with hbase | ⟨hmem, -⟩
          · exact hid (GoMap.mem_of_lookup hbase)
          · exact hbatch hmem
        have hfree : task.options.uniqueKey ≠ "" →
            b.uniqueKeyClaimed task.options.uniqueKey now = false := by
          intro hne
          obtain ⟨hclaimed, hnotin⟩ := hkey hne
          by_contra hb
          obtain ⟨t, row, hrow, hholds⟩ := (Broker.uniqueKeyClaimed_iff b _ now).mp (by simpa using hb)
          rcases hadded t row hrow with hbase | ⟨-, hrowkey⟩
          · have hbaseclaimed := (Broker.uniqueKeyClaimed_iff base _ now).mpr ⟨t, row, hbase, hholds⟩
            rw [hclaimed] at hbaseclaimed
            cases hbaseclaimed
          · have heq : row.uniqueKey = task.options.uniqueKey := by
              simp only [holdsClaim, Bool.and_eq_true, beq_iff_eq] at hholds
              exact hholds.1.1
            rcases hrowkey with hnil | hmem
            · exact hne (heq.symm.trans hnil)
            · exact hnotin (heq ▸ hmem)
        refine .head (.create (htasks task (.head _)) hfresh hfree)
          (ih _ _ _ _ _ hrest hlater ?_)
        intro t row hrow
        rw [Broker.applyStaged_tasks, GoMap.lookup_insert_eq_ite] at hrow
        split at hrow
        · rename_i heq
          cases hrow
          refine .inr ⟨AList.mem_insert _ |>.mpr (.inl heq), ?_⟩
          by_cases hnil : (base.stagedTask task now).row.uniqueKey = ""
          · exact .inl hnil
          · exact .inr (by simp [hnil])
        · rcases hadded t row hrow with hbase | ⟨hmem, hrowkey⟩
          · exact .inl hbase
          · refine .inr ⟨AList.mem_insert _ |>.mpr (.inr hmem), hrowkey.imp_right fun h => ?_⟩
            split
            · exact AList.mem_insert _ |>.mpr (.inr h)
            · exact h

/-- Enqueueing one task is at most one creation. -/
theorem enqueue_step (b : Broker) (task : TaskEnvelope) :
    StoreStepOrNone now (.enqueue task) seeds b b (b.outcome (b.enqueue now task)).1 := by
  rw [Broker.enqueue]
  split
  · exact .refl
  · exact .refl
  · rename_i staged hstaged
    obtain ⟨rfl, hid, -, hkey⟩ := Broker.stageEnqueue_eq_some hstaged
    exact .single (.create (by simp [Call.enqueued]) (AList.lookup_eq_none.mpr hid)
      fun hne => (hkey hne).1)

/-- Enqueueing a batch is a sequence of creations. -/
theorem enqueueBatch_steps (b : Broker) (tasks : List TaskEnvelope) :
    StoreSteps now (.enqueueBatch tasks) seeds b b (b.outcome (b.enqueueBatch now tasks)).1 := by
  rw [Broker.enqueueBatch]
  split
  · exact .refl
  · rename_i staged hstaged
    exact stageBatch_steps tasks 0 ∅ ∅ staged b (fun _ h => h) hstaged fun t row hrow => .inl hrow

end Decomposition

/-- The calls that name one task and touch at most its row. -/
def Call.single : Call → Bool
  | .enqueue _ | .extendLease .. | .setProgress .. | .ack .. | .fail .. | .release .. | .archive ..
  | .cancelTask _ | .deleteTask _ | .runTaskNow _ | .rescheduleTask .. | .archiveTask _ => true
  | _ => false

/-- An operation on one task is at most one elementary step. -/
theorem exec_step (b : Broker) (i : Invocation) (hsingle : i.call.single = true) :
    StoreStepOrNone i.now i.call (b.seeds i) b b (b.after i) := by
  rcases i with ⟨now, call, order⟩
  change StoreStepOrNone now call (b.seeds ⟨now, call, order⟩) b b (b.exec ⟨now, call, order⟩).1
  cases call with
  | enqueue task => exact enqueue_step b task
  | extendLease => exact settle_step b fun row h => .extended h
  | setProgress => exact settle_step b fun row h => .progressed h
  | ack => exact settle_step b fun row h => .acked h
  | fail => exact settle_step b fun row h => .failed h
  | release => exact settle_step b fun row h => .released h
  | archive taskID leaseID errMsg => exact archive_step b taskID leaseID errMsg
  | cancelTask id => exact moveTask_step b fun row h => .canceled h
  | deleteTask id => exact deleteTask_step b id
  | runTaskNow id => exact moveTask_step b fun row h => .ranNow h
  | rescheduleTask id processAt => exact moveTask_step b fun row h => .rescheduled h
  | archiveTask id => exact moveTask_step b fun row h => .deadLettered h
  | _ => cases hsingle

/-- Every operation is a sequence of elementary steps from the store it starts in. -/
theorem exec_steps (b : Broker) (i : Invocation) : StoreSteps i.now i.call (b.seeds i) b b (b.after i) := by
  by_cases hsingle : i.call.single = true
  · exact (exec_step b i hsingle).to_reflTransGen
  rcases i with ⟨now, call, order⟩
  change StoreSteps now call (b.seeds ⟨now, call, order⟩) b b (b.exec ⟨now, call, order⟩).1
  cases call with
  | enqueueBatch tasks => exact enqueueBatch_steps b tasks
  | lease => exact claimSorted_steps b fun t row h => .leased h
  | leaseGroup => exact claimSorted_steps b fun t row h => .groupLeased h
  | ackBatch items => exact ackBatch_steps items b fun _ h => h
  | reapExpiredLeases limit => exact sweepTasks_steps b fun t row h => .reaped h
  | promoteScheduled limit => exact sweepTasks_steps b fun t row h => .due h
  | resolveDependents taskID => exact resolveDependents_steps rfl b _ .refl (.head _)
  | promoteReadyDependents limit => exact promoteReadyDependents_steps rfl b _ _ _ _ limit
  | purgeTerminal archiveRetention limit => exact purgeTerminal_steps b _ archiveRetention limit
  | archiveExpired limit => exact sweepTasks_steps b fun t row h => .expiredOut h
  | setQueuePaused queue paused => exact .single (.settings rfl rfl rfl)
  | setQueueConcurrencyLimit => exact .single (.settings rfl rfl rfl)
  | deleteQueueConcurrencyLimit queue => exact .single (.settings rfl rfl rfl)
  | _ => exact absurd rfl hsingle

variable {b : Broker} {i : Invocation}

/-- What every elementary step preserves, every operation preserves. -/
theorem after_induction {P : Broker → Prop} (hstart : P b)
    (hstep : ∀ c c', StoreStep i.now i.call (b.seeds i) b c c' → P c → P c') : P (b.after i) := by
  have hsteps := exec_steps b i
  generalize b.after i = b' at hsteps ⊢
  induction hsteps with
  | refl => exact hstart
  | tail _ hlast ih => exact hstep _ _ hlast ih

/-- A task that appears in an operation was committed by it. -/
theorem after_created {t : String} {row : TaskRow}
    (hbefore : b.tasks.lookup t = none) (hafter : (b.after i).tasks.lookup t = some row) :
    ∃ task ∈ i.call.enqueued, task.id = t ∧ row = (b.stagedTask task i.now).row := by
  have hinv : (b.after i).tasks.lookup t = none ∨ ∃ task ∈ i.call.enqueued, task.id = t ∧
      (b.after i).tasks.lookup t = some (b.stagedTask task i.now).row := by
    apply after_induction (P := fun c => c.tasks.lookup t = none ∨ ∃ task ∈ i.call.enqueued,
      task.id = t ∧ c.tasks.lookup t = some (b.stagedTask task i.now).row) (.inl hbefore)
    intro c c' hstep hc
    have hrow := hstep.row t
    generalize hstored : c.tasks.lookup t = stored at hrow hc
    generalize hstored' : c'.tasks.lookup t = stored' at hrow ⊢
    cases hrow with
    | same => exact hc
    | created hcall hid hkey => exact .inr ⟨_, hcall, hid, rfl⟩
    | deleted => exact .inl rfl
    | purged => exact .inl rfl
    | changed hchange =>
      obtain ⟨task, htask, -⟩ := hc.resolve_left nofun
      rw [hchange.enqueued_nil] at htask
      cases htask
    | satisfied hcall =>
      obtain ⟨task, htask, -⟩ := hc.resolve_left nofun
      rw [Call.enqueued_nil_of_resolves hcall] at htask
      cases htask
    | cascaded hcall =>
      obtain ⟨task, htask, -⟩ := hc.resolve_left nofun
      rw [Call.enqueued_nil_of_resolves hcall] at htask
      cases htask
  obtain ⟨task, htask, hid, hlookup⟩ := hinv.resolve_left (by simp [hafter])
  exact ⟨task, htask, hid, Option.some.inj (hafter.symm.trans hlookup)⟩

/-- What every change of a single row preserves, every operation preserves of all rows. -/
theorem after_rows {P : String → TaskRow → Prop} (hstart : ∀ t row, b.tasks.lookup t = some row → P t row)
    (hcreated : ∀ task ∈ i.call.enqueued, P task.id (b.stagedTask task i.now).row)
    (hchanged : ∀ t row row', RowChange i.now t i.call row row' → P t row → P t row')
    (hsatisfied : ∀ t row f, P t row → P t (row.satisfied f))
    (hcascaded : ∀ t row, P t row → P t (row.cascaded i.now)) :
    ∀ t row, (b.after i).tasks.lookup t = some row → P t row := by
  refine after_induction (P := fun c => ∀ t row, c.tasks.lookup t = some row → P t row) hstart ?_
  intro c c' hstep hc t row' hrow'
  have hview := hstep.row t
  rw [hrow'] at hview
  generalize hstored : c.tasks.lookup t = stored at hview
  cases hview with
  | same => exact hc t row' hstored
  | created hcall hid => exact hid ▸ hcreated _ hcall
  | changed h => exact hchanged t _ row' h (hc t _ hstored)
  | satisfied => exact hsatisfied t _ _ (hc t _ hstored)
  | cascaded => exact hcascaded t _ (hc t _ hstored)

/-- Every row is stored under the id of its envelope. -/
def Broker.Keyed (b : Broker) : Prop :=
  ∀ t row, b.tasks.lookup t = some row → row.envelope.id = t

/-- Every operation keeps rows under the ids of their envelopes. -/
theorem after_keyed (hb : b.Keyed) (i : Invocation) : (b.after i).Keyed :=
  after_rows hb (fun _ _ => rfl) (fun _ _ _ h hrow => h.envelope ▸ hrow) (fun _ _ _ => id) (fun _ _ => id)

/-- Every run keeps rows under the ids of their envelopes. -/
theorem run_keyed (invocations : List Invocation) : (Broker.empty.run invocations).Keyed := by
  apply Broker.run_induction
  · intro t row hrow
    cases hrow
  · exact fun b i _ hb => after_keyed hb i

/-! ## The life cycle of a task -/

/-- What an operation may make of a task; no new state is a removed row. -/
def Call.moves (call : Call) (old : TaskState) (new : Option TaskState) : Bool :=
  let into (state : TaskState) := new == some state
  match call with
  | .lease .. => dispatchable old && into .active
  | .leaseGroup .. => old == .aggregating && into .active
  | .ack .. | .ackBatch _ => old == .active && into .completed
  | .fail .. => old == .active && into .retry
  | .release .. => old == .active && into .pending
  | .archive _ leaseID _ => (if leaseID = "" then old != .completed else old == .active) && into .archived
  | .reapExpiredLeases _ => old == .active && (into .retry || into .archived)
  | .promoteScheduled _ => old == .scheduled && into .pending
  | .archiveExpired _ => (dispatchable old || old == .scheduled || old == .blocked) && into .archived
  | .resolveDependents _ | .promoteReadyDependents _ =>
    into .canceled || old == .blocked && (into .aggregating || into .scheduled || into .pending)
  | .purgeTerminal .. => terminal old && new == none
  | .cancelTask _ => cancelable old && into .canceled
  | .deleteTask _ => old != .active && new == none
  | .runTaskNow _ => runnable old && into .pending
  | .rescheduleTask .. => reschedulable old && (into .scheduled || into .pending)
  | .archiveTask _ => deadLetterable old && into .archived
  | _ => false

/-- A state in which a task is enqueued. -/
def initiallyIn (state : TaskState) : Bool :=
  state == .canceled || state == .blocked || state == .aggregating || state == .scheduled || state == .pending

/-- A task stays as it is, is moved, or is one of those the operation enqueues and appears in an initial state. -/
def Call.Allows (call : Call) (t : String) (old new : Option TaskState) : Prop :=
  new = old ∨ match old with
    | none => t ∈ call.enqueued.map TaskEnvelope.id ∧ new.any initiallyIn = true
    | some state => call.moves state new = true

theorem Call.Allows.trans {call : Call} {t : String} {old mid new : Option TaskState} (h : call.Allows t old mid)
    (h' : call.Allows t mid new) : call.Allows t old new := by
  rcases h with rfl | h
  · exact h'
  rcases h' with rfl | h'
  · exact .inr h
  · exact .inr (by cases call <;> grind [Call.moves, Call.enqueued])

theorem RowStep.allows {now : Time} {call : Call} {seeds : List String} {base : Broker} {t : String}
    {stored stored' : Option TaskRow} (h : RowStep now call seeds base b t stored stored') :
    call.Allows t (stored.map TaskRow.state) (stored'.map TaskRow.state) := by
  cases h with
  | same | satisfied => exact .inl rfl
  | created hcall hid =>
    refine .inr ⟨List.mem_map.mpr ⟨_, hcall, hid⟩, ?_⟩
    simp only [Option.map_some, Option.any_some, Broker.stagedTask, Broker.initialRow, Broker.initialState]
    split_ifs <;> rfl
  | changed h =>
    cases h with
    | extended | progressed | unclaimed => exact .inl rfl
    | promoted hcall => exact .inr (by cases call <;> grind [Call.moves, Call.resolves, TaskRow.promoted])
    | reaped | rescheduled => exact .inr (by grind [Call.moves, reapable, TaskRow.reaped, TaskRow.rescheduled])
    | _ =>
      refine .inr ?_
      simp_all [Call.moves, Broker.leasable, Broker.groupLeasable, TaskRow.HeldUnder, promotable, archivable]
      rfl
  | cascaded hcall => exact .inr (by cases call <;> first | rfl | cases hcall)
  | deleted hcall _ hstate => exact .inr (by simpa [hcall, Call.moves] using hstate)
  | @purged row _ _ hcall _ h =>
    rw [hcall]
    cases hs : row.state <;> simp [purgeable, hs] at h <;> exact .inr (by rw [Option.map_some, hs]; rfl)

/-- No operation moves a task but along the state machine. -/
theorem after_allows (b : Broker) (i : Invocation) (t : String) :
    i.call.Allows t ((b.tasks.lookup t).map TaskRow.state) (((b.after i).tasks.lookup t).map TaskRow.state) :=
  after_induction (P := fun c => i.call.Allows t _ ((c.tasks.lookup t).map TaskRow.state)) (.inl rfl)
    fun _ _ hstep hc => hc.trans (hstep.row t).allows

end Conveyor
