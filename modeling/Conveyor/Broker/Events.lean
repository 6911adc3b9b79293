import Conveyor.Broker.Terminal

/-!
# The event stream mirrors the store

Every operation delivers its events at the places where it changes rows. Read at one task, an
elementary step delivers exactly the event of the change it makes there, and no operation of several
steps moves a task twice; so what an operation delivers is determined by the rows before and after it.
-/

namespace Conveyor

open Lib

/-- The events due for one task whose row was `before` and is `after`: one if the row was created or
its state changed, and none if the state is the same or the row is gone. -/
def lifecycleEvents (now : Time) (t : String) (before after : Option TaskRow) : List TaskEvent :=
  match after with
  | none => []
  | some row =>
    if before.map TaskRow.state = some row.state then []
    else
      [{ id := t
         queue := row.envelope.queue
         type := row.envelope.type
         state := row.state
         eventType := classify ((before.map TaskRow.state).getD .unspecified) row.state
         occurredAt := now
         attempt := row.retried
         lastError := row.lastError }]

/-- The delivered events of one task. -/
def Broker.eventsOf (b : Broker) (t : String) : List TaskEvent :=
  b.events.filter fun event => event.id == t

/-- No stored row is in the state that stands for no state. -/
def Broker.Stated (b : Broker) : Prop :=
  ∀ t row, b.tasks.lookup t = some row → row.state ≠ .unspecified

variable {t : String} {before : Option TaskRow} {row : TaskRow}

section Delivery

variable {now : Time} {call : Call} {seeds : List String} {base b b' : Broker}

/-- Every state but the unspecified one has an event type. -/
theorem classify_ne_unspecified (old : TaskState) {new : TaskState} (h : new ≠ .unspecified) :
    classify old new ≠ .unspecified := by
  cases new with
  | unspecified => exact absurd rfl h
  | pending =>
    rw [classify]
    split <;> nofun
  | _ => nofun

/-- What a transition of an existing row delivers. -/
theorem transition_events (b : Broker) (t : String) {old new : TaskRow} (now : Time) (h : new.state ≠ .unspecified) :
    (b.transition t old new now).events = b.events ++ lifecycleEvents now t (some old) (some new) := by
  by_cases heq : old.state = new.state
  · rw [Broker.transition_eq_setRow _ _ _ _ _ heq]
    simp [lifecycleEvents, heq, Broker.setRow]
  · simp [Broker.transition, Broker.emit, derive, lifecycleEvents, heq, classify_ne_unspecified _ h, Broker.setRow]

/-- A task whose row did not move has no event due. -/
theorem lifecycleEvents_eq_nil (h : before.map TaskRow.state = some row.state) :
    lifecycleEvents now t before (some row) = [] :=
  if_pos h

/-- A task whose row is as it was has no event due. -/
@[simp] theorem lifecycleEvents_self (t : String) (stored : Option TaskRow) :
    lifecycleEvents now t stored stored = [] := by
  cases stored with
  | none => rfl
  | some row => exact lifecycleEvents_eq_nil rfl

/-- The events due for a task name it. -/
theorem lifecycleEvents_id {after : Option TaskRow} {event : TaskEvent}
    (h : event ∈ lifecycleEvents now t before after) : event.id = t := by
  cases after with
  | none => cases h
  | some row =>
    rw [lifecycleEvents] at h
    split at h
    · cases h
    · obtain rfl := List.mem_singleton.mp h
      rfl

/-- Clearing one record delivers nothing. -/
theorem removeDependent_events (b : Broker) (d t : String) : (b.removeDependent d t).events = b.events := by
  rw [Broker.removeDependent]
  split
  · rfl
  · dsimp only
    split <;> rfl

/-- Clearing records delivers nothing. -/
theorem removeDependents_events (edges : List String) (b : Broker) (t : String) :
    (b.removeDependents edges t).events = b.events := by
  induction edges generalizing b with
  | nil => rfl
  | cons edge rest ih =>
    rw [Broker.removeDependents, List.foldl_cons]
    exact (ih (b.removeDependent edge t)).trans (removeDependent_events b edge t)

/-- What committing a staged task delivers. -/
theorem applyStaged_events (b base : Broker) (task : TaskEnvelope) (now : Time)
    (h : (base.stagedTask task now).row.state ≠ .unspecified) :
    (b.applyStaged (base.stagedTask task now) now).events =
      b.events ++ lifecycleEvents now task.id none (some (base.stagedTask task now).row) := by
  have hlinked : ∀ (edges : List String) (c : Broker),
      (edges.foldl (fun b depID => b.addDependent depID task.id) c).events = c.events :=
    fun edges c => List.foldlRecOn (motive := fun b : Broker => b.events = c.events) edges _ rfl fun _ h _ _ => h
  have hkind := classify_ne_unspecified .unspecified h
  generalize hrow : (base.stagedTask task now).row = row at h hkind ⊢
  have hstate : (base.stagedTask task now).state = row.state := by rw [← hrow]; rfl
  have hid : (base.stagedTask task now).id = task.id := rfl
  simp [Broker.applyStaged, Broker.emit, derive, lifecycleEvents, hrow, hstate, hid, h.symm, hkind,
    Broker.setRow, hlinked]

/-- A step touches the row of one task and delivers what is due for it. -/
theorem StoreStep.subject (hstep : StoreStep now call seeds base b b') (hstated : b'.Stated) :
    ∃ t, b'.events = b.events ++ lifecycleEvents now t (b.tasks.lookup t) (b'.tasks.lookup t) ∧
      ∀ t', t' ≠ t → b'.tasks.lookup t' = b.tasks.lookup t' := by
  cases hstep with
  | @create task hcall hfresh hkey =>
    have hrow : (b.applyStaged (base.stagedTask task now) now).tasks.lookup task.id =
        some (base.stagedTask task now).row := by
      rw [Broker.applyStaged_tasks]
      exact AList.lookup_insert _
    refine ⟨task.id, ?_, fun t' hne => ?_⟩
    · rw [applyStaged_events _ _ _ _ (hstated _ _ hrow), hrow, hfresh]
    · rw [Broker.applyStaged_tasks]
      exact AList.lookup_insert_ne hne
  | @change t row row' hrow hchange =>
    have hrow' : (b.transition t row row' now).tasks.lookup t = some row' := by
      rw [Broker.transition_tasks, AList.lookup_insert]
    refine ⟨t, ?_, fun t' hne => ?_⟩
    · rw [transition_events _ _ _ (hstated _ _ hrow'), hrow', hrow]
    · rw [Broker.transition_tasks, AList.lookup_insert_ne hne]
  | @satisfy f d finished row policy hcall hfinished hterminal hwaits hrow hedge hpolicy =>
    refine ⟨d, ?_, fun t' hne => ?_⟩
    · rw [removeDependent_events, Broker.removeDependent_tasks, Broker.setRow_tasks,
        AList.lookup_insert, hrow, lifecycleEvents_eq_nil rfl, List.append_nil]
      rfl
    · rw [Broker.removeDependent_tasks, Broker.setRow_tasks, AList.lookup_insert_ne hne]
  | @cascade f d finished row edges hcall hfinished hfailed hreached hrow hedge hedges =>
    refine ⟨d, ?_, fun t' hne => ?_⟩
    · have hcanceled : (row.cascaded now).state ≠ .unspecified := nofun
      rw [transition_events _ _ _ hcanceled, removeDependents_events, Broker.transition_tasks,
        AList.lookup_insert, hrow]
    · rw [Broker.transition_tasks, AList.lookup_insert_ne hne, Broker.removeDependents_tasks]
  | @unindex f d hstale =>
    refine ⟨d, ?_, fun t' _ => ?_⟩
    · rw [removeDependent_events, Broker.removeDependent_tasks, lifecycleEvents_self, List.append_nil]
    · rw [Broker.removeDependent_tasks]
  | @delete t row hcall hrow hwaiting hstate =>
    refine ⟨t, ?_, fun t' hne => ?_⟩
    · rw [AList.lookup_erase]
      exact (removeDependents_events _ _ _).trans (List.append_nil _).symm
    · rw [AList.lookup_erase_ne hne, Broker.removeDependents_tasks]
  | @purge t row archiveRetention limit hcall hrow hdependents hpurgeable =>
    refine ⟨t, ?_, fun t' hne => AList.lookup_erase_ne hne⟩
    rw [AList.lookup_erase]
    exact (List.append_nil _).symm
  | settings htasks hdependents hevents =>
    refine ⟨"", ?_, fun t' _ => by rw [htasks]⟩
    rw [hevents, htasks, lifecycleEvents_self, List.append_nil]

/-- What one step delivers about one task. -/
theorem StoreStep.delivers (hstep : StoreStep now call seeds base b b') (hstated : b'.Stated) (t : String) :
    b'.eventsOf t = b.eventsOf t ++ lifecycleEvents now t (b.tasks.lookup t) (b'.tasks.lookup t) := by
  obtain ⟨subject, hevents, hothers⟩ := hstep.subject hstated
  rw [Broker.eventsOf, hevents, List.filter_append]
  congr 1
  rcases eq_or_ne t subject with rfl | heq
  · exact List.filter_eq_self.mpr fun event hevent => beq_iff_eq.mpr (lifecycleEvents_id hevent)
  · rw [hothers t heq, lifecycleEvents_self]
    refine List.filter_eq_nil_iff.mpr fun event hevent hid => heq ?_
    exact (beq_iff_eq.mp hid).symm.trans (lifecycleEvents_id hevent)

/-- What one step delivers comes after what was delivered before. -/
theorem StoreStep.events_append (hstep : StoreStep now call seeds base b b') (hstated : b'.Stated) :
    b.events <+: b'.events := by
  obtain ⟨t, hevents, -⟩ := hstep.subject hstated
  exact ⟨_, hevents.symm⟩

end Delivery

section States

variable {now : Time} {call : Call} {seeds : List String} {base b b' : Broker} {t : String}

/-- A change puts a row into a proper state. -/
theorem RowChange.stated {row' : TaskRow} (h : RowChange now t call row row')
    (hrow : row.state ≠ .unspecified) : row'.state ≠ .unspecified := by
  cases h with
  | extended | progressed | unclaimed => exact hrow
  | reaped =>
    rw [TaskRow.reaped]
    split <;> rintro ⟨⟩
  | rescheduled =>
    simp only [TaskRow.rescheduled]
    split <;> rintro ⟨⟩
  | promoted =>
    simp only [TaskRow.promoted]
    split_ifs <;> rintro ⟨⟩
  | _ => rintro ⟨⟩

/-- A step keeps every row in a proper state. -/
theorem StoreStep.stated (hstep : StoreStep now call seeds base b b') (h : b.Stated) : b'.Stated := by
  intro t row' hrow'
  have hview := hstep.row t
  rw [hrow'] at hview
  generalize hstored : b.tasks.lookup t = stored at hview
  cases hview with
  | same => exact h t row' hstored
  | @created task =>
    have hstate : (base.stagedTask task now).row.state = Broker.initialState task.options.group
      (task.options.processAt.getD now) now _ _ := rfl
    rw [hstate, Broker.initialState]
    split_ifs <;> rintro ⟨⟩
  | changed hchange => exact hchange.stated (h t _ hstored)
  | @satisfied _ _ row => exact h t row hstored
  | cascaded => rintro ⟨⟩

/-- No further step of the call changes the row. -/
def Fixed (now : Time) (call : Call) (seeds : List String) (base : Broker) (t : String)
    (stored : Option TaskRow) : Prop :=
  ∀ c stored', RowStep now call seeds base c t stored stored' → stored' = stored

/-- A resolving call is done with a row that is not blocked and has no edge. -/
theorem fixed_of_resolved (hcall : call.resolves = true) (hstate : row.state ≠ .blocked)
    (hdeps : row.deps.keys = []) : Fixed now call seeds base t (some row) := by
  have hnone : ∀ f policy, row.deps.lookup f ≠ some policy := fun f policy hedge => by
    rw [GoMap.lookup_eq_none_of_keys_nil hdeps] at hedge
    cases hedge
  intro c stored' hstep
  cases hstep with
  | same => rfl
  | satisfied _ _ _ hedge => exact absurd hedge (hnone _ _)
  | cascaded _ _ _ _ hedge => exact absurd hedge (hnone _ _)
  | deleted hdelete => rw [hdelete] at hcall; cases hcall
  | purged hpurge => rw [hpurge] at hcall; cases hcall
  | changed hchange =>
    cases hchange with
    | promoted _ hblocked => exact absurd hblocked hstate
    | _ => cases hcall

/-- A call that does not resolve is done with a row no change of it applies to. -/
theorem fixed_of_unchanged (hresolves : call.resolves = false) (hremoves : call.removes = false)
    (h : ∀ row', ¬ RowChange now t call row row') : Fixed now call seeds base t (some row) := by
  intro c stored' hstep
  cases hstep with
  | same => rfl
  | changed hchange => exact absurd hchange (h _)
  | satisfied hcall => rw [hresolves] at hcall; cases hcall
  | cascaded hcall => rw [hresolves] at hcall; cases hcall
  | deleted hdelete => rw [hdelete] at hremoves; cases hremoves
  | purged hpurge => rw [hpurge] at hremoves; cases hremoves

/-- A step that moves a row, of an operation on many tasks, is the last one on it. -/
theorem RowStep.fixed {stored stored' : Option TaskRow} (h : RowStep now call seeds base b t stored stored')
    (hsingle : call.single = false) (hmoved : stored.map TaskRow.state ≠ stored'.map TaskRow.state) :
    Fixed now call seeds base t stored' := by
  cases h with
  | same => exact absurd rfl hmoved
  | satisfied => exact absurd rfl hmoved
  | deleted hcall => rw [hcall] at hsingle; cases hsingle
  | cascaded hcall => exact fixed_of_resolved hcall (by rintro ⟨⟩) rfl
  | purged hcall =>
    intro c stored' hstep
    cases hstep with
    | same => rfl
    | created htask => rw [hcall] at htask; cases htask
  | created htask =>
    intro c stored' hstep
    have hnil := List.ne_nil_of_mem htask
    cases hstep with
    | same => rfl
    | changed hchange => exact absurd hchange.enqueued_nil hnil
    | satisfied hcall => exact absurd (Call.enqueued_nil_of_resolves hcall) hnil
    | cascaded hcall => exact absurd (Call.enqueued_nil_of_resolves hcall) hnil
    | deleted hcall => rw [hcall] at htask; cases htask
    | purged hcall => rw [hcall] at htask; cases htask
  | @changed row row' hchange =>
    cases hchange with
    -- the moved row no longer passes the test its call selects rows by
    | leased =>
      refine fixed_of_unchanged rfl rfl fun row' hagain => ?_
      cases hagain with
      | promoted hcall => cases hcall
      | leased htest => simp [Broker.leasable, dispatchable, TaskRow.leased] at htest
    | groupLeased =>
      refine fixed_of_unchanged rfl rfl fun row' hagain => ?_
      cases hagain with
      | promoted hcall => cases hcall
      | groupLeased htest => simp [Broker.groupLeasable, TaskRow.leased] at htest
    | batchAcked =>
      refine fixed_of_unchanged rfl rfl fun row' hagain => ?_
      cases hagain with
      | promoted hcall => cases hcall
      | batchAcked hitem hheld => cases hheld.1
    | reaped =>
      refine fixed_of_unchanged rfl rfl fun row' hagain => ?_
      have hinactive : (row.reaped now).state ≠ .active := by
        rw [TaskRow.reaped]
        split <;> rintro ⟨⟩
      cases hagain with
      | promoted hcall => cases hcall
      | reaped htest => simp [reapable, hinactive] at htest
    | due =>
      refine fixed_of_unchanged rfl rfl fun row' hagain => ?_
      cases hagain with
      | promoted hcall => cases hcall
      | due htest => simp [promotable, TaskRow.due] at htest
    | expiredOut =>
      refine fixed_of_unchanged rfl rfl fun row' hagain => ?_
      cases hagain with
      | promoted hcall => cases hcall
      | expiredOut htest => simp [archivable, dispatchable, TaskRow.expiredOut] at htest
    | promoted hcall hstate hdeps =>
      refine fixed_of_resolved hcall ?_ hdeps
      simp only [TaskRow.promoted]
      split_ifs <;> rintro ⟨⟩
    | unclaimed => exact absurd rfl hmoved
    | _ => cases hsingle

end States

section Operations

variable {b : Broker} {i : Invocation}

variable {now : Time}

/-- The events due for a task depend on the state its row was in, and on nothing else before. -/
theorem lifecycleEvents_congr {before' after : Option TaskRow}
    (h : before.map TaskRow.state = before'.map TaskRow.state) :
    lifecycleEvents now t before after = lifecycleEvents now t before' after := by
  cases after with
  | none => rfl
  | some row => rw [lifecycleEvents, lifecycleEvents, h]

/-- A task whose state is the same has no event due. -/
theorem lifecycleEvents_of_unmoved {after : Option TaskRow}
    (h : before.map TaskRow.state = after.map TaskRow.state) : lifecycleEvents now t before after = [] := by
  rw [lifecycleEvents_congr h, lifecycleEvents_self]

/-- What an operation on many tasks delivers about one of them. -/
theorem steps_deliver {c : Broker} (hstated : b.Stated) (hsingle : i.call.single = false)
    (hsteps : StoreSteps i.now i.call (b.seeds i) b b c) (t : String) :
    c.Stated ∧ c.eventsOf t =
        b.eventsOf t ++ lifecycleEvents i.now t (b.tasks.lookup t) (c.tasks.lookup t) ∧
      ((b.tasks.lookup t).map TaskRow.state ≠ (c.tasks.lookup t).map TaskRow.state →
        Fixed i.now i.call (b.seeds i) b t (c.tasks.lookup t)) := by
  induction hsteps with
  | refl => exact ⟨hstated, by rw [lifecycleEvents_self, List.append_nil], absurd rfl⟩
  | @tail c c' _ hlast ih =>
    obtain ⟨hstated, hevents, hfixed⟩ := ih
    have hstated' := hlast.stated hstated
    have hrow := hlast.row t
    have hdelivers := hlast.delivers hstated' t
    refine ⟨hstated', ?_, fun hmoved => ?_⟩
    · rw [hdelivers, hevents, List.append_assoc]
      congr 1
      by_cases hmoved : (b.tasks.lookup t).map TaskRow.state = (c.tasks.lookup t).map TaskRow.state
      · rw [lifecycleEvents_of_unmoved hmoved, lifecycleEvents_congr hmoved, List.nil_append]
      · -- the task moved before, so this step leaves it alone
        rw [hfixed hmoved _ _ hrow, lifecycleEvents_self, List.append_nil]
    · by_cases hbefore : (b.tasks.lookup t).map TaskRow.state = (c.tasks.lookup t).map TaskRow.state
      · exact hrow.fixed hsingle (hbefore ▸ hmoved)
      · rw [hfixed hbefore _ _ hrow]
        exact hfixed hbefore

/-- What an operation delivers about one task. -/
theorem after_delivers (hstated : b.Stated) (i : Invocation) (t : String) :
    (b.after i).eventsOf t = b.eventsOf t ++
      lifecycleEvents i.now t (b.tasks.lookup t) ((b.after i).tasks.lookup t) := by
  cases hsingle : i.call.single with
  | false => exact (steps_deliver hstated hsingle (exec_steps b i) t).2.1
  | true =>
    have hstep := exec_step b i hsingle
    generalize b.after i = b' at hstep ⊢
    cases hstep with
    | refl => rw [lifecycleEvents_self, List.append_nil]
    | single hstep => exact hstep.delivers (hstep.stated hstated) t

/-- Every operation keeps rows in proper states and delivers after what was delivered before. -/
theorem after_stated (hstated : b.Stated) (i : Invocation) : (b.after i).Stated ∧ b.events <+: (b.after i).events := by
  refine after_induction (P := fun c => c.Stated ∧ b.events <+: c.events) ⟨hstated, List.prefix_rfl⟩ ?_
  rintro c c' hstep ⟨hc, hprefix⟩
  have hc' := hstep.stated hc
  exact ⟨hc', hprefix.trans (hstep.events_append hc')⟩

end Operations

/-- The event stream mirrors the store: the events an operation of a run delivers are, for every task,
those due for the rows before and after it, and no others. -/
theorem events_mirror_store (invocations : List Invocation) (i : Invocation) :
    ∃ delivered, (Broker.empty.run (invocations ++ [i])).events =
        (Broker.empty.run invocations).events ++ delivered ∧
      ∀ t, (delivered.filter fun event => event.id == t) =
        lifecycleEvents i.now t ((Broker.empty.run invocations).tasks.lookup t)
          ((Broker.empty.run (invocations ++ [i])).tasks.lookup t) := by
  have hstated : (Broker.empty.run invocations).Stated :=
    Broker.run_induction _ _ (fun t row hrow => nomatch hrow) fun b i _ hb => (after_stated hb i).1
  rw [Broker.run_append]
  obtain ⟨delivered, hdelivered⟩ := (after_stated hstated i).2
  refine ⟨delivered, hdelivered.symm, fun t => ?_⟩
  have htask := after_delivers hstated i t
  rw [Broker.eventsOf, ← hdelivered, List.filter_append] at htask
  exact List.append_cancel_left htask

end Conveyor
