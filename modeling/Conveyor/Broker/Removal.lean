import Conveyor.Broker.Index

/-!
# Removing rows

A row leaves the store through a delete that names it or through a purge after its retention, never
while a blocked task still has it among its edges. The retention counts from the completion time on
the row, and that is the clock reading of the operation that put the task into the state it is in.
-/

namespace Conveyor

open Lib

/-- No blocked task has the given one among its unsatisfied dependencies. -/
def Broker.Unneeded (b : Broker) (t : String) : Prop :=
  ∀ d row, b.tasks.lookup d = some row → row.state = .blocked → t ∉ row.deps

/-- When a call may remove the row of task `t`. -/
inductive Removable (now : Time) (t : String) (row : TaskRow) : Call → Prop where
  | deleted (hstate : row.state ≠ .active) : Removable now t row (.deleteTask t)
  | completed {archiveRetention : Duration} {limit : Int} (hstate : row.state = .completed)
      (helapsed : row.completedAt + row.retention ≤ now) :
      Removable now t row (.purgeTerminal archiveRetention limit)
  | failed {archiveRetention : Duration} {limit : Int}
      (hstate : row.state = .archived ∨ row.state = .canceled) (hpositive : 0 < archiveRetention)
      (helapsed : row.completedAt + archiveRetention ≤ now) :
      Removable now t row (.purgeTerminal archiveRetention limit)

variable {archiveRetention : Duration} {limit : Int}

section Waiting

variable {now : Time} {call : Call} {seeds : List String} {base b c c' : Broker} {t : String}

/-- A task no incomplete waiter is recorded for is unneeded. -/
theorem Broker.Linked.unneeded_of_not_waiting (h : b.Linked)
    (hwaiting : b.hasWaitingDependents t = false) : b.Unneeded t := by
  intro d row hrow hblocked hedge
  rw [Broker.hasWaitingDependents, List.any_eq_false] at hwaiting
  apply hwaiting d (AList.mem_keys.mp (h.recorded d row hrow hblocked t hedge))
  simp only [hrow, hblocked, incomplete]

/-- Every task blocked in the first store is blocked on the same edges in the second, with a waiting
record for each. -/
def Broker.StillWaiting (b c : Broker) : Prop :=
  ∀ d row, b.tasks.lookup d = some row → row.state = .blocked →
    ∃ row', c.tasks.lookup d = some row' ∧ row'.state = .blocked ∧ row'.deps = row.deps ∧
      ∀ k ∈ row.deps, d ∈ c.waiters k

/-- A step of a purge leaves every blocked task waiting. -/
theorem StoreStep.stillWaiting (hstep : StoreStep now (.purgeTerminal archiveRetention limit) seeds base c c')
    (h : b.StillWaiting c) : b.StillWaiting c' := by
  intro d row hrow hblocked
  obtain ⟨mid, hmid, hstate, hdeps, hrecords⟩ := h d row hrow hblocked
  cases hstep with
  | create hcall => cases hcall
  | satisfy hcall => cases hcall
  | cascade hcall => cases hcall
  | delete hcall => cases hcall
  | settings htasks hdependents hevents =>
    exact ⟨mid, htasks ▸ hmid, hstate, hdeps, fun k hk =>
      Broker.waiters_congr hdependents k ▸ hrecords k hk⟩
  | @change t old new hold hchange =>
    have hrecords' : ∀ k ∈ row.deps, d ∈ (c.transition t old new now).waiters k := fun k hk => by
      rw [Broker.waiters_congr (Broker.transition_dependents _ _ _ _ _)]
      exact hrecords k hk
    rcases eq_or_ne d t with rfl | heq
    · cases hmid.symm.trans hold
      -- the only change a purge makes is to drop a lapsed claim
      cases hchange with
      | promoted hcall => cases hcall
      | unclaimed hlapsed =>
        exact ⟨mid.unclaimed, by rw [Broker.transition_tasks, AList.lookup_insert], hstate, hdeps, hrecords'⟩
    · exact ⟨mid, by rwa [Broker.transition_tasks, AList.lookup_insert_ne heq], hstate, hdeps, hrecords'⟩
  | @unindex f d' hstale =>
    refine ⟨mid, by rwa [Broker.removeDependent_tasks], hstate, hdeps, fun k hk => ?_⟩
    rw [Broker.mem_waiters_removeDependent]
    refine ⟨?_, hrecords k hk⟩
    rintro ⟨rfl, rfl⟩
    -- a record of a blocked task is never stale
    rcases hstale mid hmid with hnone | hcomplete
    · exact AList.lookup_eq_none.mp hnone (hdeps ▸ hk)
    · rw [hstate] at hcomplete
      cases hcomplete
  | @purge t removed retention limit' hcall hremoved hdependents hpurgeable =>
    have hne : d ≠ t := by
      rintro rfl
      cases hmid.symm.trans hremoved
      have hcomplete := incomplete_of_purgeable hpurgeable
      rw [hstate] at hcomplete
      cases hcomplete
    exact ⟨mid, by rwa [AList.lookup_erase_ne hne], hstate, hdeps, hrecords⟩

/-- A task the purge finds without waiting records is unneeded. -/
theorem Broker.StillWaiting.unneeded (h : b.StillWaiting c) (hdependents : c.hasDependents t = false) :
    b.Unneeded t := by
  intro d row hrow hblocked hedge
  obtain ⟨-, -, -, -, hrecords⟩ := h d row hrow hblocked
  have hnil : (c.waiters t).keys = [] := by simpa [Broker.hasDependents] using hdependents
  have hmem := AList.mem_keys.mp (hrecords t hedge)
  rw [hnil] at hmem
  cases hmem

end Waiting

variable {i : Invocation}

section Removed

variable {now : Time} {call : Call} {seeds : List String} {base b : Broker} {t : String} {row : TaskRow}

/-- A purgeable row has outlived the retention that applies to it. -/
theorem removable_of_purgeable (limit : Int)
    (h : purgeable row now archiveRetention = true) : Removable now t row (.purgeTerminal archiveRetention limit) := by
  rw [purgeable] at h
  split at h
  · rename_i hstate
    exact .completed hstate (of_decide_eq_true h)
  · rename_i hstate
    rw [Bool.and_eq_true, decide_eq_true_eq, decide_eq_true_eq] at h
    exact .failed (.inl hstate) h.1 h.2
  · rename_i hstate
    rw [Bool.and_eq_true, decide_eq_true_eq, decide_eq_true_eq] at h
    exact .failed (.inr hstate) h.1 h.2
  · cases h

/-- A purge changes nothing of a row that its removal depends on. -/
theorem Removable.of_unclaimed (h : Removable now t row.unclaimed (.purgeTerminal archiveRetention limit)) :
    Removable now t row (.purgeTerminal archiveRetention limit) := by
  cases h with
  | completed hstate helapsed => exact .completed hstate helapsed
  | failed hstate hpositive helapsed => exact .failed hstate hpositive helapsed

/-- A row removed in the course of a purge. -/
theorem purge_removes {c : Broker} (h : b.Linked)
    (hsteps : StoreSteps now (.purgeTerminal archiveRetention limit) seeds base b c)
    (hrow : b.tasks.lookup t = some row) :
    (∃ row', c.tasks.lookup t = some row' ∧ (row' = row ∨ row' = row.unclaimed)) ∨
      (Removable now t row (.purgeTerminal archiveRetention limit) ∧ b.Unneeded t) := by
  have hwaiting : b.StillWaiting b := fun d row hrow hblocked =>
    ⟨row, hrow, hblocked, rfl, h.recorded d row hrow hblocked⟩
  suffices b.StillWaiting c ∧
      ((∃ row', c.tasks.lookup t = some row' ∧ (row' = row ∨ row' = row.unclaimed)) ∨
        (Removable now t row (.purgeTerminal archiveRetention limit) ∧ b.Unneeded t)) from this.2
  induction hsteps with
  | refl => exact ⟨hwaiting, .inl ⟨row, hrow, .inl rfl⟩⟩
  | @tail c c' _ hlast ih =>
    obtain ⟨hwaiting, hstored⟩ := ih
    refine ⟨hlast.stillWaiting hwaiting, hstored.elim ?_ .inr⟩
    rintro ⟨mid, hmid, hsame⟩
    have hview := hlast.row t
    rw [hmid] at hview
    generalize hafter : c'.tasks.lookup t = stored at hview
    cases hview with
    | same => exact .inl ⟨mid, rfl, hsame⟩
    | satisfied hcall => cases hcall
    | cascaded hcall => cases hcall
    | deleted hcall => cases hcall
    | changed hchange =>
      cases hchange with
      | promoted hcall => cases hcall
      | unclaimed hlapsed =>
        refine .inl ⟨_, rfl, .inr ?_⟩
        rcases hsame with rfl | rfl <;> rfl
    | purged hcall hdependents hpurgeable =>
      cases hcall
      refine .inr ⟨?_, hwaiting.unneeded hdependents⟩
      have hremovable := removable_of_purgeable (t := t) limit hpurgeable
      rcases hsame with rfl | rfl
      · exact hremovable
      · exact hremovable.of_unclaimed

/-- A row that disappears in an operation is one the operation may remove, and nothing blocked waits
on it. -/
theorem after_removes (h : b.Linked) (hrow : b.tasks.lookup t = some row)
    (hgone : (b.after i).tasks.lookup t = none) : Removable i.now t row i.call ∧ b.Unneeded t := by
  have hstored : ∀ {stored : TaskRow}, (b.after i).tasks.lookup t ≠ some stored := by
    intro stored hstored
    rw [hgone] at hstored
    cases hstored
  by_cases hpurge : ∃ archiveRetention limit, i.call = .purgeTerminal archiveRetention limit
  · obtain ⟨archiveRetention, limit, hcall⟩ := hpurge
    have hsteps := exec_steps b i
    rw [hcall] at hsteps ⊢
    refine (purge_removes h hsteps hrow).resolve_left ?_
    rintro ⟨row', hrow', -⟩
    exact hstored hrow'
  · -- any other removal is a delete, which is a single step
    suffices ∀ c, StoreSteps i.now i.call (b.seeds i) b b c → c.tasks.lookup t ≠ none ∨
        i.call = .deleteTask t by
      have hcall := (this _ (exec_steps b i)).resolve_left (absurd hgone)
      have hstep := exec_step b i (by rw [hcall]; rfl)
      generalize b.after i = b' at hstep hgone
      cases hstep with
      | refl =>
        rw [hgone] at hrow
        cases hrow
      | single hstep =>
        have hview := hstep.row t
        rw [hrow, hgone, hcall] at hview
        rw [hcall]
        cases hview with
        | deleted _ hwaiting hstate => exact ⟨.deleted hstate, h.unneeded_of_not_waiting hwaiting⟩
        | purged hpurged => cases hpurged
    intro c hsteps
    induction hsteps with
    | refl => exact .inl (by rw [hrow]; nofun)
    | @tail c c' _ hlast ih =>
      refine ih.elim (fun hmid => ?_) .inr
      obtain ⟨mid, hmid⟩ := Option.ne_none_iff_exists'.mp hmid
      have hview := hlast.row t
      rw [hmid] at hview
      generalize hafter : c'.tasks.lookup t = stored at hview
      cases hview with
      | deleted hcall => exact .inr hcall
      | purged hcall => exact absurd ⟨_, _, hcall⟩ hpurge
      | _ => exact .inl nofun

end Removed

variable {b : Broker} {t : String}

/-- An operation that commits no task makes no task needed. -/
theorem after_unneeded (hcall : i.call.enqueued = []) (h : b.Unneeded t) : (b.after i).Unneeded t := by
  refine after_induction (P := fun c => c.Unneeded t) h ?_
  intro c c' hstep hc d row' hrow' hblocked hedge
  have hview := hstep.row d
  rw [hrow'] at hview
  generalize hstored : c.tasks.lookup d = stored at hview
  cases hview with
  | same => exact hc d row' hstored hblocked hedge
  | created htask =>
    rw [hcall] at htask
    cases htask
  | changed hchange =>
    obtain ⟨hdeps, hwas⟩ := hchange.edges
    exact hc d _ hstored (hwas hblocked) (hdeps ▸ hedge)
  | satisfied => exact hc d _ hstored hblocked (AList.mem_erase.mp hedge).2
  | cascaded => cases hblocked

variable {row : TaskRow}

/-- A call that removes rows commits none. -/
theorem Removable.enqueued_nil {now : Time} {call : Call} (h : Removable now t row call) : call.enqueued = [] := by
  cases h <;> rfl

section CompletionTime

variable {now : Time} {call : Call} {t : String}

/-- The two rows are in the same state, entered at the same time. -/
def TaskRow.SameOutcome (row row' : TaskRow) : Prop :=
  row'.state = row.state ∧ row'.completedAt = row.completedAt

/-- A change that ends in a terminal state stamps the time or finds the row in that outcome. -/
theorem RowChange.completedAt {row' : TaskRow} (h : RowChange now t call row row')
    (hterminal : terminal row'.state = true) : row'.completedAt = now ∨ row.SameOutcome row' := by
  cases h with
  | acked | batchAcked | archived | discarded | expiredOut | canceled | deadLettered => exact .inl rfl
  | extended | progressed | unclaimed => exact .inr ⟨rfl, rfl⟩
  | reaped h =>
    rw [TaskRow.reaped] at hterminal ⊢
    split_ifs at hterminal ⊢
    · exact .inl rfl
    · cases hterminal
  | promoted =>
    simp only [TaskRow.promoted] at hterminal
    split_ifs at hterminal <;> cases hterminal
  | rescheduled h =>
    simp only [TaskRow.rescheduled] at hterminal
    split_ifs at hterminal <;> cases hterminal
  | _ => cases hterminal

/-- A task is committed in no terminal state but the canceled one, whose time it is given. -/
theorem stagedTask_completedAt (base : Broker) (task : TaskEnvelope)
    (hterminal : terminal (base.stagedTask task now).row.state = true) :
    (base.stagedTask task now).row.completedAt = now := by
  have hcanceled : (base.stagedTask task now).row.state = .canceled := by
    have hstate : (base.stagedTask task now).row.state = Broker.initialState task.options.group
      (task.options.processAt.getD now) now _ _ := rfl
    rw [hstate, Broker.initialState] at hterminal ⊢
    split_ifs at hterminal ⊢ <;> first | rfl | cases hterminal
  exact if_pos hcanceled

/-- A terminal row was stamped by the operation, or had its outcome before it. -/
theorem after_completedAt (hrow : (b.after i).tasks.lookup t = some row) (hterminal : terminal row.state = true) :
    row.completedAt = i.now ∨ ∃ before, b.tasks.lookup t = some before ∧ before.SameOutcome row := by
  refine after_induction (P := fun c => ∀ row, c.tasks.lookup t = some row →
    terminal row.state = true → row.completedAt = i.now ∨
      ∃ before, b.tasks.lookup t = some before ∧ before.SameOutcome row)
    (fun row hrow _ => .inr ⟨row, hrow, rfl, rfl⟩) ?_ row hrow hterminal
  intro c c' hstep hc row' hrow' hterminal
  have hview := hstep.row t
  rw [hrow'] at hview
  generalize hstored : c.tasks.lookup t = stored at hview
  cases hview with
  | same => exact hc row' hstored hterminal
  | created => exact .inl (stagedTask_completedAt b _ hterminal)
  | changed hchange =>
    rcases hchange.completedAt hterminal with hnow | ⟨hstate, htime⟩
    · exact .inl hnow
    · rcases hc _ hstored (hstate ▸ hterminal) with hnow | ⟨before, hbefore, hstate', htime'⟩
      · exact .inl (htime.trans hnow)
      · exact .inr ⟨before, hbefore, hstate.trans hstate', htime.trans htime'⟩
  | @satisfied _ _ row => exact hc row hstored hterminal
  | cascaded => exact .inl rfl

/-- The task has had the row's outcome since an operation of the run that read the row's completion
time off its clock. -/
def Broker.FinishedSince (invocations : List Invocation) (t : String) (row : TaskRow) : Prop :=
  ∃ first i rest, invocations = first ++ i :: rest ∧ i.now = row.completedAt ∧
    ∀ later, later <+: rest → ∃ row',
      (Broker.empty.run (first ++ i :: later)).tasks.lookup t = some row' ∧ row'.SameOutcome row

/-- The completion time on a terminal row is the time its task reached the state it is in. -/
theorem run_finishedSince (invocations : List Invocation)
    (hrow : (Broker.empty.run invocations).tasks.lookup t = some row)
    (hterminal : terminal row.state = true) : Broker.FinishedSince invocations t row := by
  induction invocations using List.reverseRecOn generalizing row with
  | nil => cases hrow
  | append_singleton first i ih =>
    have hafter : ((Broker.empty.run first).after i).tasks.lookup t = some row := by
      rwa [Broker.run_append] at hrow
    rcases after_completedAt hafter hterminal with hnow | ⟨before, hbefore, hstate, htime⟩
    · refine ⟨first, i, [], rfl, hnow.symm, fun later hlater => ⟨row, ?_, rfl, rfl⟩⟩
      rw [List.prefix_nil.mp hlater]
      exact hrow
    · -- the outcome is older than the last operation, which left it alone
      obtain ⟨first', i', rest, rfl, hnow, hsince⟩ := ih hbefore (hstate ▸ hterminal)
      refine ⟨first', i', rest ++ [i], by simp, hnow.trans htime.symm, fun later hlater => ?_⟩
      rcases List.prefix_concat_iff.mp hlater with rfl | hlater
      · exact ⟨row, by simpa using hrow, rfl, rfl⟩
      · obtain ⟨row', hrow', hstate', htime'⟩ := hsince later hlater
        exact ⟨row', hrow', hstate.trans hstate', htime.trans htime'⟩

end CompletionTime

/-- Rows are removed only when it is safe: by a delete that names a task that is not active, or by a
purge once the retention of a terminal task has elapsed since its completion time, and never while a
blocked task has the removed one among its unsatisfied dependencies. -/
theorem removed_only_when_safe (invocations : List Invocation) (i : Invocation) {t : String} {row : TaskRow}
    (hstored : (Broker.empty.run invocations).tasks.lookup t = some row)
    (hgone : (Broker.empty.run (invocations ++ [i])).tasks.lookup t = none) :
    Removable i.now t row i.call ∧ (terminal row.state = true → Broker.FinishedSince invocations t row) ∧
      (Broker.empty.run invocations).Unneeded t ∧ (Broker.empty.run (invocations ++ [i])).Unneeded t := by
  have hlinked := (run_linked invocations).1
  rw [Broker.run_append] at hgone ⊢
  obtain ⟨hremovable, hunneeded⟩ := after_removes hlinked hstored hgone
  exact ⟨hremovable, run_finishedSince invocations hstored, hunneeded, after_unneeded hremovable.enqueued_nil hunneeded⟩

/-- A run that completes a task and lets its retention of five elapse before the purge. -/
def purgedRun : List Invocation :=
  [⟨1, .enqueue { id := "t", queue := "q", options := { retention := some 5 } }, {}⟩,
   ⟨2, .enqueue { id := "u", queue := "q", options := { dependsOn := [⟨"t", .block⟩] } }, {}⟩,
   ⟨3, .lease "q" 1 10 "L", {}⟩,
   ⟨4, .ack "t" "L", {}⟩,
   ⟨5, .resolveDependents "t", {}⟩]

/-- The purge at the end of the retention removes the completed task. -/
theorem removed_only_when_safe_purgedRun :
    ∃ row, (Broker.empty.run purgedRun).tasks.lookup "t" = some row ∧ Removable 9 "t" row (.purgeTerminal 0 10) ∧
      (terminal row.state = true → Broker.FinishedSince purgedRun "t" row) ∧
      (Broker.empty.run purgedRun).Unneeded "t" := by
  obtain ⟨row, hrow⟩ := Option.isSome_iff_exists.mp
    (show ((Broker.empty.run purgedRun).tasks.lookup "t").isSome = true by decide +kernel)
  have hgone : (Broker.empty.run (purgedRun ++ [⟨9, .purgeTerminal 0 10, {}⟩])).tasks.lookup "t" = none :=
    Option.isNone_iff_eq_none.mp (by decide +kernel)
  obtain ⟨hremovable, hsince, hunneeded, -⟩ := removed_only_when_safe purgedRun _ hrow hgone
  exact ⟨row, hrow, hremovable, hsince, hunneeded⟩

end Conveyor
