import Conveyor.Broker.Fencing
import Mathlib.Data.List.Induction

/-!
# Dependency gating

A task stored with edges is blocked, and a claim finds it only after every edge was satisfied. The
code keeps this as long as a task that left the blocked state unsatisfied stays out of reach: it is
lost when an archived task is made due again while its edges are open, when a cascade-canceled task
(which no longer records its edges) is archived and then made due again, and when an edge carries a
policy the code does not know, which it treats as "continue".
-/

namespace Conveyor

open Lib

/-- The stored state of the dependency satisfies an edge with this policy. -/
def Broker.EdgeSatisfied (b : Broker) (d : String) (policy : DependencyFailurePolicy) : Prop :=
  ∃ dep, b.tasks.lookup d = some dep ∧
    (dep.state = .completed ∨ (failedDependency dep.state = true ∧ policy = .continue_))

/-- The edge was satisfied at some moment of the history. -/
def SatisfiedIn (history : List Invocation) (d : String) (policy : DependencyFailurePolicy) : Prop :=
  ∃ earlier, earlier <+: history ∧ (Broker.empty.run earlier).EdgeSatisfied d policy

/-- The edges the present row of `t` was stored with when it was enqueued. -/
def StoredWith (history : List Invocation) (t : String) (deps : GoMap String DependencyFailurePolicy) : Prop :=
  ∃ before i since, history = before ++ i :: since ∧
    (Broker.empty.run before).tasks.lookup t = none ∧
    (∃ row, (Broker.empty.run (before ++ [i])).tasks.lookup t = some row ∧ row.deps = deps) ∧
    ∀ q, q <+: since → (Broker.empty.run (before ++ i :: q)).tasks.lookup t ≠ none

/-- Whenever a task is claimed, every edge it was stored with was satisfied before. -/
def DependencyGated (invocations : List Invocation) : Prop :=
  ∀ history i rest t deps, invocations = history ++ i :: rest →
    t ∈ ((Broker.empty.run history).exec i).2.leasedIDs → StoredWith history t deps →
    ∀ d policy, deps.lookup d = some policy → SatisfiedIn history d policy

/-- The row was canceled because a dependency failed; it no longer records its edges. -/
def TaskRow.CascadeCanceled (row : TaskRow) : Prop :=
  row.state = .canceled ∧ row.lastError = cascadeCanceledMessage

/-- Whether the policy is one the protocol defines. -/
def DependencyFailurePolicy.declared : DependencyFailurePolicy → Bool
  | .unrecognized _ => false
  | _ => true

/-- The invocation does not step around the gate: tasks are committed with policies the protocol
defines, an archived task is made due only when the edges its row still records are satisfied, and
no cascade-canceled task is archived without a lease. -/
structure RespectsEdges (b : Broker) (i : Invocation) : Prop where
  declared : ∀ task ∈ i.call.enqueued, ∀ edge ∈ task.options.dependsOn, edge.onFailure.declared = true
  revived : ∀ t row, i.call = .runTaskNow t → b.tasks.lookup t = some row → row.state = .archived →
    ∀ d policy, row.deps.lookup d = some policy → b.EdgeSatisfied d policy
  discarded : ∀ t errMsg row, i.call = .archive t "" errMsg → b.tasks.lookup t = some row → ¬ row.CascadeCanceled

/-- The row is out of reach of a claim because of an edge: it still records the edge in a state no
claim takes, or it was canceled for a failed dependency. -/
def TaskRow.HeldBack (row : TaskRow) (d : String) (policy : DependencyFailurePolicy) : Prop :=
  (row.deps.lookup d = some policy ∧
    (row.state = .blocked ∨ row.state = .archived ∨ row.state = .canceled)) ∨ row.CascadeCanceled

variable {b : Broker} {i : Invocation}

section Edges

variable {now : Time} {seeds : List String} {t d : String} {policy : DependencyFailurePolicy}

/-- A row that is held back is blocked, archived or canceled. -/
theorem TaskRow.HeldBack.state {row : TaskRow} (h : row.HeldBack d policy) :
    row.state = .blocked ∨ row.state = .archived ∨ row.state = .canceled :=
  h.elim (fun hedge => hedge.2) fun hcascade => .inr (.inr hcascade.1)

variable {call : Call}

/-- A change keeps a row held back, unless it makes an archived task due or archives a
cascade-canceled one. -/
theorem RowChange.heldBack {row row' : TaskRow} (h : RowChange now t call row row') (hheld : row.HeldBack d policy)
    (hrevived : call = .runTaskNow t → row.state = .archived → row.deps.lookup d ≠ some policy)
    (hdiscarded : ∀ errMsg, call = .archive t "" errMsg → ¬ row.CascadeCanceled) : row'.HeldBack d policy := by
  have hstate := hheld.state
  cases h with
  | leased h => rcases hstate with hs | hs | hs <;> simp [Broker.leasable, dispatchable, hs] at h
  | groupLeased h => rcases hstate with hs | hs | hs <;> simp [Broker.groupLeasable, hs] at h
  | extended h => exact hheld
  | progressed h => exact hheld
  | unclaimed h => exact hheld
  | discarded h =>
    rcases hheld with hedge | hcascade
    · exact .inl ⟨hedge.1, .inr (.inl rfl)⟩
    · exact absurd hcascade (hdiscarded _ rfl)
  | reaped h => rcases hstate with hs | hs | hs <;> simp [reapable, hs] at h
  | due h => rcases hstate with hs | hs | hs <;> simp [promotable, hs] at h
  | expiredOut h =>
    rcases hheld with hedge | hcascade
    · exact .inl ⟨hedge.1, .inr (.inl rfl)⟩
    · simp [archivable, dispatchable, hcascade.1] at h
  | promoted hcall hblocked hdeps =>
    rcases hheld with hedge | hcascade
    · rw [GoMap.lookup_eq_none_of_keys_nil hdeps] at hedge
      cases hedge.1
    · rw [hcascade.1] at hblocked
      cases hblocked
  | canceled h =>
    rcases hheld with hedge | hcascade
    · exact .inl ⟨hedge.1, .inr (.inr rfl)⟩
    · exact .inr ⟨rfl, hcascade.2⟩
  | ranNow h =>
    rcases hheld with hedge | hcascade
    · rcases hedge.2 with hs | hs | hs
      · simp [runnable, hs] at h
      · exact absurd hedge.1 (hrevived rfl hs)
      · simp [runnable, hs] at h
    · simp [runnable, hcascade.1] at h
  | rescheduled h => rcases hstate with hs | hs | hs <;> simp [reschedulable, hs] at h
  | deadLettered h =>
    rcases hheld with hedge | hcascade
    · exact .inl ⟨hedge.1, .inr (.inl rfl)⟩
    · simp [deadLetterable, hcascade.1] at h
  | acked h => rcases hstate with hs | hs | hs <;> simp [TaskRow.HeldUnder, hs] at h
  | batchAcked hitem h => rcases hstate with hs | hs | hs <;> simp [TaskRow.HeldUnder, hs] at h
  | failed h => rcases hstate with hs | hs | hs <;> simp [TaskRow.HeldUnder, hs] at h
  | released h => rcases hstate with hs | hs | hs <;> simp [TaskRow.HeldUnder, hs] at h
  | archived hlease h => rcases hstate with hs | hs | hs <;> simp [TaskRow.HeldUnder, hs] at h

/-- A resolving call completes no task. -/
theorem StoreStep.not_completed {base c c' : Broker} (hcall : call.resolves = true)
    (hstep : StoreStep now call seeds base c c') (h : ∀ dep, c.tasks.lookup d = some dep → dep.state ≠ .completed) :
    ∀ dep, c'.tasks.lookup d = some dep → dep.state ≠ .completed := by
  intro dep' hdep'
  have hrow := hstep.row d
  rw [hdep'] at hrow
  generalize hstored : c.tasks.lookup d = stored at hrow
  cases hrow with
  | same => exact h dep' hstored
  | created htask => simp [Call.enqueued_nil_of_resolves hcall] at htask
  | changed hchange =>
    obtain ⟨-, -, rfl⟩ := hchange.of_resolves hcall
    simp only [TaskRow.promoted]
    split_ifs <;> simp
  | @satisfied f finished row => exact h row hstored
  | cascaded => rintro ⟨⟩

/-- In a resolving call, a failed dependency stays failed. -/
theorem StoreStep.stays_failed {base c c' : Broker} (hcall : call.resolves = true)
    (hstep : StoreStep now call seeds base c c')
    (h : ∃ dep, c.tasks.lookup d = some dep ∧ failedDependency dep.state = true) :
    ∃ dep, c'.tasks.lookup d = some dep ∧ failedDependency dep.state = true := by
  obtain ⟨dep, hdep, hfailed⟩ := h
  have hrow := hstep.row d
  rw [hdep] at hrow
  generalize hstored : c'.tasks.lookup d = stored at hrow
  cases hrow with
  | same => exact ⟨dep, rfl, hfailed⟩
  | changed hchange =>
    obtain ⟨hblocked, -, -⟩ := hchange.of_resolves hcall
    simp [hblocked, failedDependency] at hfailed
  | satisfied => exact ⟨_, rfl, hfailed⟩
  | cascaded => exact ⟨_, rfl, rfl⟩
  | deleted hdelete => simp [hdelete, Call.resolves] at hcall
  | purged hpurge => simp [hpurge, Call.resolves] at hcall

/-- Inside one call: the task is gone, or held back by the edge, or the call has just continued past
the failed dependency. -/
def EdgeGuarded (t d : String) (policy : DependencyFailurePolicy) (call : Call) (c : Broker) : Prop :=
  (c.tasks.lookup t = none ∧ call.enqueued = []) ∨
  (∃ row, c.tasks.lookup t = some row ∧ row.HeldBack d policy) ∨
  (call.resolves = true ∧ policy = .continue_ ∧ ∃ dep, c.tasks.lookup d = some dep ∧ failedDependency dep.state = true)

/-- A policy an edge is stored with when only defined policies are committed. -/
def DependencyFailurePolicy.Stored (policy : DependencyFailurePolicy) : Prop :=
  policy = .block ∨ policy = .cascadeCancel ∨ policy = .continue_

/-- One step keeps an edge guarded, as long as its dependency is not completed. -/
theorem StoreStep.edgeGuarded {base c c' : Broker}
    (hstep : StoreStep now call seeds base c c') (hpolicy : policy.Stored)
    (hcompleted : call.resolves = true → ∀ dep, c.tasks.lookup d = some dep → dep.state ≠ .completed)
    (hrevived : ∀ row, call = .runTaskNow t → c.tasks.lookup t = some row →
      row.state = .archived → row.deps.lookup d ≠ some policy)
    (hdiscarded : ∀ row errMsg, call = .archive t "" errMsg → c.tasks.lookup t = some row → ¬ row.CascadeCanceled)
    (h : EdgeGuarded t d policy call c) : EdgeGuarded t d policy call c' := by
  rcases h with ⟨hnone, hcommits⟩ | ⟨row, hrow, hheld⟩ | ⟨hcall, hcontinue, hdep⟩
  · have hview := hstep.row t
    rw [hnone] at hview
    generalize hstored : c'.tasks.lookup t = stored at hview
    cases hview with
    | same => exact .inl ⟨hstored, hcommits⟩
    | created htask => simp [hcommits] at htask
  · have hview := hstep.row t
    rw [hrow] at hview
    generalize hstored : c'.tasks.lookup t = stored at hview
    cases hview with
    | same => exact .inr (.inl ⟨row, hstored, hheld⟩)
    | changed hchange =>
      exact .inr (.inl ⟨_, hstored, hchange.heldBack hheld (fun hc hs => hrevived row hc hrow hs)
        fun errMsg hc => hdiscarded row errMsg hc hrow⟩)
    | @satisfied f finished _ policy' hcall hfinished hterminal hedge hopen =>
      rcases hheld with ⟨hrecorded, hstate⟩ | hcascade
      · rcases eq_or_ne f d with rfl | hf
        · cases hedge.symm.trans hrecorded
          have hfailed : failedDependency finished.state = true := by
            have hne := hcompleted hcall finished hfinished
            revert hterminal hne
            cases finished.state <;> simp [terminal, failedDependency]
          obtain ⟨hblock, hcancel⟩ := hopen hfailed
          have hcontinue := (hpolicy.resolve_left hblock).resolve_left hcancel
          exact .inr (.inr ⟨hcall, hcontinue, hstep.stays_failed hcall ⟨finished, hfinished, hfailed⟩⟩)
        · refine .inr (.inl ⟨_, hstored, .inl ⟨?_, hstate⟩⟩)
          exact (AList.lookup_erase_ne hf.symm).trans hrecorded
      · exact .inr (.inl ⟨_, hstored, .inr hcascade⟩)
    | cascaded => exact .inr (.inl ⟨_, hstored, .inr ⟨rfl, rfl⟩⟩)
    | deleted hdelete => exact .inl ⟨hstored, by rw [hdelete]; rfl⟩
    | purged hpurge => exact .inl ⟨hstored, by rw [hpurge]; rfl⟩
  · exact .inr (.inr ⟨hcall, hcontinue, hstep.stays_failed hcall hdep⟩)

/-- An operation that respects the edges keeps an unsatisfied edge's task held back, until the edge
is satisfied or the task is gone. -/
theorem after_heldBack (hrespects : RespectsEdges b i) (hpolicy : policy.Stored)
    (hopen : ¬ b.EdgeSatisfied d policy) (hheld : ∃ row, b.tasks.lookup t = some row ∧ row.HeldBack d policy) :
    (b.after i).tasks.lookup t = none ∨ (∃ row, (b.after i).tasks.lookup t = some row ∧ row.HeldBack d policy) ∨
      (b.after i).EdgeSatisfied d policy := by
  have hcompleted : ∀ dep, b.tasks.lookup d = some dep → dep.state ≠ .completed :=
    fun dep hdep hstate => hopen ⟨dep, hdep, .inl hstate⟩
  have hguarded : EdgeGuarded t d policy i.call (b.after i) := by
    by_cases hsingle : i.call.single = true
    · have hstep := exec_step b i hsingle
      generalize b.after i = b' at hstep ⊢
      cases hstep with
      | refl => exact .inr (.inl hheld)
      | single hstep =>
        refine hstep.edgeGuarded hpolicy (fun _ => hcompleted) ?_ ?_ (.inr (.inl hheld))
        · intro row hcall hrow hstate hedge
          exact hopen (hrespects.revived t row hcall hrow hstate d policy hedge)
        · intro row errMsg hcall hrow
          exact hrespects.discarded t errMsg row hcall hrow
    · have hinv : EdgeGuarded t d policy i.call (b.after i) ∧ (i.call.resolves = true →
          ∀ dep, (b.after i).tasks.lookup d = some dep → dep.state ≠ .completed) := by
        apply after_induction (P := fun c => EdgeGuarded t d policy i.call c ∧ (i.call.resolves = true →
          ∀ dep, c.tasks.lookup d = some dep → dep.state ≠ .completed))
          ⟨.inr (.inl hheld), fun _ => hcompleted⟩
        intro c c' hstep hc
        refine ⟨hstep.edgeGuarded hpolicy hc.2 ?_ ?_ hc.1, fun hcall => hstep.not_completed hcall (hc.2 hcall)⟩
        · intro row hcall
          simp [hcall, Call.single] at hsingle
        · intro row errMsg hcall
          simp [hcall, Call.single] at hsingle
      exact hinv.1
  rcases hguarded with ⟨hnone, -⟩ | hheld' | ⟨-, rfl, dep, hdep, hfailed⟩
  · exact .inl hnone
  · exact .inr (.inl hheld')
  · exact .inr (.inr ⟨dep, hdep, .inr ⟨hfailed, rfl⟩⟩)

/-- The edges kept at enqueue are declared ones, and a task canceled at enqueue keeps none. -/
theorem resolveInitialDepsFrom_spec (b : Broker) (t : String) (edges : List TaskDependency)
    (deps : GoMap String DependencyFailurePolicy) {d : String} {policy : DependencyFailurePolicy}
    (h : (b.resolveInitialDepsFrom t edges deps).1.lookup d = some policy) :
    (b.resolveInitialDepsFrom t edges deps).2 = false ∧
      (deps.lookup d = some policy ∨ ∃ edge ∈ edges, policy = dependencyPolicy edge.onFailure) := by
  induction edges generalizing deps with
  | nil => exact ⟨rfl, .inl h⟩
  | cons edge rest ih =>
    have hskip : ∀ deps, (b.resolveInitialDepsFrom t rest deps).1.lookup d = some policy →
        (b.resolveInitialDepsFrom t rest deps).2 = false ∧ (deps.lookup d = some policy ∨
          ∃ e ∈ edge :: rest, policy = dependencyPolicy e.onFailure) := by
      intro deps h
      obtain ⟨hcancel, hfrom⟩ := ih deps h
      exact ⟨hcancel, hfrom.imp_right fun ⟨e, he, hp⟩ => ⟨e, .tail edge he, hp⟩⟩
    have hkeep : (b.resolveInitialDepsFrom t rest
          (deps.insert edge.taskId (dependencyPolicy edge.onFailure))).1.lookup d = some policy →
        (b.resolveInitialDepsFrom t rest
          (deps.insert edge.taskId (dependencyPolicy edge.onFailure))).2 = false ∧
        (deps.lookup d = some policy ∨ ∃ e ∈ edge :: rest, policy = dependencyPolicy e.onFailure) := by
      intro h
      obtain ⟨hcancel, hfrom⟩ := hskip _ h
      refine ⟨hcancel, ?_⟩
      rcases hfrom with hlookup | hrest
      · rw [GoMap.lookup_insert_eq_ite] at hlookup
        split at hlookup
        · cases hlookup
          exact .inr ⟨edge, .head _, rfl⟩
        · exact .inl hlookup
      · exact .inr hrest
    rw [Broker.resolveInitialDepsFrom] at h ⊢
    split_ifs at h ⊢ with hself
    · exact hskip deps h
    · cases hdep : b.tasks.lookup edge.taskId with
      | none =>
        simp only [hdep] at h ⊢
        exact hkeep h
      | some dep =>
        simp only [hdep] at h ⊢
        split_ifs at h ⊢ with hcompleted hfailed
        · exact hskip deps h
        · cases hpolicy : dependencyPolicy edge.onFailure with
          | continue_ =>
            simp only [hpolicy] at h ⊢
            exact hskip deps h
          | cascadeCancel =>
            simp only [hpolicy] at h
            cases h
          | _ =>
            simp only [hpolicy] at h hkeep ⊢
            exact hkeep h
        · exact hkeep h

/-- A task stored with an edge starts out blocked on it. -/
theorem stagedTask_heldBack {task : TaskEnvelope}
    (hdeclared : ∀ edge ∈ task.options.dependsOn, edge.onFailure.declared = true)
    (h : (b.stagedTask task now).row.deps.lookup d = some policy) :
    policy.Stored ∧ (b.stagedTask task now).row.HeldBack d policy := by
  have hlookup : (b.resolveInitialDepsFrom task.id task.options.dependsOn ∅).1.lookup d = some policy := h
  obtain ⟨hcancel, hfrom⟩ := resolveInitialDepsFrom_spec b task.id task.options.dependsOn ∅ hlookup
  constructor
  · obtain ⟨edge, hedge, rfl⟩ := hfrom.resolve_left (by rintro ⟨⟩)
    have hdecl := hdeclared edge hedge
    cases honFailure : edge.onFailure with
    | unrecognized value => simp [honFailure, DependencyFailurePolicy.declared] at hdecl
    | unspecified => exact .inl rfl
    | block => exact .inl rfl
    | cascadeCancel => exact .inr (.inl rfl)
    | continue_ => exact .inr (.inr rfl)
  · refine .inl ⟨h, .inl ?_⟩
    have hkeys : (b.resolveInitialDepsFrom task.id task.options.dependsOn ∅).1.keys ≠ [] := by
      intro hnil
      rw [GoMap.lookup_eq_none_of_keys_nil hnil d] at hlookup
      cases hlookup
    change Broker.initialState _ _ _ (b.resolveInitialDepsFrom task.id task.options.dependsOn ∅).1
      (b.resolveInitialDepsFrom task.id task.options.dependsOn ∅).2 = _
    rw [Broker.initialState, if_neg (by rw [hcancel]; rintro ⟨⟩), if_pos hkeys]

end Edges

section Runs

variable {t d : String} {policy : DependencyFailurePolicy}

/-- What was satisfied in a history stays satisfied in a longer one. -/
theorem SatisfiedIn.append {history : List Invocation} (h : SatisfiedIn history d policy)
    (more : List Invocation) : SatisfiedIn (history ++ more) d policy := by
  obtain ⟨earlier, hearlier, hsatisfied⟩ := h
  exact ⟨earlier, hearlier.trans (List.prefix_append history more), hsatisfied⟩

/-- Along a run that respects the edges, every edge of a stored task was satisfied at some moment, or
still holds the task back. -/
theorem satisfied_or_heldBack (history : List Invocation)
    (hrespects : Broker.empty.StepsMeet RespectsEdges history)
    {deps : GoMap String DependencyFailurePolicy} (hstored : StoredWith history t deps)
    (hedge : deps.lookup d = some policy) :
    policy.Stored ∧ (SatisfiedIn history d policy ∨
      ∃ row, (Broker.empty.run history).tasks.lookup t = some row ∧ row.HeldBack d policy) := by
  induction history using List.reverseRecOn with
  | nil =>
    obtain ⟨before, i, since, heq, -⟩ := hstored
    exact absurd heq (by simp)
  | append_singleton history i ih =>
    obtain ⟨hhistory, hlast⟩ := (Broker.stepsMeet_append history [i] _).mp hrespects
    obtain ⟨before, e, since, heq, hbefore, hcreated, hsince⟩ := hstored
    have hrun : Broker.empty.run (history ++ [i]) = (Broker.empty.run history).after i := by
      rw [Broker.run_append]
      rfl
    rcases List.eq_nil_or_concat since with rfl | ⟨since', i', rfl⟩
    · obtain ⟨rfl, hi⟩ := List.append_inj' heq rfl
      obtain rfl : i = e := by simpa using hi
      obtain ⟨row, hrow, rfl⟩ := hcreated
      rw [hrun] at hrow ⊢
      obtain ⟨task, htask, -, rfl⟩ := after_created hbefore hrow
      obtain ⟨hpolicy, hheld⟩ := stagedTask_heldBack (hlast.1.declared task htask) hedge
      exact ⟨hpolicy, .inr ⟨_, hrow, hheld⟩⟩
    · rw [List.concat_eq_append, ← List.cons_append, ← List.append_assoc] at heq
      obtain ⟨rfl, hi⟩ := List.append_inj' heq rfl
      obtain rfl : i = i' := by simpa using hi
      obtain ⟨hpolicy, hcase⟩ := ih hhistory
        ⟨before, e, since', rfl, hbefore, hcreated, fun q hq =>
          hsince q (hq.trans (by rw [List.concat_eq_append]; exact List.prefix_append since' [i]))⟩
      refine ⟨hpolicy, ?_⟩
      rcases hcase with hsatisfied | hheld
      · exact .inl (hsatisfied.append [i])
      by_cases hopen : (Broker.empty.run (before ++ e :: since')).EdgeSatisfied d policy
      · exact .inl ⟨_, List.prefix_append _ _, hopen⟩
      rcases after_heldBack hlast.1 hpolicy hopen hheld with hnone | hheld' | hsatisfied
      · refine absurd ?_ (hsince _ (List.prefix_refl _))
        rw [List.concat_eq_append, ← List.cons_append, ← List.append_assoc, hrun]
        exact hnone
      · rw [hrun]
        exact .inr hheld'
      · exact .inl ⟨_, List.prefix_refl _, by rw [hrun]; exact hsatisfied⟩

/-- Dependency gating, in every run whose operations all respect the edges. -/
theorem dependency_gating (invocations : List Invocation)
    (hrespects : Broker.empty.StepsMeet RespectsEdges invocations) : DependencyGated invocations := by
  intro history i rest t deps heq hleased hstored d policy hedge
  subst heq
  have hhistory := ((Broker.stepsMeet_append history (i :: rest) _).mp hrespects).1
  obtain ⟨-, hsatisfied | ⟨row, hrow, hheld⟩⟩ := satisfied_or_heldBack history hhistory hstored hedge
  · exact hsatisfied
  · obtain ⟨⟨row', hrow', hwaiting⟩, -⟩ := leased_waiting (run_keyed history) hleased
    cases hrow.symm.trans hrow'
    rcases hheld.state with hs | hs | hs <;> simp [dispatchable, hs] at hwaiting

/-- A dependent is archived while it is blocked, released from its edge by the completed dependency,
and only then made due and claimed. -/
def chainedRun : List Invocation :=
  [⟨1, .enqueue { id := "a", queue := "q" }, {}⟩,
   ⟨2, .enqueue { id := "t", queue := "q", options := { dependsOn := [⟨"a", .block⟩] } }, {}⟩,
   ⟨3, .archiveTask "t", {}⟩,
   ⟨4, .lease "q" 1 5 "L1", {}⟩,
   ⟨5, .ack "a" "L1", {}⟩,
   ⟨6, .resolveDependents "a", {}⟩,
   ⟨7, .runTaskNow "t", {}⟩,
   ⟨8, .lease "q" 1 5 "L2", {}⟩]

/-- The calls that respect the edges in every store. -/
def Call.keepsEdges : Call → Bool
  | .runTaskNow _ => false
  | .archive _ leaseID _ => leaseID != ""
  | call => call.enqueued.all fun task => task.options.dependsOn.all fun edge => edge.onFailure.declared

/-- Only a commit, a lease-less archive or a run-now can fail to respect the edges. -/
theorem respectsEdges_of_call (h : i.call.keepsEdges = true) : RespectsEdges b i := by
  rcases i with ⟨now, call, order⟩
  refine ⟨?_, ?_, ?_⟩
  · intro task htask edge hedge
    cases call <;>
      first
      | exact List.all_eq_true.mp (List.all_eq_true.mp h task htask) edge hedge
      | exact absurd htask List.not_mem_nil
  · intro t row hcall
    cases hcall
    cases h
  · intro t errMsg row hcall
    cases hcall
    cases h

/-- The dependent is made due only after its row records no edge. -/
theorem chainedRun_respects : Broker.empty.StepsMeet RespectsEdges chainedRun := by
  refine ⟨respectsEdges_of_call rfl, respectsEdges_of_call rfl, respectsEdges_of_call rfl,
    respectsEdges_of_call rfl, respectsEdges_of_call rfl, respectsEdges_of_call rfl, ?_,
    respectsEdges_of_call rfl, trivial⟩
  have hdrained : ((Broker.empty.run (chainedRun.take 6)).tasks.lookup "t").map
      (fun row => row.deps.keys) = some [] := by decide
  refine ⟨fun _ htask => absurd htask List.not_mem_nil,
    fun t row hcall hrow hstate d policy hedge => ?_, fun _ _ _ hcall => by cases hcall⟩
  cases hcall
  rw [show (Broker.empty.run (chainedRun.take 6)).tasks.lookup "t" = some row from hrow,
    Option.map_some, Option.some.injEq] at hdrained
  rw [GoMap.lookup_eq_none_of_keys_nil hdrained] at hedge
  cases hedge

/-- The run respects the edges, and the claimed dependent's edge was satisfied before the claim. -/
theorem dependency_gating_chained :
    Broker.empty.StepsMeet RespectsEdges chainedRun ∧
    "t" ∈ ((Broker.empty.run (chainedRun.take 7)).exec ⟨8, .lease "q" 1 5 "L2", {}⟩).2.leasedIDs ∧
    SatisfiedIn (chainedRun.take 7) "a" .block := by
  have hleased : "t" ∈ ((Broker.empty.run (chainedRun.take 7)).exec
      ⟨8, .lease "q" 1 5 "L2", {}⟩).2.leasedIDs := by decide
  have hstays : ∀ q ∈ ((chainedRun.take 7).drop 2).inits, ((Broker.empty.run (chainedRun.take 1 ++
      ⟨2, .enqueue { id := "t", queue := "q", options := { dependsOn := [⟨"a", .block⟩] } }, {}⟩ ::
        q)).tasks.lookup "t").isSome = true := by decide
  have hstored : StoredWith (chainedRun.take 7) "t" ((∅ : GoMap String DependencyFailurePolicy).insert
      "a" .block) :=
    ⟨chainedRun.take 1, _, (chainedRun.take 7).drop 2, rfl, rfl, ⟨_, rfl, rfl⟩,
      fun q hq => Option.isSome_iff_ne_none.mp (hstays q ((List.mem_inits q _).mpr hq))⟩
  exact ⟨chainedRun_respects, hleased, dependency_gating chainedRun chainedRun_respects
    (chainedRun.take 7) _ [] "t" _ rfl hleased hstored "a" .block rfl⟩

/-- A blocked task is archived by an admin and made due again while its dependency is unfinished. -/
def bypassingRun : List Invocation :=
  [⟨1, .enqueue { id := "t", queue := "q", options := { dependsOn := [⟨"a", .block⟩] } }, {}⟩,
   ⟨2, .archiveTask "t", {}⟩,
   ⟨3, .runTaskNow "t", {}⟩,
   ⟨4, .lease "q" 1 5 "L1", {}⟩]

/-- The claim takes the task although its edge was never satisfied. -/
theorem dependency_gating_bypassed : ¬ DependencyGated bypassingRun := by
  intro hgated
  have hstays : ∀ q ∈ ((bypassingRun.take 3).drop 1).inits, ((Broker.empty.run ([] ++
      ⟨1, .enqueue { id := "t", queue := "q", options := { dependsOn := [⟨"a", .block⟩] } }, {}⟩ ::
        q)).tasks.lookup "t").isSome = true := by decide
  have hstored : StoredWith (bypassingRun.take 3) "t"
      ((∅ : GoMap String DependencyFailurePolicy).insert "a" .block) :=
    ⟨[], _, (bypassingRun.take 3).drop 1, rfl, rfl, ⟨_, rfl, rfl⟩,
      fun q hq => Option.isSome_iff_ne_none.mp (hstays q ((List.mem_inits q _).mpr hq))⟩
  obtain ⟨earlier, hearlier, dep, hdep, -⟩ :=
    hgated (bypassingRun.take 3) _ [] "t" _ rfl (by decide) hstored "a" .block rfl
  have hnever : ∀ q ∈ (bypassingRun.take 3).inits, ((Broker.empty.run q).tasks.lookup "a").isNone = true := by decide
  have hnone := hnever earlier ((List.mem_inits earlier _).mpr hearlier)
  rw [hdep] at hnone
  cases hnone

end Runs

end Conveyor
