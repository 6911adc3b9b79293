import Conveyor.Broker.Sweep

/-!
# Dependents that come late

A dependency that is stored as completed when a task is committed leaves no edge, and an edge that is
not there never appears: rows only lose edges. A dependency that completed and was purged before is
taken for one that was never enqueued, and the task that names it blocks on it.
-/

namespace Conveyor

open Lib

/-- The task ids an invocation commits: ids it names that were not stored before it and are after. -/
def Broker.committedBy (b : Broker) (i : Invocation) : List String :=
  (i.call.enqueued.map (·.id)).dedup.filter fun t =>
    (b.tasks.lookup t).isNone && ((b.after i).tasks.lookup t).isSome

/-- The task ids a run commits, in order, with repetitions. -/
def Broker.committed (b : Broker) : List Invocation → List String
  | [] => []
  | i :: rest => b.committedBy i ++ (b.after i).committed rest

theorem Broker.committed_append (b : Broker) (first second : List Invocation) :
    b.committed (first ++ second) = b.committed first ++ (b.run first).committed second := by
  induction first generalizing b with
  | nil => rfl
  | cons i rest ih => simp [committed, ih, List.append_assoc]

/-- A task that appears in an invocation is among those it commits. -/
theorem Broker.mem_committedBy {b : Broker} {i : Invocation} {t : String} {row : TaskRow}
    (hbefore : b.tasks.lookup t = none) (hafter : (b.after i).tasks.lookup t = some row) : t ∈ b.committedBy i := by
  obtain ⟨task, htask, rfl, -⟩ := after_created hbefore hafter
  rw [committedBy, List.mem_filter, List.mem_dedup]
  exact ⟨List.mem_map.mpr ⟨task, htask, rfl⟩, by simp [hbefore, hafter]⟩

section Edges

variable {b : Broker} {t d : String}

/-- A dependency stored as completed leaves no edge in a new row. -/
theorem resolveInitialDepsFrom_completed {dep : TaskRow} (hdep : b.tasks.lookup d = some dep)
    (hcompleted : dep.state = .completed) (edges : List TaskDependency) (deps : GoMap String DependencyFailurePolicy)
    (h : deps.lookup d = none) : (b.resolveInitialDepsFrom t edges deps).1.lookup d = none := by
  induction edges generalizing deps with
  | nil => exact h
  | cons edge rest ih =>
    have hkeep : edge.taskId ≠ d → (b.resolveInitialDepsFrom t rest
        (deps.insert edge.taskId (dependencyPolicy edge.onFailure))).1.lookup d = none := by
      intro hne
      exact ih _ (by rw [AList.lookup_insert_ne hne.symm, h])
    by_cases heq : edge.taskId = d
    · -- the loop skips the edge on the completed dependency
      have hlookup : b.tasks.lookup edge.taskId = some dep := heq ▸ hdep
      rw [Broker.resolveInitialDepsFrom]
      simp only [hlookup, if_pos hcompleted, ite_self]
      exact ih deps h
    · rw [Broker.resolveInitialDepsFrom]
      split_ifs
      · exact ih deps h
      · cases hother : b.tasks.lookup edge.taskId with
        | none => exact hkeep heq
        | some other =>
          dsimp only
          split_ifs
          · exact ih deps h
          · cases hpolicy : dependencyPolicy edge.onFailure with
            | continue_ => exact ih deps h
            | cascadeCancel => rfl
            | _ =>
              simp only [hpolicy] at hkeep ⊢
              exact hkeep heq
          · exact hkeep heq

/-- An edge that is not there does not appear, until the task is removed. -/
theorem after_no_edge (i : Invocation) (h : ∃ row, b.tasks.lookup t = some row ∧ d ∉ row.deps) :
    (b.after i).tasks.lookup t = none ∨ ∃ row, (b.after i).tasks.lookup t = some row ∧ d ∉ row.deps := by
  have hinv : ((b.after i).tasks.lookup t = none ∧ i.call.enqueued = []) ∨
      ∃ row, (b.after i).tasks.lookup t = some row ∧ d ∉ row.deps := by
    apply after_induction (P := fun c => (c.tasks.lookup t = none ∧ i.call.enqueued = []) ∨
      ∃ row, c.tasks.lookup t = some row ∧ d ∉ row.deps) (.inr h)
    intro c c' hstep hc
    have hrow := hstep.row t
    generalize hstored : c.tasks.lookup t = stored at hrow hc
    generalize hstored' : c'.tasks.lookup t = stored' at hrow ⊢
    cases hrow with
    | same => exact hc
    | created htask =>
      rcases hc with ⟨-, hnil⟩ | ⟨row, hrow, -⟩
      · rw [hnil] at htask
        cases htask
      · cases hrow
    | @changed row row' hchange =>
      obtain ⟨row₁, hrow₁, hd⟩ := hc.resolve_left fun hnone => nomatch hnone.1
      cases hrow₁
      exact .inr ⟨row', rfl, hchange.edges.1 ▸ hd⟩
    | @satisfied f finished row policy =>
      obtain ⟨row₁, hrow₁, hd⟩ := hc.resolve_left fun hnone => nomatch hnone.1
      cases hrow₁
      exact .inr ⟨row.satisfied f, rfl, fun hmem => hd (AList.mem_erase.mp hmem).2⟩
    | @cascaded f finished row => exact .inr ⟨row.cascaded i.now, rfl, AList.notMem_empty d⟩
    | deleted hcall => exact .inl ⟨rfl, by rw [hcall]; rfl⟩
    | purged hcall => exact .inl ⟨rfl, by rw [hcall]; rfl⟩
  exact hinv.imp_left And.left

end Edges

/-- The dependency was stored as completed. -/
def Broker.Completed (b : Broker) (d : String) : Prop :=
  ∃ dep ∈ b.tasks.lookup d, dep.state = .completed

instance (b : Broker) (d : String) : Decidable (b.Completed d) :=
  inferInstanceAs (Decidable (∃ dep ∈ b.tasks.lookup d, dep.state = .completed))

/-- After a history in which `d` completed, the invocation commits `t`, which declares a dependency
on `d`. -/
structure LateDependent (history : List Invocation) (i : Invocation) (t d : String) : Prop where
  completed : ∃ earlier, earlier <+: history ∧ (Broker.empty.run earlier).Completed d
  fresh : (Broker.empty.run history).tasks.lookup t = none
  declares : ∃ row ∈ (Broker.empty.run (history ++ [i])).tasks.lookup t,
    ∃ edge ∈ row.envelope.options.dependsOn, edge.taskId = d

/-- A late dependent whose dependency is still stored as completed when it is committed is never
blocked on it, in any run that commits no id twice. -/
theorem late_dependent_not_stranded (history : List Invocation) (i : Invocation) (later : List Invocation)
    (t d : String) (honce : (Broker.empty.committed (history ++ i :: later)).Nodup)
    (hlate : LateDependent history i t d) (hkept : (Broker.empty.run history).Completed d) (rest : List Invocation)
    (hrest : rest <+: later) : ¬ (Broker.empty.run (history ++ i :: rest)).BlockedOn t d := by
  obtain ⟨dep, hdep, hcompleted⟩ := hkept
  obtain ⟨row, hrow, -⟩ := hlate.declares
  rw [Broker.run_append] at hrow
  have hcommitted := Broker.mem_committedBy hlate.fresh hrow
  -- the row starts without the edge, and keeps away from it until the task is removed for good
  have hnoEdge : ∀ rest, rest <+: later →
      (Broker.empty.run (history ++ i :: rest)).tasks.lookup t = none ∨
        ∃ row, (Broker.empty.run (history ++ i :: rest)).tasks.lookup t = some row ∧ d ∉ row.deps := by
    intro rest
    induction rest using List.reverseRecOn with
    | nil =>
      intro _
      obtain ⟨task, -, rfl, hstaged⟩ := after_created hlate.fresh hrow
      refine .inr ⟨row, by rw [Broker.run_append]; exact hrow, fun hd => ?_⟩
      obtain ⟨policy, hpolicy⟩ := GoMap.lookup_of_mem hd
      rw [hstaged] at hpolicy
      have hnone := resolveInitialDepsFrom_completed (t := task.id) hdep hcompleted
        task.options.dependsOn ∅ rfl
      exact absurd (hnone.symm.trans hpolicy) nofun
    | append_singleton rest j ih =>
      intro hrest
      have hsplit : history ++ i :: (rest ++ [j]) = (history ++ i :: rest) ++ [j] := by simp
      rw [hsplit, Broker.run_append, Broker.run_cons, Broker.run_nil]
      rcases ih ((List.prefix_append rest [j]).trans hrest) with hnone | hedge
      · left
        by_contra hsome
        obtain ⟨row', hrow'⟩ := Option.ne_none_iff_exists'.mp hsome
        have hagain := Broker.mem_committedBy hnone hrow'
        obtain ⟨more, rfl⟩ := hrest
        rw [Broker.run_append, Broker.run_cons] at hagain
        rw [Broker.committed_append, Broker.committed, List.append_assoc rest, Broker.committed_append]
          at honce
        have hdisjoint := List.disjoint_of_nodup_append (List.nodup_append.mp honce).2.1
        exact hdisjoint hcommitted (List.mem_append_right _ (List.mem_append_left _ hagain))
      · exact after_no_edge j hedge
  rintro ⟨row', hrow', -, hd⟩
  rcases hnoEdge rest hrest with hnone | ⟨row₁, hrow₁, hnot⟩
  · exact absurd (hnone.symm.trans hrow') nofun
  · cases hrow₁.symm.trans hrow'
    exact hnot hd

/-- A task completes before the task that depends on it is committed. -/
def lateRun : List Invocation :=
  [⟨1, .enqueue { id := "d", queue := "q" }, {}⟩,
   ⟨2, .lease "q" 1 5 "L1", {}⟩,
   ⟨3, .ack "d" "L1", {}⟩]

/-- The commit of the dependent. -/
def lateCommit : Invocation :=
  ⟨5, .enqueue { id := "t", queue := "q", options := { dependsOn := [⟨"d", .block⟩] } }, {}⟩

/-- The dependency is still stored when its dependent is committed. -/
theorem late_dependent_not_stranded_kept :
    (Broker.empty.committed (lateRun ++ lateCommit :: [])).Nodup ∧ LateDependent lateRun lateCommit "t" "d" ∧
    (Broker.empty.run lateRun).Completed "d" ∧
    ¬ (Broker.empty.run (lateRun ++ lateCommit :: [])).BlockedOn "t" "d" := by
  have honce : (Broker.empty.committed (lateRun ++ lateCommit :: [])).Nodup := by decide
  have hkept : (Broker.empty.run lateRun).Completed "d" := by decide
  have hlate : LateDependent lateRun lateCommit "t" "d" := ⟨⟨lateRun, List.prefix_refl _, hkept⟩, rfl, by decide⟩
  exact ⟨honce, hlate, hkept,
    late_dependent_not_stranded lateRun lateCommit [] "t" "d" honce hlate hkept [] (List.prefix_refl _)⟩

/-- A purge between the completion and the commit removes the dependency, and the dependent blocks on
it. -/
theorem late_dependent_stranded_by_purge :
    (Broker.empty.committed (lateRun ++ [⟨4, .purgeTerminal 0 10, {}⟩] ++ [lateCommit])).Nodup ∧
    LateDependent (lateRun ++ [⟨4, .purgeTerminal 0 10, {}⟩]) lateCommit "t" "d" ∧
    (Broker.empty.run (lateRun ++ [⟨4, .purgeTerminal 0 10, {}⟩] ++ [lateCommit])).BlockedOn "t" "d" :=
  ⟨by decide, ⟨⟨lateRun, List.prefix_append _ _, by decide⟩, rfl, by decide⟩, by decide⟩

end Conveyor
