import Conveyor.Broker.Confluence

/-!
# What a dependency sweep leaves behind

A finished task is drained when the only tasks still recorded as waiting on it are held back by the
failure policy of their edge. Each task the sweep visits is resolved by one cascade, which drains it with
every task it cancels on the way and undoes no draining. So after the sweep each finished task is drained
or was never visited.
-/

namespace Conveyor

open Lib

/-- The task is stored in a terminal state. -/
def Broker.Finished (b : Broker) (d : String) : Prop :=
  ∃ row ∈ b.tasks.lookup d, terminal row.state = true

/-- The task is blocked with an unsatisfied edge on `d`. -/
def Broker.BlockedOn (b : Broker) (t d : String) : Prop :=
  ∃ row ∈ b.tasks.lookup t, row.state = .blocked ∧ d ∈ row.deps

instance (b : Broker) (d : String) : Decidable (b.Finished d) :=
  inferInstanceAs (Decidable (∃ row ∈ b.tasks.lookup d, terminal row.state = true))

instance (b : Broker) (t d : String) : Decidable (b.BlockedOn t d) :=
  inferInstanceAs (Decidable (∃ row ∈ b.tasks.lookup t, row.state = .blocked ∧ d ∈ row.deps))

/-- The task waits under a block edge, and its dependency failed. -/
def Broker.HeldByFailure (b : Broker) (d t : String) : Prop :=
  (∃ row ∈ b.tasks.lookup t, row.deps.lookup d = some .block) ∧
    ∃ dep ∈ b.tasks.lookup d, failedDependency dep.state = true

instance (b : Broker) (d t : String) : Decidable (b.HeldByFailure d t) :=
  inferInstanceAs (Decidable ((∃ row ∈ b.tasks.lookup t, row.deps.lookup d = some .block) ∧
    ∃ dep ∈ b.tasks.lookup d, failedDependency dep.state = true))

/-- The only tasks recorded as waiting on `d` are held back by its failure. -/
def Broker.Drained (b : Broker) (d : String) : Prop := ∀ t, t ∈ b.waiters d → b.HeldByFailure d t

variable {d : String}

section Sweep

variable {b : Broker} {now : Time} {left : String → Prop}

/-- Every finished task is drained or left out. -/
def Broker.DrainedBut (b : Broker) (left : String → Prop) : Prop :=
  ∀ d, b.Finished d → b.Drained d ∨ left d

/-- The finished tasks are the rows of the net that have ended. -/
theorem Broker.finished_iff (now : Time) : b.Finished d ↔ b.net.endedAt (taskLifecycle now) d = true := by
  simp [Finished, Net.endedAt, net, taskLifecycle, TaskRow.view, Option.any_eq_true]

/-- The records kept by a failure are the edges of the net it keeps. -/
theorem Broker.Linked.drained_iff (h : b.Linked) (now : Time) : b.Drained d ↔ b.net.Drained (taskLifecycle now) d := by
  refine forall_congr' fun t => ?_
  rw [h.mem_waiters]
  refine imp_congr_right fun hedge => and_congr ?_ ?_
  · obtain ⟨row, hrow, -⟩ := h.listed d t (h.mem_waiters.mpr hedge)
    rw [net_edge hrow (h.mem_waiters.mpr hedge), hrow]
    simp only [Option.mem_def, Option.some.injEq, exists_eq_left', Option.map_eq_some_iff]
    constructor
    · exact fun hblock => ⟨_, hblock, rfl⟩
    · rintro ⟨policy, hpolicy, hkeep⟩
      cases policy <;> first | exact hpolicy | cases hkeep
  · simp [Net.failedAt, net, taskLifecycle, TaskRow.view, Option.any_eq_true]

/-- A finished task stays finished while edges are resolved. -/
theorem resolveDependents_finished (hlinked : b.Linked) (order : ResolveOrder) (taskID : String) (h : b.Finished d) :
    (b.resolveDependents order taskID now).1.Finished d := by
  rw [Broker.finished_iff now, (resolveDependents_final hlinked order taskID now).1]
  exact Net.endedAt_stage (fun _ => rfl) ((Broker.finished_iff now).mp h)

/-- Resolving a finished task drains it, and everything that is canceled on the way. -/
theorem resolveDependents_drained (hlinked : b.Linked) (order : ResolveOrder) {taskID : String} (h : b.DrainedBut left)
    (hfinished : b.Finished taskID) :
    (b.resolveDependents order taskID now).1.DrainedBut fun d => left d ∧ d ≠ taskID := by
  intro d hd
  by_cases hleft : left d ∧ d ≠ taskID
  · exact .inr hleft
  · rw [(resolveDependents_resolvedTo hlinked order taskID now).1.drained_iff now]
    rw [Broker.finished_iff now] at hd hfinished
    rw [(resolveDependents_final hlinked order taskID now).1] at hd ⊢
    refine .inl (Net.drained_cascade (fun _ => rfl) (fun _ _ => Broker.net_row_of_edge) hfinished hd fun hne hended => ?_)
    exact (hlinked.drained_iff now).mp ((h d ((Broker.finished_iff now).mpr hended)).resolve_right fun hl => hleft ⟨hl, hne⟩)

/-- Resolving several finished tasks drains all of them. -/
theorem resolveAll_drained (hlinked : b.Linked) (order : String → ResolveOrder) (depIDs : List String)
    (queues : GoSet String) (h : b.DrainedBut left) (hfinished : ∀ d ∈ depIDs, b.Finished d) :
    (Broker.resolveAll order now depIDs (b, queues)).1.DrainedBut fun d => left d ∧ d ∉ depIDs := by
  induction depIDs generalizing b queues left with
  | nil => exact fun d hd => (h d hd).imp id fun hleft => ⟨hleft, List.not_mem_nil⟩
  | cons depID rest ih =>
    have hfirst : (b.resolveDependents (order depID) depID now).1.DrainedBut
        fun d => left d ∧ d ≠ depID :=
      resolveDependents_drained hlinked (order depID) h (hfinished depID (.head _))
    have hlinked' := (resolveDependents_resolvedTo hlinked (order depID) depID now).1
    intro d hd
    refine (ih hlinked' _ hfirst (fun x hx => ?_) d hd).imp id ?_
    · exact resolveDependents_finished hlinked _ depID (hfinished x (.tail depID hx))
    · rintro ⟨⟨hleft, hne⟩, hrest⟩
      exact ⟨hleft, fun hmem => (List.mem_cons.mp hmem).elim hne hrest⟩

/-- With an edge for every blocked row, the closing sweep finds nothing to promote. -/
theorem promoteAll_of_waiting (h : b.Waiting) (ids : List String) (queues : GoSet String) :
    (Broker.promoteAll now ids (b, queues)).1 = b := by
  induction ids with
  | nil => rfl
  | cons id rest ih =>
    rw [Broker.promoteAll]
    cases hrow : b.tasks.lookup id with
    | none => exact ih
    | some row =>
      have hstays : row.state ≠ .blocked ∨ row.deps.keys ≠ [] := by
        by_cases hblocked : row.state = .blocked
        · exact .inr (h id row hrow hblocked)
        · exact .inl hblocked
      simp only [Broker.promoteIfReady, if_pos hstays]
      exact ih

/-- The terminal tasks some blocked task still waits on. -/
def Broker.awaited (b : Broker) : Finset String :=
  b.tasks.keys.toFinset.filter fun d => b.Finished d ∧ ∃ t ∈ b.tasks.keys, b.BlockedOn t d

theorem Broker.mem_awaited : d ∈ b.awaited ↔ b.Finished d ∧ ∃ t, b.BlockedOn t d := by
  rw [awaited, Finset.mem_filter, List.mem_toFinset]
  constructor
  · rintro ⟨-, hfinished, t, -, hblocked⟩
    exact ⟨hfinished, t, hblocked⟩
  · rintro ⟨⟨dep, hdep, hterminal⟩, t, row, hrow, hblocked⟩
    exact ⟨AList.mem_keys.mp (GoMap.mem_of_lookup hdep), ⟨dep, hdep, hterminal⟩, t,
      AList.mem_keys.mp (GoMap.mem_of_lookup hrow), row, hrow, hblocked⟩

/-- A loop that adds keys one after the other ends with the starting keys and the added ones. -/
theorem mem_foldl_insert {step : GoSet String → String → GoSet String} (added : String → String → Prop)
    (hstep : ∀ set x d, d ∈ step set x ↔ d ∈ set ∨ added x d) (xs : List String) (set : GoSet String)
    (d : String) : d ∈ xs.foldl step set ↔ d ∈ set ∨ ∃ x ∈ xs, added x d := by
  induction xs generalizing set with
  | nil => simp
  | cons x rest ih =>
    rw [List.foldl_cons, ih, hstep, or_assoc]
    simp

/-- The candidates of the safety net are the terminal tasks some blocked task still waits on. -/
theorem Broker.mem_finishedDependencies : d ∈ b.finishedDependencies ↔ d ∈ b.awaited := by
  rw [finishedDependencies, mem_foldl_insert fun t d => b.BlockedOn t d ∧ b.Finished d]
  · rw [mem_awaited]
    constructor
    · rintro (hmem | ⟨t, -, hblocked, hfinished⟩)
      · exact absurd hmem (AList.notMem_empty d)
      · exact ⟨hfinished, t, hblocked⟩
    · rintro ⟨hfinished, t, hblocked⟩
      obtain ⟨row, hrow, -⟩ := id hblocked
      exact .inr ⟨t, AList.mem_keys.mp (GoMap.mem_of_lookup hrow), hblocked, hfinished⟩
  · intro set t d
    cases hrow : b.tasks.lookup t with
    | none => simp [BlockedOn, hrow]
    | some row =>
      by_cases hblocked : row.state = .blocked
      · simp only [hblocked, if_true]
        refine (mem_foldl_insert (fun x d => d = x ∧ b.Finished x) (fun set x d => ?_) row.deps.keys set d).trans ?_
        · cases hdep : b.tasks.lookup x with
          | none => simp [Finished, hdep]
          | some dep =>
            by_cases hterminal : terminal dep.state = true
            · simp [Finished, hdep, hterminal, or_comm]
            · simp [Finished, hdep, hterminal]
        · simp [BlockedOn, hrow, hblocked, ← AList.mem_keys]
      · simp [BlockedOn, hrow, hblocked]

/-- A call that resolves edges blocks nothing and adds no edge. -/
theorem after_blockedOn {i : Invocation} (hcall : i.call.resolves = true) {t : String}
    (h : (b.after i).BlockedOn t d) : b.BlockedOn t d := by
  revert h
  apply after_induction (P := fun c => c.BlockedOn t d → b.BlockedOn t d) id
  rintro c c' hstep hc ⟨row', hrow', hblocked, hd⟩
  apply hc
  have hview := hstep.row t
  rw [show c'.tasks.lookup t = some row' from hrow'] at hview
  generalize hstored : c.tasks.lookup t = stored at hview
  cases hview with
  | same => exact ⟨row', hstored, hblocked, hd⟩
  | created htask => simp [Call.enqueued_nil_of_resolves hcall] at htask
  | changed hchange =>
    obtain ⟨hdeps, hbefore⟩ := hchange.edges
    exact ⟨_, hstored, hbefore hblocked, hdeps ▸ hd⟩
  | satisfied => exact ⟨_, hstored, hblocked, (AList.mem_erase.mp hd).2⟩
  | cascaded => cases hblocked

variable {limit : Int}

/-- With an edge for every blocked row, the safety net resolves the candidates it visits and does nothing more. -/
theorem promoteReadyDependents_eq (hwaiting : b.Waiting) (order : Iteration) (hlimit : 1 ≤ limit) :
    b.after ⟨now, .promoteReadyDependents limit, order⟩ = (Broker.resolveAll order.resolve now
      ((order.finished.visit b.finishedDependencies).take limit.toNat) (b, ∅)).1 := by
  change (b.promoteReadyDependents now order.tasks order.finished order.queues order.resolve limit).1 = _
  rw [Broker.promoteReadyDependents, if_neg (by omega)]
  exact promoteAll_of_waiting (resolveAll_induction Resolution.resolveEdge_waiting order.resolve _ ∅ hwaiting) _ _

/-- After the safety net ran, every finished task is drained or was finished before and not visited. -/
theorem promoteReadyDependents_drained (hlinked : b.Linked) (hwaiting : b.Waiting) (order : Iteration) (hlimit : 1 ≤ limit) :
    (b.after ⟨now, .promoteReadyDependents limit, order⟩).DrainedBut fun d => b.Finished d ∧
      d ∉ (order.finished.visit b.finishedDependencies).take limit.toNat := by
  have hnone : b.DrainedBut b.Finished := fun d hd => .inr hd
  rw [promoteReadyDependents_eq hwaiting order hlimit]
  refine resolveAll_drained hlinked order.resolve _ ∅ hnone fun d hd => ?_
  have hcandidate := (MapOrder.mem_visit _ _ d).mp (List.mem_of_mem_take hd)
  exact (Broker.mem_awaited.mp (Broker.mem_finishedDependencies.mp hcandidate)).1

/-- A blocked task recorded as waiting on a drained task is held back by the policy of its edge. -/
theorem Broker.Drained.held {t : String} (h : b.Drained d) (hlinked : b.Linked)
    (hblocked : b.BlockedOn t d) : b.HeldByFailure d t := by
  obtain ⟨row, hrow, hstate, hd⟩ := hblocked
  exact h t (hlinked.recorded t row hrow hstate d hd)

/-- The candidates in the order they are visited. -/
theorem visit_finishedDependencies (order : MapOrder String) :
    (order.visit b.finishedDependencies).toFinset = b.awaited := by
  ext d
  rw [List.mem_toFinset, MapOrder.mem_visit, Broker.mem_finishedDependencies]

/-- With a limit that covers all candidates, every blocked dependent of a finished task is held back by
its policy afterwards. -/
theorem swept_held (hlinked : b.Linked) (hwaiting : b.Waiting) (order : Iteration)
    (hlimit : (b.awaited.card : Int) ≤ limit) {t : String}
    (hfinished : (b.after ⟨now, .promoteReadyDependents limit, order⟩).Finished d)
    (hblocked : (b.after ⟨now, .promoteReadyDependents limit, order⟩).BlockedOn t d) :
    (b.after ⟨now, .promoteReadyDependents limit, order⟩).HeldByFailure d t := by
  have hbefore := after_blockedOn rfl hblocked
  have hcount : (order.finished.visit b.finishedDependencies).length = b.awaited.card := by
    rw [← visit_finishedDependencies order.finished, List.toFinset_card_of_nodup (MapOrder.nodup_visit _ _)]
  by_cases hpositive : 1 ≤ limit
  · rcases promoteReadyDependents_drained hlinked hwaiting order hpositive d hfinished with hdrained | ⟨hd, hnot⟩
    · exact hdrained.held (after_linked hlinked _) hblocked
    · rw [List.take_of_length_le (by omega), MapOrder.mem_visit, Broker.mem_finishedDependencies] at hnot
      exact absurd (Broker.mem_awaited.mpr ⟨hd, t, hbefore⟩) hnot
  · -- a limit below one changes nothing, and then there is no candidate
    have hsame : b.after ⟨now, .promoteReadyDependents limit, order⟩ = b := by
      change (b.promoteReadyDependents now order.tasks order.finished order.queues order.resolve
        limit).1 = b
      rw [Broker.promoteReadyDependents, if_pos (by omega)]
    rw [hsame] at hfinished
    have hpos := Finset.card_pos.mpr ⟨d, Broker.mem_awaited.mpr ⟨hfinished, t, hbefore⟩⟩
    omega

end Sweep

/-- The unsatisfied edge of a blocked task that no sweep can resolve: its dependency is not stored, not
terminal, or failed under the block policy. -/
def Broker.Unresolvable (b : Broker) (row : TaskRow) (d : String) : Prop :=
  b.tasks.lookup d = none ∨ ∃ dep, b.tasks.lookup d = some dep ∧
    (terminal dep.state = false ∨ ((dep.state = .archived ∨ dep.state = .canceled) ∧ row.deps.lookup d = some .block))

/-- A sweep whose limit covers every terminal task some blocked task waits on leaves only blocked
tasks with edges it cannot resolve. -/
theorem sweep_resolves_all (invocations : List Invocation) (now : Time) (order : Iteration) (limit : Int)
    (hlimit : ((Broker.empty.run invocations).awaited.card : Int) ≤ limit) (t : String) (row : TaskRow)
    (hrow : ((Broker.empty.run invocations).after
      ⟨now, .promoteReadyDependents limit, order⟩).tasks.lookup t = some row)
    (hblocked : row.state = .blocked) :
    row.deps.keys ≠ [] ∧ ∀ d ∈ row.deps, ((Broker.empty.run invocations).after
      ⟨now, .promoteReadyDependents limit, order⟩).Unresolvable row d := by
  obtain ⟨hlinked, hwaiting⟩ := run_linked invocations
  generalize Broker.empty.run invocations = b at *
  refine ⟨after_waiting hwaiting ⟨now, .promoteReadyDependents limit, order⟩ t row hrow hblocked, fun d hd => ?_⟩
  have hedge : (b.after ⟨now, .promoteReadyDependents limit, order⟩).BlockedOn t d := ⟨row, hrow, hblocked, hd⟩
  cases hdep : (b.after ⟨now, .promoteReadyDependents limit, order⟩).tasks.lookup d with
  | none => exact .inl hdep
  | some dep =>
    refine .inr ⟨dep, hdep, ?_⟩
    by_cases hterminal : terminal dep.state = true
    · obtain ⟨⟨row', hrow', hpolicy⟩, dep', hdep', hfailed⟩ :=
        swept_held hlinked hwaiting order hlimit ⟨dep, hdep, hterminal⟩ hedge
      cases hrow.symm.trans hrow'
      cases hdep.symm.trans hdep'
      exact .inr ⟨by simpa [failedDependency] using hfailed, hpolicy⟩
    · exact .inl (by simpa using hterminal)

/-- A dependent is canceled by its failed dependency, and a second one waits on the first under the
block policy. -/
def cascadeRun : List Invocation :=
  [⟨1, .enqueue { id := "a", queue := "q" }, {}⟩,
   ⟨2, .enqueue { id := "t", queue := "q", options := { dependsOn := [⟨"a", .cascadeCancel⟩] } }, {}⟩,
   ⟨3, .enqueue { id := "u", queue := "q", options := { dependsOn := [⟨"t", .block⟩] } }, {}⟩,
   ⟨4, .archiveTask "a", {}⟩]

/-- The sweep visits the one candidate, cancels its dependent, and leaves the second one blocked on a
task that failed in the course of the sweep. -/
theorem sweep_resolves_all_cascade :
    ((Broker.empty.run cascadeRun).awaited.card : Int) ≤ 1 ∧ ∃ row,
      ((Broker.empty.run cascadeRun).after ⟨5, .promoteReadyDependents 1, {}⟩).tasks.lookup "u" = some row ∧ row.state =
      .blocked ∧ row.deps.keys ≠ [] ∧ ∀ d ∈ row.deps,
      ((Broker.empty.run cascadeRun).after ⟨5, .promoteReadyDependents 1, {}⟩).Unresolvable row d := by
  have hlimit : ((Broker.empty.run cascadeRun).awaited.card : Int) ≤ 1 := by decide
  have hstate : (((Broker.empty.run cascadeRun).after ⟨5, .promoteReadyDependents 1, {}⟩).tasks.lookup
      "u").map TaskRow.state = some .blocked := by decide
  obtain ⟨row, hrow, hblocked⟩ := Option.map_eq_some_iff.mp hstate
  exact ⟨hlimit, row, hrow, hblocked, sweep_resolves_all cascadeRun 5 {} 1 hlimit "u" row hrow hblocked⟩

section Stuck

variable {b : Broker} {now : Time} {t : String} {limit : Int}

/-- A record stays as long as its edge does. -/
theorem resolveAll_recorded (hlinked : b.Linked) (order : String → ResolveOrder) (depIDs : List String)
    (queues : GoSet String) (h : ∀ row, b.tasks.lookup t = some row → d ∈ row.deps → t ∈ b.waiters d) {row : TaskRow}
    (hrow : (Broker.resolveAll order now depIDs (b, queues)).1.tasks.lookup t = some row) (hd : d ∈ row.deps) :
    t ∈ (Broker.resolveAll order now depIDs (b, queues)).1.waiters d := by
  induction depIDs generalizing b queues with
  | nil => exact h row hrow hd
  | cons depID rest ih =>
    obtain ⟨hlinked', hresolved⟩ := resolveDependents_resolvedTo hlinked (order depID) depID now
    refine ih hlinked' _ (fun changed hchanged hchild => ?_) hrow
    cases hbefore : b.tasks.lookup t with
    | none => cases (hresolved.missing t hbefore).symm.trans hchanged
    | some before =>
      obtain ⟨changed', hchanged', hkept⟩ := hresolved.rows t before hbefore
      cases hchanged.symm.trans hchanged'
      cases hkept with
      | cascaded => exact absurd hchild (AList.notMem_empty d)
      | kept _ _ _ hkeys => exact ((hkeys d).mp hchild).2 (h before hbefore ((hkeys d).mp hchild).1)

/-- A candidate the safety net visited without changing a row was drained. -/
theorem visited_drained (hlinked : b.Linked) (hwaiting : b.Waiting) (order : Iteration) (hlimit : 1 ≤ limit)
    (hsame : ∀ t, (b.after ⟨now, .promoteReadyDependents limit, order⟩).tasks.lookup t = b.tasks.lookup t)
    (hvisited : d ∈ (order.finished.visit b.finishedDependencies).take limit.toNat) : b.Drained d := by
  intro t hwaits
  obtain ⟨row, hrow, hd⟩ := hlinked.listed d t hwaits
  have hkept : t ∈ (b.after ⟨now, .promoteReadyDependents limit, order⟩).waiters d := by
    have hrow' := (hsame t).trans hrow
    rw [promoteReadyDependents_eq hwaiting order hlimit] at hrow' ⊢
    exact resolveAll_recorded hlinked order.resolve _ ∅ (fun _ _ _ => hwaits) hrow' hd
  have hcandidate := Broker.mem_finishedDependencies.mp ((MapOrder.mem_visit _ _ d).mp (List.mem_of_mem_take hvisited))
  have hfinished : (b.after ⟨now, .promoteReadyDependents limit, order⟩).Finished d := by
    simpa only [Broker.Finished, hsame] using (Broker.mem_awaited.mp hcandidate).1
  rcases promoteReadyDependents_drained hlinked hwaiting order hlimit d hfinished with hdrained | ⟨-, hnot⟩
  · simpa only [Broker.HeldByFailure, hsame] using hdrained t hkept
  · exact absurd hvisited hnot

/-- Taking a drained task from the worklist changes no row. -/
theorem Resolution.resolveFinished_of_drained (order : ResolveOrder) {f : String} {r : Resolution}
    (h : r.store.Drained f) : (resolveFinished order now f r).store = r.store ∧
      (resolveFinished order now f r).worklist = r.worklist := by
  rw [resolveFinished]
  split
  · exact ⟨rfl, rfl⟩
  dsimp only
  split
  · exact ⟨rfl, rfl⟩
  · rename_i finished hfinished
    split
    · refine List.foldlRecOn (motive := fun r' : Resolution => r'.store = r.store ∧ r'.worklist = r.worklist)
        _ _ ⟨rfl, rfl⟩ fun r' hr' t ht => ?_
      obtain ⟨⟨row, hrow, hedge⟩, dep, hdep, hfailed⟩ := h t ((MapOrder.mem_visit _ _ t).mp ht)
      cases hfinished.symm.trans hdep
      rw [← hr'.1] at hrow
      rw [resolveEdge, show r'.store.tasks.lookup t = some row from hrow]
      simp only [hedge, hfailed, and_self, if_true]
      exact hr'
    · exact ⟨rfl, rfl⟩

/-- Resolving drained tasks changes no row. -/
theorem resolveAll_of_drained (order : String → ResolveOrder) (depIDs : List String) (queues : GoSet String)
    (h : ∀ d ∈ depIDs, b.Drained d) : (Broker.resolveAll order now depIDs (b, queues)).1 = b := by
  induction depIDs generalizing queues with
  | nil => rfl
  | cons depID rest ih =>
    obtain ⟨hfirst, hrest⟩ := List.forall_mem_cons.mp h
    have hstore : (b.resolveDependents (order depID) depID now).1 = b := by
      obtain ⟨hstore, hworklist⟩ := @Resolution.resolveFinished_of_drained now (order depID) depID { store := b } hfirst
      rw [Broker.resolveDependents, Resolution.drain]
      dsimp only
      cases b.tasks.keys.length with
      | zero => exact hstore
      | succ fuel =>
        rw [Resolution.drain, hworklist]
        exact hstore
    rw [Broker.resolveAll]
    dsimp only
    rw [hstore]
    exact ih _ hrest

/-- The candidates no sweep can take from the set: every task recorded as waiting on one is held back by
the failure policy of its edge. -/
def Broker.stuck (b : Broker) : Finset String :=
  b.awaited.filter fun d => ∀ t ∈ (b.waiters d).keys, b.HeldByFailure d t

theorem Broker.mem_stuck : d ∈ b.stuck ↔ d ∈ b.awaited ∧ b.Drained d :=
  Finset.mem_filter.trans (and_congr_right fun _ => forall_congr' fun _ => by rw [← AList.mem_keys])

/-- An iteration order that visits enough stuck candidates first lets the safety net change nothing. -/
theorem sweep_crowded_out (hwaiting : b.Waiting) (hlimit : 1 ≤ limit) (hstuck : limit ≤ b.stuck.card) :
    ∃ order : Iteration, ∀ t,
      (b.after ⟨now, .promoteReadyDependents limit, order⟩).tasks.lookup t = b.tasks.lookup t := by
  let front := b.stuck.toList.take limit.toNat
  have hfront : ∀ d ∈ front, d ∈ b.stuck := fun d hd => Finset.mem_toList.mp (List.mem_of_mem_take hd)
  have hlength : front.length = limit.toNat := by
    rw [List.length_take, Finset.length_toList]
    omega
  have hvisit : ((MapOrder.startingWith front).visit b.finishedDependencies).take limit.toNat = front := by
    rw [MapOrder.visit_startingWith ((Finset.nodup_toList _).sublist (List.take_sublist _ _)), List.take_left' hlength]
    exact fun d hd => Broker.mem_finishedDependencies.mpr (Broker.mem_stuck.mp (hfront d hd)).1
  refine ⟨{ finished := .startingWith front }, fun t => ?_⟩
  rw [promoteReadyDependents_eq hwaiting _ hlimit, hvisit,
    resolveAll_of_drained _ _ _ fun d hd => (Broker.mem_stuck.mp (hfront d hd)).2]

end Stuck

/-- No blocked task has an edge the safety net could act on. -/
def Broker.NothingActionable (b : Broker) : Prop :=
  ∀ t row d policy dep, b.tasks.lookup t = some row → row.state = .blocked →
    row.deps.lookup d = some policy → b.tasks.lookup d = some dep →
    dep.state ≠ .completed ∧
      ((dep.state = .archived ∨ dep.state = .canceled) → policy ≠ .continue_ ∧ policy ≠ .cascadeCancel)

/-- If the limit exceeds the number of stuck candidates, a sweep that changes nothing had nothing to act on. -/
theorem nothingActionable_of_unchanged {b : Broker} {now : Time} {limit : Int} (hlinked : b.Linked)
    (hwaiting : b.Waiting) (order : Iteration) (hlimit : 1 ≤ limit) (hstuck : (b.stuck.card : Int) < limit)
    (hsame : ∀ t, (b.after ⟨now, .promoteReadyDependents limit, order⟩).tasks.lookup t = b.tasks.lookup t) :
    b.NothingActionable := by
  have hdrained : ∀ d ∈ (order.finished.visit b.finishedDependencies).take limit.toNat, b.Drained d :=
    fun d => visited_drained hlinked hwaiting order hlimit hsame
  have hvisited : (order.finished.visit b.finishedDependencies).length ≤ limit.toNat := by
    by_contra hmore
    have hsubset : ((order.finished.visit b.finishedDependencies).take limit.toNat).toFinset ⊆
        b.stuck := by
      intro d hd
      rw [List.mem_toFinset] at hd
      have hcandidate := Broker.mem_finishedDependencies.mp
        ((MapOrder.mem_visit _ _ d).mp (List.mem_of_mem_take hd))
      exact Broker.mem_stuck.mpr ⟨hcandidate, hdrained d hd⟩
    have hcard := Finset.card_le_card hsubset
    rw [List.toFinset_card_of_nodup ((MapOrder.nodup_visit _ _).sublist (List.take_sublist _ _)),
      List.length_take] at hcard
    omega
  intro t row d policy dep hrow hblocked hpolicy hdep
  have hblockedOn : b.BlockedOn t d := ⟨row, hrow, hblocked, GoMap.mem_of_lookup hpolicy⟩
  -- all candidates were visited, so a terminal dependency failed under the block policy
  have hblock : terminal dep.state = true → failedDependency dep.state = true ∧ policy = .block := by
    intro hterminal
    have hcandidate := Broker.mem_awaited.mpr ⟨⟨dep, hdep, hterminal⟩, t, hblockedOn⟩
    rw [← Broker.mem_finishedDependencies, ← MapOrder.mem_visit order.finished,
      ← List.take_of_length_le hvisited] at hcandidate
    obtain ⟨⟨row', hrow', hedge⟩, dep', hdep', hfailed⟩ := (hdrained d hcandidate).held hlinked hblockedOn
    cases hrow.symm.trans hrow'
    cases hdep.symm.trans hdep'
    exact ⟨hfailed, Option.some.inj (hpolicy.symm.trans hedge)⟩
  constructor
  · intro hcompleted
    obtain ⟨hfailed, -⟩ := hblock (by rw [hcompleted]; rfl)
    rw [hcompleted] at hfailed
    cases hfailed
  · intro hfailed
    obtain ⟨-, rfl⟩ := hblock (by rcases hfailed with h | h <;> rw [h] <;> rfl)
    exact ⟨nofun, nofun⟩

/-- A sweep that changes nothing shows in every iteration order that there was nothing to act on, exactly if there was
nothing anyway or the limit exceeds the number of stuck candidates. -/
theorem sweep_progress (invocations : List Invocation) (now : Time) (limit : Int) (hlimit : 1 ≤ limit) :
    (∀ order, (∀ t, ((Broker.empty.run invocations).after ⟨now, .promoteReadyDependents limit, order⟩).tasks.lookup t =
        (Broker.empty.run invocations).tasks.lookup t) → (Broker.empty.run invocations).NothingActionable) ↔
      (Broker.empty.run invocations).NothingActionable ∨
        ((Broker.empty.run invocations).stuck.card : Int) < limit := by
  obtain ⟨hlinked, hwaiting⟩ := run_linked invocations
  generalize Broker.empty.run invocations = b at *
  constructor
  · intro hprogress
    refine or_iff_not_imp_right.mpr fun hstuck => ?_
    obtain ⟨order, hsame⟩ := sweep_crowded_out hwaiting hlimit (not_lt.mp hstuck)
    exact hprogress order hsame
  · rintro (hnothing | hstuck) order hsame
    · exact hnothing
    · exact nothingActionable_of_unchanged hlinked hwaiting order hlimit hstuck hsame

/-- One dependency failed under the block policy. -/
def heldRun : List Invocation :=
  [⟨1, .enqueue { id := "a", queue := "q" }, {}⟩,
   ⟨2, .enqueue { id := "t", queue := "q", options := { dependsOn := [⟨"a", .block⟩] } }, {}⟩,
   ⟨3, .archiveTask "a", {}⟩]

/-- With a limit above the one stuck candidate, an unchanged store has nothing to act on. -/
theorem sweep_progress_held :
    ((Broker.empty.run heldRun).stuck.card : Int) < 2 ∧
      ((Broker.empty.run heldRun).after ⟨4, .promoteReadyDependents 2, {}⟩).tasks = (Broker.empty.run heldRun).tasks ∧
      (Broker.empty.run heldRun).NothingActionable := by
  have hstuck : ((Broker.empty.run heldRun).stuck.card : Int) < 2 := by decide
  have hsame : ((Broker.empty.run heldRun).after ⟨4, .promoteReadyDependents 2, {}⟩).tasks =
      (Broker.empty.run heldRun).tasks := rfl
  exact ⟨hstuck, hsame, (sweep_progress heldRun 4 2 (by decide)).mpr (.inr hstuck) {} fun t => by rw [hsame]⟩

/-- One more dependency completes, and its resolution is lost. -/
def crowdedRun : List Invocation :=
  heldRun ++
    [⟨4, .enqueue { id := "b", queue := "q" }, {}⟩,
     ⟨5, .enqueue { id := "u", queue := "q", options := { dependsOn := [⟨"b", .block⟩] } }, {}⟩,
     ⟨6, .lease "q" 1 5 "L1", {}⟩,
     ⟨7, .ack "b" "L1", {}⟩]

/-- The safety net spends its limit on the stuck candidate, on every call, and never reaches the
completed one. -/
theorem sweep_progress_crowded_out :
    ((Broker.empty.run crowdedRun).after ⟨8, .promoteReadyDependents 1, {}⟩).tasks =
      (Broker.empty.run crowdedRun).tasks ∧ ¬ (Broker.empty.run crowdedRun).NothingActionable := by
  refine ⟨rfl, fun hnothing => ?_⟩
  have hblocked : (Broker.empty.run crowdedRun).BlockedOn "u" "b" := by decide
  have hcompleted : ∃ dep ∈ (Broker.empty.run crowdedRun).tasks.lookup "b", dep.state = .completed := by
    decide
  obtain ⟨row, hrow, hstate, hd⟩ := hblocked
  obtain ⟨policy, hpolicy⟩ := GoMap.lookup_of_mem hd
  obtain ⟨dep, hdep, hdone⟩ := hcompleted
  exact (hnothing "u" row "b" policy dep hrow hstate hpolicy hdep).1 hdone

end Conveyor
