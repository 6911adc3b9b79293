import Conveyor.Broker.Fencing

/-!
# Terminal states and the active state

A completed task should never change again, an archived one only by being made due, a canceled one
only by a lease-less archive, and an active one should leave its lease only through that lease, the
reaper or a lease-less archive. Dependency resolution is the exception: it cancels whatever still
carries a cascade-cancel edge to a failed task, without looking at the dependent's state. Where no
such edge reaches a completed, archived or active task, the states are final as intended.
-/

namespace Conveyor

open Lib

/-- A lease-scoped operation that carries this task and lease. -/
def Call.Carries (call : Call) (t L : String) : Prop :=
  call.settles = some (t, L) ∨ ∃ items, call = .ackBatch items ∧ ⟨t, L⟩ ∈ items

/-- The call is one that may change the state of this row of `t`. -/
def MayChange (now : Time) (call : Call) (t : String) (row : TaskRow) : Prop :=
  match row.state with
  | .completed => False
  | .archived => call = .runTaskNow t
  | .canceled => ∃ errMsg, call = .archive t "" errMsg
  | .active => call.Carries t row.leaseID ∨
      (∃ limit, call = .reapExpiredLeases limit ∧ row.leaseExpiresAt ≤ now) ∨
      ∃ errMsg, call = .archive t "" errMsg
  | _ => True

/-- The invocation changes no state it may not change, and removes no active task. -/
def TerminalFinal (b : Broker) (i : Invocation) : Prop :=
  ∀ t row, b.tasks.lookup t = some row →
    (∀ row', (b.after i).tasks.lookup t = some row' → row'.state ≠ row.state → MayChange i.now i.call t row) ∧
    (row.state = .active → (b.after i).tasks.lookup t ≠ none)

/-- The cascade of the invocation reaches no completed, archived or active task. -/
def NoFinalCascade (b : Broker) (i : Invocation) : Prop :=
  ∀ t row, CascadeReached b (b.seeds i) t → b.tasks.lookup t = some row →
    row.state ≠ .completed ∧ row.state ≠ .archived ∧ row.state ≠ .active

/-- The row is in the state the operation found it in, and if that is the active state, still under
the lease and expiry it found, an extension of the lease apart. -/
structure Unmoved (call : Call) (t : String) (before row : TaskRow) : Prop where
  state : row.state = before.state
  lease : before.state = .active → row.leaseID = before.leaseID
  expiry : before.state = .active → row.leaseExpiresAt = before.leaseExpiresAt ∨
    ∃ leaseID ttl, call = .extendLease t leaseID ttl

variable {before : TaskRow}

section Changes

variable {now : Time} {call : Call} {seeds : List String} {t : String}

/-- A row change keeps the state it finds, or may change it. -/
theorem RowChange.unmoved {row row' : TaskRow} (h : RowChange now t call row row') :
    MayChange now call t row ∨ Unmoved call t row row' := by
  cases h with
  | leased h => rcases leasable_state h with hs | hs <;> exact .inl (by simp [MayChange, hs])
  | groupLeased h => exact .inl (by simp [MayChange, groupLeasable_state h])
  | extended h => exact .inr ⟨rfl, fun _ => rfl, fun _ => .inr ⟨_, _, rfl⟩⟩
  | progressed h => exact .inr ⟨rfl, fun _ => rfl, fun _ => .inl rfl⟩
  | unclaimed h => exact .inr ⟨rfl, fun _ => rfl, fun _ => .inl rfl⟩
  | acked h => exact .inl (by simp [MayChange, h.1, h.2, Call.Carries, Call.settles])
  | batchAcked hitem h =>
    refine .inl ?_
    rw [MayChange, h.1]
    exact .inl (.inr ⟨_, rfl, h.2.symm ▸ hitem⟩)
  | failed h => exact .inl (by simp [MayChange, h.1, h.2, Call.Carries, Call.settles])
  | released h => exact .inl (by simp [MayChange, h.1, h.2, Call.Carries, Call.settles])
  | archived hlease h => exact .inl (by simp [MayChange, h.1, h.2, Call.Carries, Call.settles, hlease])
  | discarded h =>
    by_cases harchived : row.state = .archived
    · exact .inr ⟨harchived.symm, by simp [harchived], by simp [harchived]⟩
    · refine .inl ?_
      revert h harchived
      rw [MayChange]
      cases row.state <;> simp
  | reaped h =>
    simp only [reapable, Bool.and_eq_true, beq_iff_eq, decide_eq_true_eq] at h
    refine .inl ?_
    rw [MayChange, h.1]
    exact .inr (.inl ⟨_, rfl, h.2⟩)
  | due h => exact .inl (by simp [MayChange, promotable_state h])
  | expiredOut h =>
    simp only [archivable, dispatchable, Bool.and_eq_true, Bool.or_eq_true, beq_iff_eq] at h
    rcases h.1 with ((hs | hs) | hs) | hs <;> exact .inl (by simp [MayChange, hs])
  | promoted hcall hblocked hdeps => exact .inl (by simp [MayChange, hblocked])
  | canceled h =>
    refine .inl ?_
    revert h
    rw [MayChange]
    cases row.state <;> simp [cancelable]
  | ranNow h =>
    refine .inl ?_
    revert h
    rw [MayChange]
    cases row.state <;> simp [runnable]
  | rescheduled h =>
    refine .inl ?_
    revert h
    rw [MayChange]
    cases row.state <;> simp [reschedulable]
  | deadLettered h =>
    refine .inl ?_
    revert h
    rw [MayChange]
    cases row.state <;> simp [deadLetterable]

/-- What may change a row may change an unmoved one. -/
theorem MayChange.of_unmoved {row : TaskRow} (hunmoved : Unmoved call t before row)
    (h : MayChange now call t row) : MayChange now call t before := by
  rw [MayChange, hunmoved.state] at h
  rw [MayChange]
  cases hs : before.state with
  | active =>
    rw [hs] at h
    simp only [hunmoved.lease hs] at h ⊢
    rcases h with hcarries | ⟨limit, hcall, hexpired⟩ | hdiscard
    · exact .inl hcarries
    · rcases hunmoved.expiry hs with heq | ⟨leaseID, ttl, hextend⟩
      · exact .inr (.inl ⟨limit, hcall, heq ▸ hexpired⟩)
      · rw [hextend] at hcall
        cases hcall
    · exact .inr (.inr hdiscard)
  | _ =>
    rw [hs] at h
    exact h

/-- Two unmoved stages of one call compose. -/
theorem Unmoved.trans {row row' : TaskRow} (h : Unmoved call t before row)
    (h' : Unmoved call t row row') : Unmoved call t before row' := by
  refine ⟨h'.state.trans h.state, fun hs => ?_, fun hs => ?_⟩
  · exact (h'.lease (h.state.trans hs)).trans (h.lease hs)
  · rcases h'.expiry (h.state.trans hs) with heq' | hextend
    · exact (h.expiry hs).imp_left heq'.trans
    · exact .inr hextend

end Changes

section Runs

/-- Whether a call removes rows. -/
def Call.removes : Call → Bool
  | .deleteTask _ | .purgeTerminal _ _ => true
  | _ => false

/-- A resolving call removes no row. -/
theorem Call.removes_eq_false {call : Call} (h : call.resolves = true) : call.removes = false := by
  cases call <;> first | rfl | cases h

variable {b : Broker} {i : Invocation}

/-- No operation removes a task it finds active. -/
theorem active_stays_stored {t : String} (hbefore : b.tasks.lookup t = some before) (hactive : before.state = .active) :
    (b.after i).tasks.lookup t ≠ none := by
  have hinv : ∃ row, (b.after i).tasks.lookup t = some row ∧
      (i.call.removes = true → row.state = .active) := by
    apply after_induction (P := fun c => ∃ row, c.tasks.lookup t = some row ∧
      (i.call.removes = true → row.state = .active)) ⟨before, hbefore, fun _ => hactive⟩
    rintro c c' hstep ⟨row, hrow, hstays⟩
    have hview := hstep.row t
    rw [hrow] at hview
    generalize hstored : c'.tasks.lookup t = stored at hview
    cases hview with
    | same => exact ⟨row, rfl, hstays⟩
    | @changed _ row' hchange =>
      refine ⟨row', rfl, fun hremoves => ?_⟩
      generalize hcall : i.call = call at hchange hremoves hstays
      cases hchange with
      | unclaimed h => exact hstays rfl
      | promoted hresolves => simp [Call.removes_eq_false hresolves] at hremoves
      | _ => cases hremoves
    | satisfied hresolves => exact ⟨_, rfl, by simp [Call.removes_eq_false hresolves]⟩
    | cascaded hresolves => exact ⟨_, rfl, by simp [Call.removes_eq_false hresolves]⟩
    | deleted hcall _ hstate => exact absurd (hstays (by rw [hcall]; rfl)) hstate
    | purged hcall _ hpurgeable =>
      simp [purgeable, hstays (by rw [hcall]; rfl)] at hpurgeable
  obtain ⟨row, hrow, -⟩ := hinv
  rw [hrow]
  exact Option.some_ne_none row

/-- One operation whose cascade spares the final states changes no state it may not change. -/
theorem terminalFinal_of_noFinalCascade (hspared : NoFinalCascade b i) : TerminalFinal b i := by
  intro t before hbefore
  have hinv : MayChange i.now i.call t before ∨
      ((b.after i).tasks.lookup t = none ∧ i.call.enqueued = []) ∨
      ∃ row, (b.after i).tasks.lookup t = some row ∧ Unmoved i.call t before row := by
    apply after_induction (P := fun c => MayChange i.now i.call t before ∨
      (c.tasks.lookup t = none ∧ i.call.enqueued = []) ∨
      ∃ row, c.tasks.lookup t = some row ∧ Unmoved i.call t before row)
      (.inr (.inr ⟨before, hbefore, rfl, fun _ => rfl, fun _ => .inl rfl⟩))
    intro c c' hstep hc
    rcases hc with hmay | ⟨hnone, hcommits⟩ | ⟨row, hrow, hunmoved⟩
    · exact .inl hmay
    · have hview := hstep.row t
      rw [hnone] at hview
      generalize hstored : c'.tasks.lookup t = stored at hview
      cases hview with
      | same => exact .inr (.inl ⟨rfl, hcommits⟩)
      | created htask => simp [hcommits] at htask
    · have hview := hstep.row t
      rw [hrow] at hview
      generalize hstored : c'.tasks.lookup t = stored at hview
      cases hview with
      | same => exact .inr (.inr ⟨row, rfl, hunmoved⟩)
      | changed hchange =>
        rcases hchange.unmoved with hmay | hkept
        · exact .inl (hmay.of_unmoved hunmoved)
        · exact .inr (.inr ⟨_, rfl, hunmoved.trans hkept⟩)
      | satisfied =>
        exact .inr (.inr ⟨_, rfl, hunmoved.trans ⟨rfl, fun _ => rfl, fun _ => .inl rfl⟩⟩)
      | cascaded _ _ _ hreached =>
        obtain ⟨hcompleted, harchived, hactive⟩ := hspared t before hreached hbefore
        by_cases hcanceled : before.state = .canceled
        · exact .inr (.inr ⟨_, rfl, hcanceled.symm, by simp [hcanceled], by simp [hcanceled]⟩)
        · refine .inl ?_
          revert hcompleted harchived hactive hcanceled
          rw [MayChange]
          cases before.state <;> simp
      | deleted hcall => exact .inr (.inl ⟨rfl, by rw [hcall]; rfl⟩)
      | purged hcall => exact .inr (.inl ⟨rfl, by rw [hcall]; rfl⟩)
  refine ⟨fun row' hrow' hmoved => ?_, active_stays_stored hbefore⟩
  rcases hinv with hmay | ⟨hnone, -⟩ | ⟨row, hrow, hunmoved⟩
  · exact hmay
  · rw [hnone] at hrow'
    cases hrow'
  · cases hrow.symm.trans hrow'
    exact absurd hunmoved.state hmoved

/-- In every run whose cascades spare the completed, archived and active tasks, no invocation changes
a state it may not change. -/
theorem terminal_final (invocations : List Invocation) (b : Broker)
    (hspared : b.StepsMeet NoFinalCascade invocations) : b.StepsMeet TerminalFinal invocations := by
  induction invocations generalizing b with
  | nil => trivial
  | cons i rest ih => exact ⟨terminalFinal_of_noFinalCascade hspared.1, ih _ hspared.2⟩

/-- A store whose remaining edges all belong to blocked tasks has nothing final to reach. -/
theorem noFinalCascade_of_blocked
    (h : (b.tasks.entries.all fun entry => decide (entry.2.deps.keys = []) || entry.2.state == .blocked) = true) :
    NoFinalCascade b i := by
  intro t row hreached hrow
  have hedge : ∃ f, b.CascadeEdge f t := by
    cases hreached with
    | seed _ _ _ hedge => exact ⟨_, hedge⟩
    | next _ hedge => exact ⟨_, hedge⟩
  obtain ⟨f, -, row', hrow', hlookup⟩ := hedge
  cases hrow.symm.trans hrow'
  have hentry := List.all_eq_true.mp h ⟨t, row⟩ (AList.mem_lookup_iff.mp hrow)
  simp only [Bool.or_eq_true, decide_eq_true_eq, beq_iff_eq] at hentry
  rcases hentry with hnil | hblocked
  · rw [GoMap.lookup_eq_none_of_keys_nil hnil] at hlookup
    cases hlookup
  · rw [hblocked]
    exact ⟨nofun, nofun, nofun⟩

/-- A dependency is archived and its blocked dependent canceled with it. -/
def cascadingRun : List Invocation :=
  [⟨1, .enqueue { id := "a", queue := "q" }, {}⟩,
   ⟨2, .enqueue { id := "t", queue := "q", options := { dependsOn := [⟨"a", .cascadeCancel⟩] } }, {}⟩,
   ⟨3, .archiveTask "a", {}⟩,
   ⟨4, .resolveDependents "a", {}⟩]

/-- The cascade of the run only reaches the blocked dependent, and every state change is allowed. -/
theorem terminal_final_cascading :
    Broker.empty.StepsMeet NoFinalCascade cascadingRun ∧
    ((Broker.empty.run cascadingRun).tasks.lookup "t").map TaskRow.state = some .canceled ∧
    Broker.empty.StepsMeet TerminalFinal cascadingRun := by
  have hspared : Broker.empty.StepsMeet NoFinalCascade cascadingRun :=
    ⟨noFinalCascade_of_blocked (by decide), noFinalCascade_of_blocked (by decide),
      noFinalCascade_of_blocked (by decide), noFinalCascade_of_blocked (by decide), trivial⟩
  exact ⟨hspared, by decide, terminal_final cascadingRun Broker.empty hspared⟩

/-- A blocked task is archived, made due, run and completed, all while it keeps its edge; then its
dependency is canceled. -/
def staleEdgeRun : List Invocation :=
  [⟨1, .enqueue { id := "a", queue := "p" }, {}⟩,
   ⟨2, .enqueue { id := "t", queue := "q", options := { dependsOn := [⟨"a", .cascadeCancel⟩] } }, {}⟩,
   ⟨3, .archiveTask "t", {}⟩,
   ⟨4, .runTaskNow "t", {}⟩,
   ⟨5, .lease "q" 1 5 "L1", {}⟩,
   ⟨6, .ack "t" "L1", {}⟩,
   ⟨7, .cancelTask "a", {}⟩,
   ⟨8, .resolveDependents "a", {}⟩]

/-- The completed task is canceled by the resolution of its dependency. -/
theorem terminal_final_stale_edge : ¬ Broker.empty.StepsMeet TerminalFinal staleEdgeRun := by
  rintro ⟨-, -, -, -, -, -, -, hlast, -⟩
  have hbefore : ((Broker.empty.run (staleEdgeRun.take 7)).tasks.lookup "t").map TaskRow.state =
      some .completed := by decide
  have hafter : ((Broker.empty.run staleEdgeRun).tasks.lookup "t").map TaskRow.state = some .canceled := by decide
  obtain ⟨row, hrow, hstate⟩ := Option.map_eq_some_iff.mp hbefore
  obtain ⟨row', hrow', hstate'⟩ := Option.map_eq_some_iff.mp hafter
  have hmay := (hlast "t" row hrow).1 row' hrow' (by rw [hstate, hstate']; nofun)
  rw [MayChange, hstate] at hmay
  exact hmay

end Runs

end Conveyor
