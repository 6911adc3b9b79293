import Conveyor.Broker.Exec

/-!
# The reverse dependency index

Edges are kept twice: in the row of the dependent, and in an index from a dependency to the tasks that
wait on it. A row may outlive its records in the index, but a record never outlives its edge, and the
records of a blocked row are complete. Purging is the one operation that removes rows without looking
at their edges; it clears the records of the rows it may remove first.
-/

namespace Conveyor

open Lib

/-- Every record has its edge, a blocked row has all its records, and no entry is empty. -/
structure Broker.Linked (b : Broker) : Prop where
  listed : ∀ d t, t ∈ b.waiters d → ∃ row, b.tasks.lookup t = some row ∧ d ∈ row.deps
  recorded : ∀ t row, b.tasks.lookup t = some row → row.state = .blocked → ∀ d ∈ row.deps, t ∈ b.waiters d
  nonempty : ∀ d waiters, b.dependents.lookup d = some waiters → waiters.keys ≠ []

/-- Every blocked row has an edge left. -/
def Broker.Waiting (b : Broker) : Prop :=
  ∀ t row, b.tasks.lookup t = some row → row.state = .blocked → row.deps.keys ≠ []

variable {t : String}

section Records

variable {b : Broker}

/-- No entry of the index is empty. -/
def Broker.Nonempty (b : Broker) : Prop := ∀ d waiters, b.dependents.lookup d = some waiters → waiters.keys ≠ []

/-- No entry is empty after a record is added. -/
theorem addDependent_nonempty (h : b.Nonempty) (d t : String) : (b.addDependent d t).Nonempty := by
  intro d' waiters hentry
  rw [Broker.addDependent, GoMap.lookup_insert_eq_ite] at hentry
  split at hentry
  · cases hentry
    exact List.ne_nil_of_mem (AList.mem_keys.mp ((AList.mem_insert _).mpr (.inl rfl)))
  · exact h d' waiters hentry

/-- No entry is empty after a record is cleared. -/
theorem removeDependent_nonempty (h : b.Nonempty) (d t : String) : (b.removeDependent d t).Nonempty := by
  intro d' waiters hentry
  rw [Broker.removeDependent] at hentry
  cases hd : b.dependents.lookup d with
  | none =>
    rw [hd] at hentry
    exact h d' waiters hentry
  | some records =>
    simp only [hd] at hentry
    split at hentry
    · exact h d' waiters (GoMap.lookup_of_lookup_erase hentry)
    · rename_i hleft
      simp only [GoMap.lookup_insert_eq_ite] at hentry
      split at hentry
      · cases hentry
        exact hleft
      · exact h d' waiters hentry

theorem removeDependents_nonempty (edges : List String) (t : String) (h : b.Nonempty) :
    (b.removeDependents edges t).Nonempty := by
  induction edges generalizing b with
  | nil => exact h
  | cons edge rest ih => exact ih (removeDependent_nonempty h edge t)

/-- Clearing the records of one task on the given dependencies. -/
theorem mem_waiters_removeDependents_self (edges : List String) {d : String} :
    t ∈ (b.removeDependents edges t).waiters d ↔ d ∉ edges ∧ t ∈ b.waiters d := by
  induction edges generalizing b with
  | nil => simp [Broker.removeDependents]
  | cons edge rest ih =>
    have hstep := Broker.mem_waiters_removeDependent b edge t d t
    rw [Broker.removeDependents, List.foldl_cons]
    refine (ih (b := b.removeDependent edge t)).trans ?_
    rw [hstep, List.mem_cons, not_or]
    constructor
    · rintro ⟨hrest, hne, hmem⟩
      exact ⟨⟨fun heq => hne ⟨heq, rfl⟩, hrest⟩, hmem⟩
    · rintro ⟨⟨hne, hrest⟩, hmem⟩
      exact ⟨hrest, fun heq => hne heq.1, hmem⟩

/-- The records after a staged task was applied. -/
theorem mem_waiters_applyStaged (staged : StagedTask) (now : Time) (d t : String) :
    t ∈ (b.applyStaged staged now).waiters d ↔ (d ∈ staged.row.deps ∧ t = staged.id) ∨ t ∈ b.waiters d := by
  have hfold : ∀ (depIDs : List String) (c : Broker),
      t ∈ (depIDs.foldl (fun b depID => b.addDependent depID staged.id) c).waiters d ↔
        (d ∈ depIDs ∧ t = staged.id) ∨ t ∈ c.waiters d := by
    intro depIDs
    induction depIDs with
    | nil => simp
    | cons depID rest ih =>
      intro c
      rw [List.foldl_cons, ih, Broker.mem_waiters_addDependent, List.mem_cons]
      tauto
  rw [Broker.applyStaged, Broker.waiters_congr (Broker.emit_dependents _ _ _ _ _ _),
    Broker.waiters_congr (Broker.setRow_dependents _ _ _), hfold, ← AList.mem_keys]

theorem applyStaged_nonempty (staged : StagedTask) (now : Time) (h : b.Nonempty) :
    (b.applyStaged staged now).Nonempty := by
  rw [Broker.Nonempty, Broker.applyStaged, Broker.emit_dependents, Broker.setRow_dependents]
  exact List.foldlRecOn (motive := Broker.Nonempty) _ _ h fun c hc depID _ => addDependent_nonempty hc depID staged.id

end Records

variable {row : TaskRow}

section Steps

variable {now : Time} {call : Call} {seeds : List String} {base b b' : Broker}

/-- A row change keeps the edges and blocks nothing. -/
theorem RowChange.edges {row' : TaskRow} (h : RowChange now t call row row') :
    row'.deps = row.deps ∧ (row'.state = .blocked → row.state = .blocked) := by
  cases h with
  | reaped h =>
    rw [TaskRow.reaped]
    split <;> exact ⟨rfl, by rintro ⟨⟩⟩
  | promoted hcall hstate hdeps => exact ⟨rfl, fun _ => hstate⟩
  | rescheduled h =>
    refine ⟨rfl, fun hblocked => ?_⟩
    simp only [TaskRow.rescheduled] at hblocked
    split_ifs at hblocked
  | extended h => exact ⟨rfl, id⟩
  | progressed h => exact ⟨rfl, id⟩
  | unclaimed h => exact ⟨rfl, id⟩
  | _ => exact ⟨rfl, by rintro ⟨⟩⟩

/-- A new row is blocked only on edges. -/
theorem stagedTask_waiting (base : Broker) (task : TaskEnvelope) (now : Time)
    (h : (base.stagedTask task now).row.state = .blocked) : (base.stagedTask task now).row.deps.keys ≠ [] := by
  have hstate : Broker.initialState task.options.group (task.options.processAt.getD now) now
      (base.resolveInitialDeps task.id task.options.dependsOn).1
      (base.resolveInitialDeps task.id task.options.dependsOn).2 = .blocked := h
  intro hnil
  have hdeps : (base.resolveInitialDeps task.id task.options.dependsOn).1.keys = [] := hnil
  rw [Broker.initialState] at hstate
  split_ifs at hstate with _ hne
  exact hne hdeps

namespace Broker.Linked

/-- Records and edges that change together stay together. -/
theorem of_rows (h : b.Linked) (hdependents : b'.dependents = b.dependents)
    (hrows : ∀ t row', b'.tasks.lookup t = some row' → row'.state = .blocked →
      ∃ row, b.tasks.lookup t = some row ∧ row.state = .blocked ∧ row'.deps = row.deps)
    (hstored : ∀ t row d, b.tasks.lookup t = some row → t ∈ b.waiters d → d ∈ row.deps →
      ∃ row', b'.tasks.lookup t = some row' ∧ d ∈ row'.deps) : b'.Linked where
  listed d t ht := by
    rw [Broker.waiters_congr hdependents] at ht
    obtain ⟨row, hrow, hd⟩ := h.listed d t ht
    exact hstored t row d hrow ht hd
  recorded t row' hrow' hblocked d hd := by
    obtain ⟨row, hrow, hstate, hdeps⟩ := hrows t row' hrow' hblocked
    rw [Broker.waiters_congr hdependents]
    exact h.recorded t row hrow hstate d (hdeps ▸ hd)
  nonempty d waiters hentry := h.nonempty d waiters (hdependents ▸ hentry)

/-- One row is replaced by one with the same edges. -/
theorem change (h : b.Linked) {row' : TaskRow} (hrow : b.tasks.lookup t = some row)
    (hchange : RowChange now t call row row') : (b.transition t row row' now).Linked := by
  obtain ⟨hdeps, hblocked⟩ := hchange.edges
  refine h.of_rows (Broker.transition_dependents _ _ _ _ _) (fun t' row₁ hrow₁ hstate => ?_)
    fun t' row₁ d hrow₁ _ hd => ?_
  · rw [Broker.transition_tasks, GoMap.lookup_insert_eq_ite] at hrow₁
    split at hrow₁
    · rename_i heq
      subst heq
      cases hrow₁
      exact ⟨row, hrow, hblocked hstate, hdeps⟩
    · exact ⟨row₁, hrow₁, hstate, rfl⟩
  · rw [Broker.transition_tasks, GoMap.lookup_insert_eq_ite]
    split_ifs with heq
    · subst heq
      cases hrow.symm.trans hrow₁
      exact ⟨row', rfl, hdeps ▸ hd⟩
    · exact ⟨row₁, hrow₁, hd⟩

/-- A staged task comes with the records of its edges. -/
theorem create (h : b.Linked) (task : TaskEnvelope) (hfresh : b.tasks.lookup task.id = none) :
    (b.applyStaged (base.stagedTask task now) now).Linked where
  listed d t ht := by
    rw [mem_waiters_applyStaged] at ht
    rw [Broker.applyStaged_tasks, GoMap.lookup_insert_eq_ite]
    rcases ht with ⟨hd, rfl⟩ | ht
    · exact ⟨_, if_pos rfl, hd⟩
    · obtain ⟨row, hrow, hd⟩ := h.listed d t ht
      refine ⟨row, ?_, hd⟩
      rw [if_neg, hrow]
      rintro rfl
      exact absurd (hfresh.symm.trans hrow) nofun
  recorded t row hrow hblocked d hd := by
    rw [mem_waiters_applyStaged]
    rw [Broker.applyStaged_tasks, GoMap.lookup_insert_eq_ite] at hrow
    split at hrow
    · rename_i heq
      cases hrow
      exact .inl ⟨hd, heq⟩
    · exact .inr (h.recorded t row hrow hblocked d hd)
  nonempty := applyStaged_nonempty _ now h.nonempty

/-- An edge and its record go together. -/
theorem satisfy (h : b.Linked) {f d : String} (hrow : b.tasks.lookup d = some row) :
    ((b.setRow d (row.satisfied f)).removeDependent f d).Linked where
  listed f' t ht := by
    rw [Broker.mem_waiters_removeDependent, Broker.waiters_congr (Broker.setRow_dependents _ _ _)] at ht
    obtain ⟨hne, ht⟩ := ht
    obtain ⟨row', hrow', hf'⟩ := h.listed f' t ht
    rw [Broker.removeDependent_tasks, Broker.setRow_tasks, GoMap.lookup_insert_eq_ite]
    split_ifs with heq
    · subst heq
      cases hrow.symm.trans hrow'
      exact ⟨_, rfl, AList.mem_erase.mpr ⟨fun hff => hne ⟨hff, rfl⟩, hf'⟩⟩
    · exact ⟨row', hrow', hf'⟩
  recorded t row' hrow' hblocked f' hf' := by
    rw [Broker.mem_waiters_removeDependent, Broker.waiters_congr (Broker.setRow_dependents _ _ _)]
    rw [Broker.removeDependent_tasks, Broker.setRow_tasks, GoMap.lookup_insert_eq_ite] at hrow'
    split at hrow'
    · rename_i heq
      subst heq
      cases hrow'
      obtain ⟨hne, hf'⟩ := AList.mem_erase.mp hf'
      exact ⟨fun hboth => hne hboth.1, h.recorded t row hrow hblocked f' hf'⟩
    · rename_i hne
      exact ⟨fun hboth => hne hboth.2, h.recorded t row' hrow' hblocked f' hf'⟩
  nonempty := removeDependent_nonempty (b := b.setRow d (row.satisfied f)) h.nonempty f d

variable {edges : List String}

/-- A row is taken away, or loses all its edges, together with its records. -/
theorem unlink (h : b.Linked) (hrow : b.tasks.lookup t = some row) (hedges : ∀ d ∈ row.deps, d ∈ edges)
    (hdependents : b'.dependents = (b.removeDependents edges t).dependents)
    (hothers : ∀ t', t' ≠ t → b'.tasks.lookup t' = b.tasks.lookup t')
    (hself : ∀ row', b'.tasks.lookup t = some row' → row'.state ≠ .blocked) : b'.Linked where
  listed d t' ht' := by
    rw [Broker.waiters_congr hdependents] at ht'
    rcases eq_or_ne t' t with rfl | heq
    · obtain ⟨hnot, hwaits⟩ := (mem_waiters_removeDependents_self edges).mp ht'
      obtain ⟨row', hrow', hd⟩ := h.listed d t' hwaits
      cases hrow.symm.trans hrow'
      exact absurd (hedges d hd) hnot
    · rw [Broker.mem_waiters_removeDependents _ _ heq] at ht'
      rw [hothers t' heq]
      exact h.listed d t' ht'
  recorded t' row' hrow' hblocked d hd := by
    have hne : t' ≠ t := by
      rintro rfl
      exact hself row' hrow' hblocked
    rw [Broker.waiters_congr hdependents, Broker.mem_waiters_removeDependents _ _ hne]
    exact h.recorded t' row' (hothers t' hne ▸ hrow') hblocked d hd
  nonempty := by
    rw [hdependents]
    exact removeDependents_nonempty edges t h.nonempty

/-- A canceled dependent loses its edges and its records. -/
theorem cascade (h : b.Linked) (now : Time) {d : String} (hrow : b.tasks.lookup d = some row)
    (hedges : ∀ k, k ∈ edges ↔ k ∈ row.deps) :
    ((b.removeDependents edges d).transition d row (row.cascaded now) now).Linked := by
  refine h.unlink hrow (fun k hk => (hedges k).mpr hk) (Broker.transition_dependents _ _ _ _ _)
    (fun t' hne => ?_) fun row' hrow' => ?_
  · rw [Broker.transition_tasks, Broker.removeDependents_tasks, AList.lookup_insert_ne hne]
  · rw [Broker.transition_tasks, AList.lookup_insert] at hrow'
    cases hrow'
    nofun

/-- A record that is no longer needed is cleared. -/
theorem unindex (h : b.Linked) {f d : String}
    (hstale : ∀ row, b.tasks.lookup d = some row →
      row.deps.lookup f = none ∨ incomplete row.state = false) : (b.removeDependent f d).Linked where
  listed f' t ht := by
    rw [Broker.mem_waiters_removeDependent] at ht
    rw [Broker.removeDependent_tasks]
    exact h.listed f' t ht.2
  recorded t row hrow hblocked f' hf' := by
    rw [Broker.removeDependent_tasks] at hrow
    rw [Broker.mem_waiters_removeDependent]
    refine ⟨?_, h.recorded t row hrow hblocked f' hf'⟩
    rintro ⟨rfl, rfl⟩
    rcases hstale row hrow with hnone | hcomplete
    · obtain ⟨policy, hpolicy⟩ := GoMap.lookup_of_mem hf'
      rw [hnone] at hpolicy
      cases hpolicy
    · rw [hblocked] at hcomplete
      cases hcomplete
  nonempty := removeDependent_nonempty h.nonempty f d

end Broker.Linked

/-- Every elementary step but the removal of a purged row keeps edges and records together. -/
theorem StoreStep.linked (hstep : StoreStep now call seeds base b b') (h : b.Linked)
    (hpurge : ∀ archiveRetention limit, call ≠ .purgeTerminal archiveRetention limit) : b'.Linked := by
  cases hstep with
  | create hcall hfresh hkey => exact h.create _ hfresh
  | change hrow hchange => exact h.change hrow hchange
  | satisfy hcall hfinished hterminal hwaits hrow hedge hpolicy => exact h.satisfy hrow
  | cascade hcall hfinished hfailed hreached hrow hedge hedges => exact h.cascade now hrow hedges
  | unindex hstale => exact h.unindex hstale
  | @delete t row hcall hrow hwaiting hstate =>
    refine h.unlink hrow (fun k hk => AList.mem_keys.mp hk) rfl (fun t' hne => ?_) fun row' hrow' => ?_
    · rw [AList.lookup_erase_ne hne, Broker.removeDependents_tasks]
    · rw [AList.lookup_erase] at hrow'
      cases hrow'
  | purge hcall => exact absurd hcall (hpurge _ _)
  | settings htasks hdependents hevents =>
    refine h.of_rows hdependents (fun t row hrow hblocked => ?_) fun t row d hrow _ hd => ?_
    · exact ⟨row, htasks ▸ hrow, hblocked, rfl⟩
    · exact ⟨row, htasks ▸ hrow, hd⟩

end Steps

section Purge

variable {b : Broker}

/-- The task is stored and has not ended. -/
def Broker.Incomplete (b : Broker) (t : String) : Prop :=
  ∃ row, b.tasks.lookup t = some row ∧ incomplete row.state = true

/-- Clearing stale records leaves exactly the records of incomplete waiters. -/
theorem mem_waiters_dropStaleWaiters (d : String) (ids : List String) (d' t : String) :
    t ∈ (b.dropStaleWaiters d ids).waiters d' ↔ t ∈ b.waiters d' ∧ (d' = d → t ∈ ids → b.Incomplete t) := by
  induction ids generalizing b with
  | nil => simp [Broker.dropStaleWaiters]
  | cons id rest ih =>
    -- the record of the first waiter stays when the waiter is incomplete
    have hkept : b.Incomplete id → (t ∈ (b.dropStaleWaiters d rest).waiters d' ↔
        t ∈ b.waiters d' ∧ (d' = d → t ∈ id :: rest → b.Incomplete t)) := by
      intro hincomplete
      rw [ih]
      refine and_congr_right fun _ => ⟨fun h heq hmem => ?_, fun h heq hmem => ?_⟩
      · rcases List.mem_cons.mp hmem with rfl | hmem
        · exact hincomplete
        · exact h heq hmem
      · exact h heq (.tail id hmem)
    have hcleared : ¬b.Incomplete id →
        (t ∈ ((b.removeDependent d id).dropStaleWaiters d rest).waiters d' ↔
          t ∈ b.waiters d' ∧ (d' = d → t ∈ id :: rest → b.Incomplete t)) := by
      intro hstale
      have hsame : (b.removeDependent d id).Incomplete t ↔ b.Incomplete t := by
        rw [Broker.Incomplete, Broker.Incomplete, Broker.removeDependent_tasks]
      rw [ih, Broker.mem_waiters_removeDependent, hsame]
      constructor
      · rintro ⟨⟨hne, hmem⟩, hrest⟩
        refine ⟨hmem, fun heq hin => ?_⟩
        rcases List.mem_cons.mp hin with rfl | hin
        · exact absurd ⟨heq, rfl⟩ hne
        · exact hrest heq hin
      · rintro ⟨hmem, hall⟩
        refine ⟨⟨?_, hmem⟩, fun heq hin => hall heq (.tail id hin)⟩
        rintro ⟨heq, rfl⟩
        exact hstale (hall heq (.head _))
    rw [Broker.dropStaleWaiters]
    cases hrow : b.tasks.lookup id with
    | none => exact hcleared (by simp [Broker.Incomplete, hrow])
    | some row =>
      dsimp only
      split
      · rename_i hincomplete
        exact hkept ⟨row, hrow, hincomplete⟩
      · rename_i hcomplete
        exact hcleared (by simpa [Broker.Incomplete, hrow] using hcomplete)

@[simp] theorem dropStaleWaiters_tasks (d : String) (ids : List String) :
    (b.dropStaleWaiters d ids).tasks = b.tasks := by
  induction ids generalizing b with
  | nil => rfl
  | cons id rest ih =>
    rw [Broker.dropStaleWaiters]
    cases b.tasks.lookup id with
    | none => rw [ih, Broker.removeDependent_tasks]
    | some row =>
      dsimp only
      split
      · exact ih
      · rw [ih, Broker.removeDependent_tasks]

/-- After the records were cleared, only incomplete tasks are recorded as waiting. -/
theorem dropTerminalDependentEdges_incomplete (b : Broker) {d : String}
    (h : t ∈ b.dropTerminalDependentEdges.waiters d) : b.dropTerminalDependentEdges.Incomplete t := by
  -- the loop over the recorded dependencies: what it has visited is clean, what it has not is as before
  have hloop : ∀ (ids : List String) (c : Broker), c.tasks = b.tasks →
      (∀ d t, t ∈ c.waiters d → t ∈ b.waiters d ∧ (d ∈ ids ∨ b.Incomplete t)) →
      let c' := ids.foldl (fun b d => b.dropStaleWaiters d (b.waiters d).keys) c
      c'.tasks = b.tasks ∧ ∀ d t, t ∈ c'.waiters d → b.Incomplete t := by
    intro ids
    induction ids with
    | nil =>
      intro c htasks hc
      exact ⟨htasks, fun d t ht => ((hc d t ht).2).resolve_left List.not_mem_nil⟩
    | cons id rest ih =>
      intro c htasks hc
      refine ih (c.dropStaleWaiters id (c.waiters id).keys) (by simpa using htasks) fun d t ht => ?_
      obtain ⟨hmem, hstale⟩ := (mem_waiters_dropStaleWaiters id _ d t).mp ht
      obtain ⟨hold, hor⟩ := hc d t hmem
      refine ⟨hold, ?_⟩
      rcases hor with hin | hincomplete
      · rcases List.mem_cons.mp hin with rfl | hin
        · obtain ⟨row, hrow, hincomplete⟩ := hstale rfl (AList.mem_keys.mp hmem)
          exact .inr ⟨row, htasks ▸ hrow, hincomplete⟩
        · exact .inl hin
      · exact .inr hincomplete
  have hvisited : ∀ d t, t ∈ b.waiters d → t ∈ b.waiters d ∧ (d ∈ b.dependents.keys ∨ b.Incomplete t) := by
    intro d t ht
    refine ⟨ht, .inl ?_⟩
    rw [Broker.waiters] at ht
    cases hentry : b.dependents.lookup d with
    | none =>
      rw [hentry, Option.getD_none] at ht
      exact absurd ht (AList.notMem_empty t)
    | some waiters => exact AList.mem_keys.mp (GoMap.mem_of_lookup hentry)
  obtain ⟨htasks, hclean⟩ := hloop b.dependents.keys b rfl hvisited
  obtain ⟨row, hrow, hincomplete⟩ := hclean d t h
  exact ⟨row, htasks ▸ hrow, hincomplete⟩

/-- A purgeable row has ended. -/
theorem incomplete_of_purgeable {now : Time} {archiveRetention : Duration}
    (h : purgeable row now archiveRetention = true) : incomplete row.state = false := by
  rw [purgeable] at h
  split at h
  · rename_i hstate
    rw [hstate]
    rfl
  · rename_i hstate
    rw [hstate]
    rfl
  · rename_i hstate
    rw [hstate]
    rfl
  · cases h

/-- Edges and records are consistent, and only incomplete tasks are recorded. -/
structure Broker.Swept (b : Broker) : Prop extends b.Linked where
  incomplete : ∀ d t, t ∈ b.waiters d → b.Incomplete t

variable {now : Time} {seeds : List String} {base b' : Broker} {archiveRetention : Duration} {limit : Int}

/-- Once the stale records are cleared, a purged row has no record to leave behind. -/
theorem StoreStep.swept (hstep : StoreStep now (.purgeTerminal archiveRetention limit) seeds base b b') (h : b.Swept) :
    b'.Swept := by
  cases hstep with
  | create hcall => cases hcall
  | satisfy hcall => cases hcall
  | cascade hcall => cases hcall
  | delete hcall => cases hcall
  | @change t row row' hrow hchange =>
    refine ⟨h.change hrow hchange, fun d t' ht' => ?_⟩
    rw [Broker.waiters_congr (Broker.transition_dependents _ _ _ _ _)] at ht'
    obtain ⟨row₁, hrow₁, hincomplete⟩ := h.incomplete d t' ht'
    rw [Broker.Incomplete, Broker.transition_tasks, GoMap.lookup_insert_eq_ite]
    split_ifs with heq
    · subst heq
      cases hrow.symm.trans hrow₁
      -- a purge changes a row only by dropping its claim
      cases hchange with
      | unclaimed => exact ⟨_, rfl, hincomplete⟩
      | promoted hcall => cases hcall
    · exact ⟨row₁, hrow₁, hincomplete⟩
  | unindex hstale =>
    refine ⟨h.unindex hstale, fun d t ht => ?_⟩
    rw [Broker.mem_waiters_removeDependent] at ht
    rw [Broker.Incomplete, Broker.removeDependent_tasks]
    exact h.incomplete d t ht.2
  | @purge t row _ _ hcall hrow hdependents hpurgeable =>
    have hothers : ∀ d t', t' ∈ b.waiters d → t' ≠ t := by
      rintro d t' ht' rfl
      obtain ⟨row', hrow', hincomplete⟩ := h.incomplete d t' ht'
      cases hrow.symm.trans hrow'
      rw [incomplete_of_purgeable hpurgeable] at hincomplete
      cases hincomplete
    refine ⟨⟨fun d t' ht' => ?_, fun t' row' hrow' hblocked d hd => ?_, h.nonempty⟩, fun d t' ht' => ?_⟩
    · obtain ⟨row', hrow', hd⟩ := h.listed d t' ht'
      exact ⟨row', (AList.lookup_erase_ne (hothers d t' ht')).trans hrow', hd⟩
    · exact h.recorded t' row' (GoMap.lookup_of_lookup_erase hrow') hblocked d hd
    · obtain ⟨row', hrow', hincomplete⟩ := h.incomplete d t' ht'
      exact ⟨row', (AList.lookup_erase_ne (hothers d t' ht')).trans hrow', hincomplete⟩
  | settings htasks hdependents hevents =>
    refine ⟨h.of_rows hdependents (fun t row hrow hblocked => ?_) fun t row d hrow _ hd => ?_, fun d t ht => ?_⟩
    · exact ⟨row, htasks ▸ hrow, hblocked, rfl⟩
    · exact ⟨row, htasks ▸ hrow, hd⟩
    · rw [Broker.waiters_congr hdependents] at ht
      rw [Broker.Incomplete, htasks]
      exact h.incomplete d t ht

/-- A purge keeps edges and records together. -/
theorem purgeTerminal_linked (h : b.Linked) (tasks : MapOrder String) :
    (b.purgeTerminal now tasks archiveRetention limit).1.Linked := by
  rw [Broker.purgeTerminal]
  split
  · exact h
  · have hcleared : b.dropTerminalDependentEdges.Linked := by
      have hsteps : StoreSteps now (.setQueuePaused "" false) [] b b b.dropTerminalDependentEdges :=
        dropTerminalDependentEdges_steps b
      generalize b.dropTerminalDependentEdges = c at hsteps
      induction hsteps with
      | refl => exact h
      | tail _ hlast ih => exact hlast.linked ih fun _ _ => by rintro ⟨⟩
    have hswept : b.dropTerminalDependentEdges.Swept :=
      ⟨hcleared, fun _ _ ht => dropTerminalDependentEdges_incomplete b ht⟩
    have hsteps : StoreSteps now (.purgeTerminal archiveRetention limit) [] b
        b.dropTerminalDependentEdges (Broker.purge now archiveRetention limit.toNat
          (tasks.visit b.dropTerminalDependentEdges.tasks) 0 0 b.dropTerminalDependentEdges).1 :=
      purge_steps _ _ _ _
    have hall : ∀ c, StoreSteps now (.purgeTerminal archiveRetention limit) [] b
        b.dropTerminalDependentEdges c → c.Swept := by
      intro c hc
      induction hc with
      | refl => exact hswept
      | tail _ hlast ih => exact hlast.swept ih
    exact (hall _ hsteps).toLinked

/-- Every operation keeps edges and records together. -/
theorem after_linked (h : b.Linked) (i : Invocation) : (b.after i).Linked := by
  by_cases hpurge : ∃ archiveRetention limit, i.call = .purgeTerminal archiveRetention limit
  · obtain ⟨archiveRetention, limit, hcall⟩ := hpurge
    rw [Broker.after, Broker.exec, hcall]
    exact purgeTerminal_linked h i.order.tasks
  · refine after_induction h fun c c' hstep hc => hstep.linked hc fun archiveRetention limit hcall => ?_
    exact hpurge ⟨archiveRetention, limit, hcall⟩

end Purge

section Waiting

variable {b : Broker} {now : Time}

/-- Outside of resolution, a row is blocked only from its creation on, and keeps its edges. -/
theorem StoreStep.waiting {call : Call} {seeds : List String} {base b' : Broker}
    (hstep : StoreStep now call seeds base b b') (hcall : call.resolves = false) (h : b.Waiting) : b'.Waiting := by
  intro t row' hrow' hblocked
  have hview := hstep.row t
  rw [hrow'] at hview
  generalize hstored : b.tasks.lookup t = stored at hview
  cases hview with
  | same => exact h t row' hstored hblocked
  | created => exact stagedTask_waiting base _ now hblocked
  | changed hchange =>
    obtain ⟨hdeps, hbefore⟩ := hchange.edges
    rw [hdeps]
    exact h t _ hstored (hbefore hblocked)
  | satisfied hresolves => simp [hcall] at hresolves
  | cascaded hresolves => simp [hcall] at hresolves

/-- Promoting a row leaves it unblocked or with its edges. -/
theorem promoteIfReady_waiting {id : String}
    (hothers : ∀ t row', t ≠ id → b.tasks.lookup t = some row' → row'.state = .blocked → row'.deps.keys ≠ [])
    (hrow : b.tasks.lookup id = some row) : (b.promoteIfReady id row now).1.Waiting := by
  intro t row' hrow' hblocked
  rcases eq_or_ne t id with rfl | hne
  · rw [Broker.promoteIfReady] at hrow'
    split at hrow'
    · rename_i hstays
      cases hrow.symm.trans hrow'
      exact hstays.resolve_left fun hstate => hstate hblocked
    · rw [Broker.transition_tasks, AList.lookup_insert] at hrow'
      cases hrow'
      simp only [TaskRow.promoted] at hblocked
      split_ifs at hblocked
  · rw [Broker.promoteIfReady_lookup_ne hne] at hrow'
    exact hothers t row' hne hrow' hblocked

/-- Handling one waiter promotes it when its last edge goes. -/
theorem Resolution.resolveEdge_waiting (order : ResolveOrder) (f : String) (failed : Bool) (r : Resolution) (d : String)
    (h : r.store.Waiting) : (Resolution.resolveEdge order now f failed r d).store.Waiting := by
  have houtcome := resolveEdge_outcome order now f failed r d
  generalize resolveEdge order now f failed r d = r' at houtcome ⊢
  cases houtcome with
  | stale _ =>
    intro t row hrow
    rw [Broker.removeDependent_tasks] at hrow
    exact h t row hrow
  | blocked _ => exact h
  | @cascaded row hrow hfailed hedge =>
    intro t row' hrow' hblocked
    rw [Broker.transition_tasks, Broker.removeDependents_tasks, GoMap.lookup_insert_eq_ite] at hrow'
    split at hrow'
    · cases hrow'
      cases hblocked
    · exact h t row' hrow' hblocked
  | @satisfied row policy hrow hedge hpolicy queues =>
    refine promoteIfReady_waiting (fun t row' hne hrow' hblocked => ?_) (by simp)
    rw [Broker.removeDependent_tasks, Broker.setRow_tasks, AList.lookup_insert_ne hne] at hrow'
    exact h t row' hrow' hblocked

variable {P : Broker → Prop}

/-- What the handling of one waiter preserves, working off the worklist preserves. -/
theorem Resolution.drain_induction (order : ResolveOrder)
    (hedge : ∀ f failed r d, P r.store → P (Resolution.resolveEdge order now f failed r d).store)
    (fuel : Nat) (r : Resolution) (h : P r.store) : P (Resolution.drain order now fuel r).store := by
  have hfold : ∀ (f : String) (failed : Bool) (ds : List String) (r : Resolution), P r.store →
      P (ds.foldl (resolveEdge order now f failed) r).store :=
    fun f failed ds r hr => List.foldlRecOn (motive := fun r => P r.store) ds _ hr fun r hr d _ => hedge f failed r d hr
  induction fuel generalizing r with
  | zero => exact h
  | succ fuel ih =>
    rw [drain]
    split
    · exact h
    · apply ih
      rw [resolveFinished]
      split
      · exact h
      · dsimp only
        split
        · exact h
        · split
          · exact hfold _ _ _ _ h
          · exact h

/-- What the handling of one waiter preserves, resolving several finished tasks preserves. -/
theorem resolveAll_induction
    (hedge : ∀ order f failed r d, P r.store → P (Resolution.resolveEdge order now f failed r d).store)
    (order : String → ResolveOrder) (depIDs : List String) (queues : GoSet String) (h : P b) :
    P (Broker.resolveAll order now depIDs (b, queues)).1 := by
  induction depIDs generalizing b queues with
  | nil => exact h
  | cons depID rest ih =>
    exact ih _ (Resolution.drain_induction (order depID) (hedge (order depID)) _
      { store := b, worklist := [depID] } h)

/-- What one promotion preserves, the closing sweep preserves. -/
theorem promoteAll_induction
    (hpromote : ∀ (b : Broker) id row, b.tasks.lookup id = some row → P b → P (b.promoteIfReady id row now).1)
    (ids : List String) (queues : GoSet String) (h : P b) : P (Broker.promoteAll now ids (b, queues)).1 := by
  induction ids generalizing b queues with
  | nil => exact h
  | cons id rest ih =>
    rw [Broker.promoteAll]
    cases hrow : b.tasks.lookup id with
    | none => exact ih _ h
    | some row =>
      have hnext := hpromote b id row hrow h
      rcases hready : b.promoteIfReady id row now with ⟨b', queue⟩
      rw [hready] at hnext
      simp only [hready]
      cases queue with
      | none => exact ih _ hnext
      | some name => exact ih _ hnext

/-- Every operation leaves each blocked row with an edge. -/
theorem after_waiting (h : b.Waiting) (i : Invocation) : (b.after i).Waiting := by
  rcases i with ⟨now, call, order⟩
  by_cases hcall : call.resolves = true
  · change (b.exec ⟨now, call, order⟩).1.Waiting
    cases call with
    | resolveDependents taskID =>
      exact Resolution.drain_induction _ (Resolution.resolveEdge_waiting _) _
        { store := b, worklist := [taskID] } h
    | promoteReadyDependents limit =>
      change (b.promoteReadyDependents now order.tasks order.finished order.queues order.resolve
        limit).1.Waiting
      rw [Broker.promoteReadyDependents]
      split
      · exact h
      · refine promoteAll_induction (fun c id row hrow hc => ?_) _ _
          (resolveAll_induction Resolution.resolveEdge_waiting order.resolve _ _ h)
        exact promoteIfReady_waiting (fun t row' _ => hc t row') hrow
    | _ => cases hcall
  · exact after_induction h fun c c' hstep hc => hstep.waiting (by simpa using hcall) hc

end Waiting

/-- Edges and the index agree: a record has its edge, a blocked task has an edge and a record for
every one, and no entry of the index is empty. -/
structure Broker.IndexConsistent (b : Broker) : Prop where
  listed : ∀ d t, t ∈ b.waiters d → ∃ row, b.tasks.lookup t = some row ∧ d ∈ row.deps
  blocked : ∀ t row, b.tasks.lookup t = some row → row.state = .blocked →
    row.deps.keys ≠ [] ∧ ∀ d ∈ row.deps, t ∈ b.waiters d
  nonempty : ∀ d waiters, b.dependents.lookup d = some waiters → waiters.keys ≠ []

/-- The index and the edges agree after every operation. -/
theorem run_linked (invocations : List Invocation) :
    (Broker.empty.run invocations).Linked ∧ (Broker.empty.run invocations).Waiting := by
  apply Broker.run_induction (P := fun b => b.Linked ∧ b.Waiting)
  · refine ⟨⟨fun d t ht => ?_, fun t row hrow => ?_, fun d waiters hentry => ?_⟩, fun t row hrow => ?_⟩
    · exact absurd ht (AList.notMem_empty t)
    · cases hrow
    · cases hentry
    · cases hrow
  · exact fun b i _ hb => ⟨after_linked hb.1 i, after_waiting hb.2 i⟩

/-- In every reachable store the reverse index and the edges of the rows agree. -/
theorem dependency_index_consistent (invocations : List Invocation) :
    (Broker.empty.run invocations).IndexConsistent := by
  obtain ⟨hlinked, hwaiting⟩ := run_linked invocations
  exact {
    listed := hlinked.listed
    blocked := fun t row hrow hstate =>
      ⟨hwaiting t row hrow hstate, hlinked.recorded t row hrow hstate⟩
    nonempty := hlinked.nonempty }

end Conveyor
