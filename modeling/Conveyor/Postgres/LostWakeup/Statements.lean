import Conveyor.Postgres.Transactions

/-!
# Enqueueing a dependent: what a statement changes

The queries of the calls on one database read its tables at the listed tasks. Their statements turn no row into
another kind of row, block no task and add no edge; all but the deletions of a purge and of `DeleteTask` keep
every task row.
-/

namespace Conveyor.Postgres.Concurrent

open Lib Lib.ReadCommitted

variable {id : String}

section Tables

variable {ids : TaskIDs} {rows : Rows}

/-- The entries of a task table hold the rows of the tasks they are built from. -/
theorem dlookup_taskEntries (list : List String) (id : String) :
    (list.filterMap fun id => (rows.task id).map (Sigma.mk (β := fun _ => Row) id)).dlookup id =
      if id ∈ list then rows.task id else none := by
  induction list with
  | nil => rfl
  | cons x rest ih =>
    rcases eq_or_ne x id with rfl | hx
    · cases hrow : rows.task x with
      | none => simp [hrow, ih]
      | some row => simp [hrow]
    · have hne := Ne.symm hx
      cases hrow : rows.task x with
      | none => simp [hrow, ih, hne]
      | some row => simp [hrow, ih, hne, List.dlookup_cons_ne]

/-- The tables hold the rows of the listed tasks. -/
theorem Rows.lookup_database (hid : id ∈ ids.list) : (rows.database ids).tasks.lookup id = rows.task id := by
  rw [Rows.database, AList.lookup_to_alist, dlookup_taskEntries, if_pos hid]

/-- The tables hold the edges between listed tasks. -/
theorem Rows.mem_database_deps {edge : Edge} :
    edge ∈ (rows.database ids).deps ↔ edge.dependentID ∈ ids.list ∧ edge.dependencyID ∈ ids.list ∧
      rows.edge edge.dependentID edge.dependencyID = some edge.onFailure := by
  obtain ⟨x, y, policy⟩ := edge
  simp only [Rows.database, List.mem_flatMap, List.mem_filterMap, Option.map_eq_some_iff, Edge.mk.injEq]
  constructor
  · rintro ⟨_, hx, _, hy, _, hedge, rfl, rfl, rfl⟩
    exact ⟨hx, hy, hedge⟩
  · rintro ⟨hx, hy, hedge⟩
    exact ⟨x, hx, y, hy, policy, hedge, rfl, rfl, rfl⟩

variable {t d : String}

/-- No statement that sees the edge of `t` on `d` finds `d` without dependents. -/
theorem Rows.edge_eq_none_of_hasDependents (ht : t ∈ ids.list) (hd : d ∈ ids.list)
    (h : (rows.database ids).hasDependents d = false) : rows.edge t d = none := by
  by_contra hne
  obtain ⟨policy, hpolicy⟩ := Option.ne_none_iff_exists'.mp hne
  have hany := List.any_eq_false.mp h ⟨t, d, policy⟩ (Rows.mem_database_deps.mpr ⟨ht, hd, hpolicy⟩)
  simp at hany

/-- A deletion that finds no waiting dependent does not see `t` blocked on a stored `d`. -/
theorem Rows.not_waiting (ht : t ∈ ids.list) (hd : d ∈ ids.list)
    (h : (rows.database ids).hasWaitingDependents d = false) (hstored : rows.task d ≠ none) :
    ¬ rows.Blocked t ∨ rows.edge t d = none := by
  by_contra hwaits
  rw [not_or, not_not] at hwaits
  obtain ⟨⟨row, hrow, hstate⟩, hedge⟩ := hwaits
  obtain ⟨policy, hpolicy⟩ := Option.ne_none_iff_exists'.mp hedge
  obtain ⟨dep, hdep⟩ := Option.ne_none_iff_exists'.mp hstored
  have hany := List.any_eq_false.mp h ⟨t, d, policy⟩ (Rows.mem_database_deps.mpr ⟨ht, hd, hpolicy⟩)
  refine hany ?_
  simp [Database.stateIs, Rows.lookup_database ht, Rows.lookup_database hd, hrow, hdep, hstate, terminal]

end Tables

variable {rows : Rows} {k : Key} {w : Write Key Content}

section Statements

/-- A statement that changes no row into another kind of row, blocks no task and adds no edge. -/
structure Mild (w : Write Key Content) : Prop where
  task : ∀ rows x latest v, w.change rows (.task x) latest = some v → ∃ row, latest = some (.task row) ∧
    (v = none ∨ ∃ row', v = some (.task row') ∧ (row'.state = .blocked → row.state = .blocked))
  edge : ∀ rows x y latest v, w.change rows (.edge x y) latest = some v → v = none

variable {cond : Rows → String → Row → Bool} {set : Row → Row}

/-- An update that blocks no task, of every row that matches. -/
theorem updateTasks_mild
    (hset : ∀ rows id row, cond rows id row = true → (set row).state = .blocked → row.state = .blocked) :
    Mild (updateTasks cond set) where
  task rows x latest v hchange := by
    simp only [updateTasks] at hchange
    split at hchange
    · rename_i row hkey
      cases hkey
      split at hchange
      · rename_i hcond
        cases hchange
        exact ⟨row, rfl, .inr ⟨_, rfl, hset rows x row hcond⟩⟩
      · cases hchange
    · cases hchange
  edge rows x y latest v hchange := by cases hchange

/-- An update that blocks no task, of one row. -/
theorem updateTask_mild {cond : Rows → Row → Bool}
    (hset : ∀ rows row, cond rows row = true → (set row).state = .blocked → row.state = .blocked) :
    Mild (updateTask id cond set) where
  task rows x latest v hchange := by
    obtain ⟨row, -, hlatest, hcond, rfl⟩ := updateTask_change hchange
    exact ⟨row, hlatest, .inr ⟨_, rfl, hset rows row hcond⟩⟩
  edge rows x y latest v hchange := by
    obtain ⟨row, hkey, -⟩ := updateTask_change hchange
    cases hkey

/-- A deletion of tasks removes the rows that match its condition. -/
theorem deleteTasks_change {latest v : Option Content} (h : (deleteTasks cond).change rows k latest = some v) :
    ∃ id row, k = .task id ∧ latest = some (.task row) ∧ cond rows id row = true ∧ v = none := by
  simp only [deleteTasks] at h
  split at h
  · rename_i id row
    split at h
    · rename_i hcond
      exact ⟨id, row, rfl, rfl, hcond, (Option.some.inj h).symm⟩
    · cases h
  · cases h

/-- A deletion of tasks leaves the edges. -/
theorem deleteTasks_mild : Mild (deleteTasks cond) where
  task rows x latest v hchange := by
    obtain ⟨id, row, -, hlatest, -, rfl⟩ := deleteTasks_change hchange
    exact ⟨row, hlatest, .inl rfl⟩
  edge rows x y latest v hchange := by
    obtain ⟨id, row, hkey, -⟩ := deleteTasks_change hchange
    cases hkey

/-- A deletion of edges leaves the tasks. -/
theorem deleteEdges_mild {cond : String → String → Bool} : Mild (deleteEdges cond) where
  task rows x latest v hchange := by
    obtain ⟨_, _, _, hkey, -⟩ := deleteEdges_change hchange
    cases hkey
  edge rows x y latest v hchange := by
    obtain ⟨_, _, _, -, -, -, rfl⟩ := deleteEdges_change hchange
    rfl

/-- A deletion of edges by a condition on the tables leaves the tasks. -/
theorem deleteEdgesWhere_mild {cond : Rows → String → String → Bool} : Mild (deleteEdgesWhere cond) where
  task rows x latest v hchange := by cases hchange
  edge rows x y latest v hchange := by
    simp only [deleteEdgesWhere] at hchange
    split at hchange
    · split at hchange <;> cases hchange
      rfl
    · cases hchange

/-- A statement with a limit changes rows as without it. -/
theorem Mild.limited (h : Mild w) : Mild { w with limited := true } := ⟨h.task, h.edge⟩

/-- A statement that removes no task row. -/
def Keeps (w : Write Key Content) : Prop := ∀ rows x latest, w.change rows (.task x) latest ≠ some none

/-- An update removes no task. -/
theorem updateTasks_keeps : Keeps (updateTasks cond set) := by
  intro rows x latest hchange
  simp only [updateTasks] at hchange
  split at hchange
  · split at hchange <;> cases hchange
  · cases hchange

/-- An update of one row removes no task. -/
theorem updateTask_keeps {cond : Rows → Row → Bool} : Keeps (updateTask id cond set) := by
  intro rows x latest hchange
  obtain ⟨_, _, _, _, hv⟩ := updateTask_change hchange
  cases hv

/-- A deletion of edges removes no task. -/
theorem deleteEdges_keeps {cond : String → String → Bool} : Keeps (deleteEdges cond) := by
  intro rows x latest hchange
  obtain ⟨_, _, _, hkey, -⟩ := deleteEdges_change hchange
  cases hkey

/-- A deletion of edges by a condition on the tables removes no task. -/
theorem deleteEdgesWhere_keeps {cond : Rows → String → String → Bool} : Keeps (deleteEdgesWhere cond) := by
  intro rows x latest hchange
  cases hchange

end Statements

end Conveyor.Postgres.Concurrent
