import Conveyor.Postgres.LostWakeup.Statements

/-!
# Enqueueing a dependent: what a call issues

From the point where a call stands follows which statement it issues and where it goes on. A call removes a task
only where a purge has found it without dependents, or where `DeleteTask` has found no dependent that waits.
Only an enqueue transaction inserts rows, and it commits once, at its end.
-/

namespace Conveyor.Postgres.Concurrent

open Lib Lib.ReadCommitted

variable {ids : TaskIDs} {L : Type} {rows : Rows} {k : Key} {w : Write Key Content}
variable {now : Time} {embed : Point → L} {caller : Frame → ReadCommitted.Statement Key Content L}

/-- The statements of `resolveWithin`, those of its caller apart. -/
theorem resolveWithin_write {p : Point} {resume : List (Key × Option Content) → L}
    (h : resolveWithin ids now embed caller p = .write w resume) :
    (Mild w ∧ Keeps w) ∨ ∃ frame, caller frame = .write w resume := by
  cases p with
  | terminalState => cases h
  | edgesWaitingOn => cases h
  | cascadeCancel =>
    cases h
    exact .inl ⟨updateTask_mild fun _ _ _ hblocked => (by cases hblocked), updateTask_keeps⟩
  | dropDependentEdges =>
    cases h
    exact .inl ⟨deleteEdges_mild, deleteEdges_keeps⟩
  | dropSatisfiedEdges =>
    cases h
    exact .inl ⟨deleteEdges_mild, deleteEdges_keeps⟩
  | lockDependent =>
    cases h
    exact .inl ⟨updateTask_mild fun _ _ _ => id, updateTask_keeps⟩
  | promoteDependent =>
    cases h
    exact .inl ⟨updateTask_mild fun _ row _ hblocked => absurd hblocked (unblockedState_ne row now), updateTask_keeps⟩
  | returned frame => exact .inr ⟨frame, h⟩

/-- The calls that may remove the row of `d`. -/
def Operation.removes (d : String) : Operation → Bool
  | .purgeTerminal .. => true
  | .deleteTask id => id == d
  | _ => false

/-- A purge or a deletion between two of its statements, each of which commits on its own. -/
def Between : CallPoint → Prop
  | .purge (.issued ..) | .delete (.deleted _) | .delete .droppedEdges => False
  | .purge _ | .delete _ => True
  | _ => False

/-- What a statement of a call can do: it removes a task only where a purge or a deletion does. -/
structure StatementOk (ids : TaskIDs) (op : Operation) (p : CallPoint) (w : Write Key Content)
    (resume : List (Key × Option Content) → CallPoint) : Prop where
  mild : Mild w
  within : ∀ affected, ¬ Between (resume affected)
  removes : ∀ rows x latest, w.change rows (.task x) latest = some none →
    ((∃ statement purged, p = .purge (.issue statement purged)) ∧ op.removes x = true ∧
      (Rows.database ids rows).hasDependents x = false) ∨ (p = .delete .delete ∧ op = .deleteTask x)

variable {op : Operation} {p : CallPoint} {w : Write Key Content} {resume : List (Key × Option Content) → CallPoint}

/-- Only a call that may remove a task does so. -/
theorem StatementOk.removes_of_change (h : StatementOk ids op p w resume) {x : String}
    {latest : Option Content} (hchange : w.change rows (.task x) latest = some none) : op.removes x = true := by
  rcases h.removes rows x latest hchange with ⟨-, hop, -⟩ | ⟨-, rfl⟩
  · exact hop
  · exact beq_self_eq_true x

/-- A statement that keeps every task row. -/
theorem StatementOk.of_keeps (hmild : Mild w) (hkeeps : Keeps w) (hwithin : ∀ affected, ¬ Between (resume affected)) :
    StatementOk ids op p w resume :=
  ⟨hmild, hwithin, fun rows x latest hchange => absurd hchange (hkeeps rows x latest)⟩

/-- The statements of a purge. -/
theorem purgeTerminal_statementOk {retention : Duration} {limit : Int} (statement : PurgeStatement)
    (purged : Nat) (hwithin : ∀ affected, ¬ Between (resume affected)) :
    StatementOk ids (.purgeTerminal now retention limit) (.purge (.issue statement purged))
      (statement.query ids now retention) resume := by
  have hpurge : ∀ {cond : Rows → String → Row → Bool}, StatementOk ids (.purgeTerminal now retention limit)
      (.purge (.issue statement purged))
      { deleteTasks fun rows id row => cond rows id row && !(rows.database ids).hasDependents id with limited := true }
      resume := by
    intro cond
    refine ⟨deleteTasks_mild.limited, hwithin, fun rows x latest hchange => .inl ⟨⟨_, _, rfl⟩, rfl, ?_⟩⟩
    have hdeleted : (deleteTasks fun rows id row => cond rows id row &&
        !(rows.database ids).hasDependents id).change rows (.task x) latest = some none := hchange
    obtain ⟨id, row, hkey, -, hcond, -⟩ := deleteTasks_change hdeleted
    cases hkey
    rw [Bool.and_eq_true, Bool.not_eq_true'] at hcond
    exact hcond.2
  cases statement with
  | releaseAllLapsed => exact .of_keeps (updateTasks_mild fun _ _ _ _ => id) updateTasks_keeps hwithin
  | dropTerminalDependentEdges => exact .of_keeps deleteEdgesWhere_mild deleteEdgesWhere_keeps hwithin
  | purgeCompleted => exact hpurge
  | purgeArchived => exact hpurge

/-- The statements of every call. -/
theorem program_statementOk (h : op.program ids p = .write w resume) : StatementOk ids op p w resume := by
  cases op with
  | enqueue order tasks =>
    cases p with
    | enqueue q =>
      obtain ⟨r, hstatement, rfl⟩ := Statement.map_eq_write h
      cases q with
      | releaseLapsed =>
        cases hstatement
        exact .of_keeps (updateTasks_mild fun _ _ _ _ => id) updateTasks_keeps fun _ => id
      | stampCanceled =>
        cases hstatement
        exact .of_keeps (updateTask_mild fun _ _ _ => id) updateTask_keeps fun _ => id
      | _ => cases hstatement
    | _ => cases h
  | ack =>
    cases p with
    | ack q =>
      obtain ⟨r, hstatement, rfl⟩ := Statement.map_eq_write h
      cases q with
      | update =>
        cases hstatement
        exact .of_keeps (updateTask_mild fun _ _ _ hblocked => by cases hblocked) updateTask_keeps fun _ => id
      | _ => cases hstatement
    | _ => cases h
  | resolveDependents =>
    cases p with
    | resolve q =>
      obtain ⟨r, hstatement, rfl⟩ := Statement.map_eq_write h
      cases q with
      | within point =>
        rcases resolveWithin_write hstatement with ⟨hmild, hkeeps⟩ | ⟨frame, hcaller⟩
        · exact .of_keeps hmild hkeeps fun _ => id
        · cases hcaller
      | _ => cases hstatement
    | _ => cases h
  | purgeTerminal =>
    cases p with
    | purge q =>
      obtain ⟨r, hstatement, rfl⟩ := Statement.map_eq_write h
      cases q with
      | issue statement purged =>
        cases hstatement
        exact purgeTerminal_statementOk statement purged fun _ => id
      | _ => cases hstatement
    | _ => cases h
  | deleteTask id =>
    cases p with
    | delete q =>
      obtain ⟨r, hstatement, rfl⟩ := Statement.map_eq_write h
      cases q with
      | delete =>
        cases hstatement
        refine ⟨deleteTasks_mild, fun _ => not_false, fun rows x latest hchange => .inr ⟨rfl, ?_⟩⟩
        obtain ⟨_, row, hkey, -, hcond, -⟩ := deleteTasks_change hchange
        cases hkey
        rw [Bool.and_eq_true, beq_iff_eq] at hcond
        rw [hcond.1]
      | dropEdges =>
        cases hstatement
        exact .of_keeps deleteEdges_mild deleteEdges_keeps fun _ => not_false
      | _ => cases hstatement
    | _ => cases h
  | promoteReadyDependents =>
    cases p with
    | promote q =>
      obtain ⟨r, hstatement, rfl⟩ := Statement.map_eq_write h
      cases q with
      | within point =>
        rcases resolveWithin_write hstatement with ⟨hmild, hkeeps⟩ | ⟨frame, hcaller⟩
        · exact .of_keeps hmild hkeeps fun _ => id
        · cases hcaller
          refine .of_keeps (Mild.limited (updateTasks_mild fun _ _ row _ hblocked => ?_)) updateTasks_keeps fun _ => id
          exact absurd hblocked (unblockedState_ne row _)
      | _ => cases hstatement
    | _ => cases h

/-- A read does not open a transaction of a purge or a deletion. -/
theorem program_read_between {resume : Rows → CallPoint} (h : op.program ids p = .read resume)
    (hbetween : Between (resume rows)) : Between p := by
  cases op with
  | deleteTask id =>
    cases p with
    | delete q =>
      obtain ⟨r, hstatement, rfl⟩ := Statement.map_eq_read h
      cases q with
      | hasWaitingDependents => trivial
      | explainMiss => trivial
      | _ => cases hstatement
    | _ => cases h
  | purgeTerminal =>
    cases p with
    | purge q =>
      obtain ⟨r, hstatement, -⟩ := Statement.map_eq_read h
      cases q <;> cases hstatement
    | _ => cases h
  | _ =>
    cases p <;> try cases h
    all_goals
      obtain ⟨r, -, rfl⟩ := Statement.map_eq_read h
      cases hbetween

variable {d : String}

/-- A deletion goes on after it has found no waiting dependent. -/
theorem program_read_delete {resume : Rows → CallPoint} (h : op.program ids p = .read resume)
    (hop : op = .deleteTask d) (hdelete : resume rows = .delete .delete) :
    Between p ∧ (Rows.database ids rows).hasWaitingDependents d = false := by
  subst hop
  cases p with
  | delete q =>
    obtain ⟨r, hstatement, rfl⟩ := Statement.map_eq_read h
    cases q with
    | hasWaitingDependents =>
      cases hstatement
      refine ⟨trivial, ?_⟩
      by_contra hwaits
      rw [Bool.not_eq_false] at hwaits
      dsimp only at hdelete
      rw [if_pos hwaits] at hdelete
      cases hdelete
    | explainMiss =>
      cases hstatement
      cases hdelete
    | _ => cases hstatement
  | _ => cases h

variable {content : Content}

/-- `resolveWithin` inserts nothing of its own. -/
theorem resolveWithin_insert {point : Point} {resume : Bool → L}
    (h : resolveWithin ids now embed caller point = .insert k content resume) :
    ∃ frame, caller frame = .insert k content resume := by
  cases point with
  | returned frame => exact ⟨frame, h⟩
  | _ => cases h

/-- Only an enqueue transaction inserts rows. -/
theorem program_insert {resume : Bool → CallPoint} (h : op.program ids p = .insert k content resume) :
    (∃ order tasks, op = .enqueue order tasks) ∧ (∀ inserted, ∃ q, resume inserted = .enqueue q) ∧ ∀ x, k = .task x →
      ∃ row, content = .task row := by
  cases op with
  | enqueue order tasks =>
    cases p with
    | enqueue q =>
      obtain ⟨r, hstatement, rfl⟩ := Statement.map_eq_insert h
      refine ⟨⟨order, tasks, rfl⟩, fun inserted => ⟨_, rfl⟩, ?_⟩
      cases q with
      | insertTask =>
        cases hstatement
        exact fun _ _ => ⟨_, rfl⟩
      | insertEdge =>
        cases hstatement
        exact fun _ hkey => by cases hkey
      | _ => cases hstatement
    | _ => cases h
  | _ =>
    cases p <;> try cases h
    all_goals
      rename_i q
      obtain ⟨r, hstatement, -⟩ := Statement.map_eq_insert h
      cases q <;> try cases hstatement
    all_goals
      obtain ⟨frame, hcaller⟩ := resolveWithin_insert hstatement
      cases hcaller

variable {next : CallPoint}

/-- A deletion does not look for dependents again after a commit. -/
theorem program_commit_delete (h : (Operation.deleteTask d).program ids p = .commit next) : next ≠ .delete .delete := by
  cases p with
  | delete q =>
    obtain ⟨next, hstatement, rfl⟩ := Statement.map_eq_commit h
    cases q with
    | deleted found =>
      cases hstatement
      cases found <;> nofun
    | droppedEdges =>
      cases hstatement
      nofun
    | _ => cases hstatement
  | _ => cases h

/-- A committed enqueue transaction issues nothing more. -/
theorem program_over : op.program ids (.enqueue .finished) = .finished := by
  cases op <;> rfl

/-- The next task of a batch is prepared before the transaction ends. -/
theorem EnqueuePoint.next_ne_finished (rest : List PreparedEnqueue) : EnqueuePoint.next rest ≠ .finished := by
  cases rest with
  | nil => nofun
  | cons =>
    rw [EnqueuePoint.next]
    split <;> nofun

/-- The edges of a task are inserted before the transaction ends. -/
theorem EnqueuePoint.insertEach_ne_finished (taskID : String) (rest : List PreparedEnqueue)
    (deps : List (String × Int16)) : EnqueuePoint.insertEach taskID rest deps ≠ .finished := by
  cases deps with
  | nil => exact next_ne_finished rest
  | cons => nofun

section Enqueue

variable {order : Nat → EnqueueOrder} {tasks : List PreparedEnqueue}

/-- The reads, the writes and the insertions of an enqueue transaction do not end it. -/
theorem program_read_unfinished {resume : Rows → CallPoint}
    (h : (Operation.enqueue order tasks).program ids p = .read resume) (rows : Rows) :
    resume rows ≠ .enqueue .finished := by
  cases p with
  | enqueue q =>
    obtain ⟨r, hstatement, rfl⟩ := Statement.map_eq_read h
    cases q <;> cases hstatement
    dsimp only
    generalize PreparedEnqueue.buildArguments _ _ = arguments
    cases arguments <;> nofun
  | _ => cases h

/-- A write does not end an enqueue transaction. -/
theorem program_write_unfinished (h : (Operation.enqueue order tasks).program ids p = .write w resume)
    (affected : List (Key × Option Content)) : resume affected ≠ .enqueue .finished := by
  cases p with
  | enqueue q =>
    obtain ⟨r, hstatement, rfl⟩ := Statement.map_eq_write h
    cases q with
    | releaseLapsed =>
      cases hstatement
      nofun
    | stampCanceled =>
      cases hstatement
      exact fun hfinished => EnqueuePoint.insertEach_ne_finished _ _ _ (CallPoint.enqueue.inj hfinished)
    | _ => cases hstatement
  | _ => cases h

/-- An insertion does not end an enqueue transaction. -/
theorem program_insert_unfinished {resume : Bool → CallPoint}
    (h : (Operation.enqueue order tasks).program ids p = .insert k content resume) (inserted : Bool) :
    resume inserted ≠ .enqueue .finished := by
  cases p with
  | enqueue q =>
    obtain ⟨r, hstatement, rfl⟩ := Statement.map_eq_insert h
    refine fun hfinished => absurd (CallPoint.enqueue.inj hfinished) ?_
    cases q with
    | insertTask =>
      cases hstatement
      dsimp only
      split_ifs
      · exact EnqueuePoint.next_ne_finished _
      · nofun
      · exact EnqueuePoint.insertEach_ne_finished _ _ _
    | insertEdge =>
      cases hstatement
      exact EnqueuePoint.insertEach_ne_finished _ _ _
    | _ => cases hstatement
  | _ => cases h

end Enqueue

/-- An enqueue transaction commits once, at its end. -/
theorem program_commit_enqueue (h : (Operation.enqueue order tasks).program ids p = .commit next) :
    next = .enqueue .finished := by
  cases p with
  | enqueue q =>
    obtain ⟨next, hstatement, rfl⟩ := Statement.map_eq_commit h
    cases q <;> cases hstatement
    rfl
  | _ => cases h

end Conveyor.Postgres.Concurrent
