import Conveyor.Postgres.Resolver

/-!
# Fan-in: where a call stands

A task is blocked on several dependencies that have all ended in its favour, and one `ResolveDependents` call
runs for each of them. Between its statements a call never cancels the task, and it owes the edge on its own
dependency until it drops it.
-/

namespace Conveyor.Postgres.Concurrent

open Lib Lib.ReadCommitted

/-- Task `t` is blocked on the tasks of the calls, which all ended in its favour. -/
structure FanIn (base : Rows) (ids : TaskIDs) (calls : List String) (t : String) (row : Row) : Prop where
  listed : ∀ k, base k ≠ none → k ∈ ids.keys
  task : base.task t = some row
  blocked : row.state = .blocked
  edges : ∀ d, base.edge t d ≠ none ↔ d ∈ calls
  nonempty : calls ≠ []
  ended : ∀ d ∈ calls, ∃ dep, base.task d = some dep ∧
    (dep.state = .completed ∨ (failedDependency dep.state = true ∧ base.edge t d = some 3))

/-- The row of the task after its promotion. -/
def promotedRow (row : Row) (now : Time) : Row := { row with state := unblockedState row now }

/-- The end of `f` neither keeps an edge of `t` nor cancels `t`. -/
def Spares (base : Rows) (t f : String) (failed : Bool) : Prop :=
  failed = true → ∀ policy, base.edge t f = some policy → policy ≠ 1 ∧ policy ≠ 2

/-- The frame at a point. -/
def Point.frame : Point → Frame
  | .terminalState _ frame | .edgesWaitingOn _ _ frame | .cascadeCancel _ _ _ _ frame
  | .dropDependentEdges _ _ _ _ frame | .dropSatisfiedEdges _ _ frame | .lockDependent _ _ frame
  | .promoteDependent _ _ frame | .returned frame => frame

/-- The events a call has collected. -/
def ResolvePoint.emitted : ResolvePoint → List (String × TaskState)
  | .hasDependents => []
  | .within point => point.frame.emitted
  | .finished frame => frame.emitted

/-- The call does not cancel `t`, and handles edges of the start. -/
def Fine (base : Rows) (t : String) : Point → Prop
  | .edgesWaitingOn f failed _ => Spares base t f failed
  | .cascadeCancel x f rest _ _ | .dropDependentEdges x f rest _ _ =>
    x ≠ t ∧ Spares base t f true ∧ ∀ edge ∈ rest, base.edge edge.1 f = some edge.2
  | _ => True

/-- The call has yet to drop the edge of `t` on `f`. -/
def Owed (t f : String) : Point → Prop
  | .terminalState f' _ | .edgesWaitingOn f' _ _ => f' = f
  | .cascadeCancel _ f' rest satisfied _ | .dropDependentEdges _ f' rest satisfied _ =>
    f' = f ∧ t ∈ satisfied ++ rest.map Prod.fst
  | .dropSatisfiedEdges f' satisfied _ => f' = f ∧ t ∈ satisfied
  | _ => False

def FineAt (base : Rows) (t : String) : ResolvePoint → Prop
  | .within point => Fine base t point
  | _ => True

def OwedAt (t f : String) : ResolvePoint → Prop
  | .hasDependents => True
  | .within point => Owed t f point
  | .finished _ => False

/-- The call has yet to look whether `t` can be promoted. -/
def Later (t : String) : ResolvePoint → Prop
  | .within (.dropSatisfiedEdges _ satisfied _) => t ∈ satisfied
  | .within (.lockDependent x rest _) | .within (.promoteDependent x rest _) => t ∈ x :: rest
  | _ => False

/-- The call stands at the promotion of `t`. -/
def Promoting (t : String) : ResolvePoint → Prop
  | .within (.promoteDependent x _ _) => x = t
  | _ => False

/-- What a call does next without looking at `t`, with the events collected so far. -/
structure GoesOn (base : Rows) (t : String) (frame : Frame) (next : Point) : Prop where
  fine : Fine base t next
  emitted : next.frame.emitted = frame.emitted
  aside : ¬ Promoting t (.within next)

variable {id : String}

section Points

variable {base : Rows} {t f : String} {frame : Frame}

theorem nextRound_goesOn (worklist : List String) : GoesOn base t frame (Point.nextRound worklist frame) := by
  induction worklist with
  | nil => exact ⟨trivial, rfl, id⟩
  | cons x rest ih =>
    rw [Point.nextRound]
    split
    · exact ih
    · exact ⟨trivial, rfl, id⟩

theorem promoteEach_goesOn (dependents : List String) : GoesOn base t frame (Point.promoteEach dependents frame) := by
  cases dependents with
  | nil => exact nextRound_goesOn _
  | cons => exact ⟨trivial, rfl, id⟩

theorem promoteEach_later {dependents : List String} (h : t ∈ dependents) :
    Later t (.within (Point.promoteEach dependents frame)) := by
  cases dependents with
  | nil => cases h
  | cons x rest => exact h

variable {failed : Bool}

/-- The policies of edges of the start do not cancel `t`. -/
theorem applyPolicies_goesOn (hspares : Spares base t f failed) (edges : List (String × Int16))
    (hedges : ∀ edge ∈ edges, base.edge edge.1 f = some edge.2) (satisfied : List String) :
    GoesOn base t frame (Point.applyPolicies failed f edges satisfied frame) := by
  induction edges generalizing satisfied with
  | nil =>
    rw [Point.applyPolicies]
    split
    · exact nextRound_goesOn _
    · exact ⟨trivial, rfl, id⟩
  | cons edge rest ih =>
    have hrest : ∀ edge ∈ rest, base.edge edge.1 f = some edge.2 := fun edge h => hedges edge (.tail _ h)
    obtain ⟨x, policy⟩ := edge
    rw [Point.applyPolicies]
    split
    · exact ih hrest satisfied
    · split_ifs with hcascade
      · rw [Bool.and_eq_true, beq_iff_eq] at hcascade
        obtain ⟨rfl, rfl⟩ := hcascade
        refine ⟨⟨?_, hspares, hrest⟩, rfl, id⟩
        rintro rfl
        exact (hspares rfl 2 (hedges (x, 2) (.head _))).2 rfl
      · exact ih hrest _

/-- An edge of `t` among the edges of a round stays owed until it is dropped. -/
theorem applyPolicies_owed (hspares : Spares base t f failed) (edges : List (String × Int16))
    (hedges : ∀ edge ∈ edges, base.edge edge.1 f = some edge.2) (satisfied : List String)
    (ht : t ∈ satisfied ++ edges.map Prod.fst) : Owed t f (Point.applyPolicies failed f edges satisfied frame) := by
  induction edges generalizing satisfied with
  | nil =>
    rw [List.map_nil, List.append_nil] at ht
    rw [Point.applyPolicies, if_neg (List.ne_nil_of_mem ht)]
    exact ⟨rfl, ht⟩
  | cons edge rest ih =>
    have hrest : ∀ edge ∈ rest, base.edge edge.1 f = some edge.2 := fun edge h => hedges edge (.tail _ h)
    obtain ⟨x, policy⟩ := edge
    have hspared : x = t → failed = true → policy ≠ 1 ∧ policy ≠ 2 := by
      rintro rfl hfailed
      exact hspares hfailed policy (hedges (x, policy) (.head _))
    have htail : x ≠ t → t ∈ satisfied ++ rest.map Prod.fst := by
      intro hx
      simpa [Ne.symm hx] using ht
    rw [Point.applyPolicies]
    split
    · rename_i hblock
      rw [Bool.and_eq_true, beq_iff_eq] at hblock
      exact ih hrest satisfied (htail fun hx => (hspared hx hblock.1).1 hblock.2)
    · split
      · rename_i hcascade
        rw [Bool.and_eq_true, beq_iff_eq] at hcascade
        exact ⟨rfl, htail fun hx => (hspared hx hcascade.1).2 hcascade.2⟩
      · exact ih hrest _ (by simpa using ht)

theorem emit_emitted (affected : List (Key × Option Content)) (h : id ≠ t) (state : TaskState) :
    (t, state) ∈ (frame.emit id affected).emitted ↔ (t, state) ∈ frame.emitted := by
  unfold Frame.emit
  split
  · simp [Ne.symm h]
  · rfl

@[simp] theorem wake_emitted (frame : Frame) (affected : List (Key × Option Content)) :
    (frame.wake affected).emitted = frame.emitted := by
  unfold Frame.wake
  split <;> rfl

end Points

/-- Some edge of the task is left. -/
def Rows.HasEdge (rows : Rows) (t : String) : Prop := ∃ d, rows.edge t d ≠ none

/-- What a call sees. -/
def sees (committed : Rows) (writes : Key → Option (Option Content)) : Rows :=
  fun k => (writes k).getD (committed k)

variable {rows : Rows} {f : String} {dep : Row}

section Base

variable {base : Rows} {ids : TaskIDs} {calls : List String} {t : String} {row : Row}

theorem mem_keys_edge {x d : String} : .edge x d ∈ ids.keys ↔ x ∈ ids.list ∧ d ∈ ids.list := by
  simp [TaskIDs.keys]

variable (h : FanIn base ids calls t row)

include h

/-- A promotion changes the row. -/
theorem FanIn.promotedRow_ne (now : Time) : promotedRow row now ≠ row := by
  intro heq
  have hstate := congrArg Row.state heq
  exact unblockedState_ne row now (hstate.trans h.blocked)

theorem FanIn.listedTask : .task t ∈ ids.keys :=
  h.listed _ (by rw [Rows.task_eq_some.mp h.task]; nofun)

variable {d : String}

theorem FanIn.listedEdge (hd : d ∈ calls) : .edge t d ∈ ids.keys := by
  refine h.listed _ fun hnone => (h.edges d).mpr hd ?_
  simp [Rows.edge, hnone]

theorem FanIn.callEnded (hd : d ∈ calls) : ¬ base.Blocked d := by
  rintro ⟨row', hrow', hblocked⟩
  obtain ⟨dep, hdep, hstate⟩ := h.ended d hd
  cases hrow'.symm.trans hdep
  rcases hstate with hstate | ⟨hstate, -⟩ <;> rw [hblocked] at hstate <;> cases hstate

/-- An ended dependency of `t` spares it. -/
theorem FanIn.spares (hrows : Reachable base (.task f) (rows (.task f)))
    (hdep : rows.task f = some dep) (hfailed : failedDependency dep.state = true) : Spares base t f true := by
  intro _ policy hpolicy
  have hcall : f ∈ calls := (h.edges f).mp (by rw [hpolicy]; nofun)
  obtain ⟨dep', hdep', hstate⟩ := h.ended f hcall
  rw [hrows.task_eq (h.callEnded hcall), hdep'] at hdep
  cases hdep
  rcases hstate with hstate | ⟨-, hcontinue⟩
  · rw [hstate] at hfailed
    cases hfailed
  · rw [hpolicy] at hcontinue
    cases hcontinue
    decide

/-- An edge that is seen is listed. -/
theorem FanIn.mem_edgesWaitingOn (hd : d ∈ calls) (hedge : rows.edge t d ≠ none) : t ∈ (rows.edgesWaitingOn ids d).map Prod.fst := by
  obtain ⟨policy, hpolicy⟩ := Option.ne_none_iff_exists'.mp hedge
  refine List.mem_map.mpr ⟨(t, policy), List.mem_filterMap.mpr ⟨t, ?_, by rw [hpolicy]; rfl⟩, rfl⟩
  exact (mem_keys_edge.mp (h.listedEdge hd)).1

end Base

end Conveyor.Postgres.Concurrent
