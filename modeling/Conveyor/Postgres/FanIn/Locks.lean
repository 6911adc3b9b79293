import Conveyor.Postgres.FanIn.Statements

/-!
# Fan-in: the rows a call locks

A statement takes its row locks one by one and changes each row as it finds it then. Locking the task itself is
what orders the calls; the promotion takes place under that lock.
-/

namespace Conveyor.Postgres.Concurrent

open Lib Lib.ReadCommitted

section RowSteps

variable {base : Rows} {ids : TaskIDs} {now : String → Time} {calls : List String} {t f : String} {row : Row}
  {rows : Rows} {committed : Rows} {owns won : Prop} {i : String} {tx : Tx Key Content ResolvePoint} {p : ResolvePoint}
  {frame : Frame} {cond : Rows → Row → Bool} {set : Row → Row} {resume : List (Key × Option Content) → ResolvePoint}

variable {tx' : Tx Key Content ResolvePoint} {owns' : Prop} {w : Write Key Content} {snapshot : Rows} {k : Key}
  {rest : List Key} {affected : List (Key × Option Content)}

/-- The transaction after it has locked row `k` and changed it as the statement says. -/
structure RowLocked (committed : Rows) (tx tx' : Tx Key Content ResolvePoint) (w : Write Key Content)
    (snapshot : Rows) (k : Key) (rest : List Key) (affected : List (Key × Option Content)) : Prop where
  point : tx'.point = tx.point
  working : tx'.working = some ⟨snapshot, rest, affected ++
    ((w.change snapshot k (sees committed tx.writes k)).map fun v => (k, v)).toList⟩
  writes : ∀ k', tx'.writes k' =
    if k' = k then (w.change snapshot k (sees committed tx.writes k)).or (tx.writes k) else tx.writes k'

/-- Other rows are seen as before. -/
theorem RowLocked.sees_of_ne (h : RowLocked committed tx tx' w snapshot k rest affected) {k' : Key} (hk : k' ≠ k) :
    sees committed tx'.writes k' = sees committed tx.writes k' := by
  rw [sees, sees, h.writes, if_neg hk]

theorem RowLocked.sees_edge (h : RowLocked committed tx tx' w snapshot (.task t) rest affected) (d : String) :
    (sees committed tx'.writes).edge t d = (sees committed tx.writes).edge t d := by
  simp only [Rows.edge, h.sees_of_ne (show Key.edge t d ≠ .task t from (by rintro ⟨⟩))]

/-- A row that is only locked is seen as before. -/
theorem RowLocked.sees_of_unchanged (h : RowLocked committed tx tx' w snapshot k rest affected)
    (hchange : w.change snapshot k (sees committed tx.writes k) = none) :
    sees committed tx'.writes = sees committed tx.writes := by
  funext k'
  rw [sees, sees, h.writes]
  split_ifs with hk
  · rw [hchange, hk]
    rfl
  · rfl

theorem RowLocked.sees_of_changed (h : RowLocked committed tx tx' w snapshot k rest affected) {v : Option Content}
    (hchange : w.change snapshot k (sees committed tx.writes k) = some v) : sees committed tx'.writes k = v := by
  rw [sees, h.writes, if_pos rfl, hchange]
  rfl

/-- The statement that promotes `t` locks `t` only. -/
theorem pending_of_promoting (hpromoting : Promoting t p) (hpending : PendingAt p k) : k = .task t := by
  cases p with
  | hasDependents => cases hpromoting
  | finished => cases hpromoting
  | within point =>
    cases point with
    | promoteDependent x =>
      cases hpromoting
      exact hpending
    | _ => cases hpromoting

/-- Rows that are neither `t` nor an edge of `t` do not matter to a statement in progress. -/
theorem WorkOk.lockOther {rows' : Rows} {affected' : List (Key × Option Content)}
    (h : WorkOk ids t rows owns ⟨snapshot, k :: rest, affected⟩ p) (hpending : PendingAt p k)
    (htask : k ≠ .task t) (hedge : ∀ d, k ≠ .edge t d)
    (hedges : ∀ d, rows'.edge t d = rows.edge t d) : WorkOk ids t rows' owns ⟨snapshot, rest, affected'⟩ p := by
  cases p with
  | hasDependents => trivial
  | finished => trivial
  | within point =>
    cases point with
    | dropSatisfiedEdges f satisfied =>
      exact fun ht => (h ht).imp (fun hmem => (List.mem_cons.mp hmem).resolve_left (Ne.symm (hedge f)))
        (hedges f).trans
    | lockDependent x =>
      rintro rfl
      exact absurd hpending htask
    | promoteDependent x =>
      rintro rfl
      exact absurd hpending htask
    | _ => trivial

/-- An update of blocked tasks leaves the others alone. -/
theorem updateTask_change_eq_none (hcond : ∀ dep : Row, cond snapshot dep = true → dep.state = .blocked)
    (hopen : ¬ rows.Blocked t) : (updateTask t cond set).change snapshot (.task t) (rows (.task t)) = none := by
  rw [Option.eq_none_iff_forall_ne_some]
  intro v hchange
  obtain ⟨dep, -, hdep, hdepCond, -⟩ := updateTask_change hchange
  exact hopen ⟨dep, Rows.task_eq_some.mpr hdep, hcond dep hdepCond⟩

variable (h : TxOk base ids now calls t row committed owns won i tx)

include h

/-- What a call that does not stand at the promotion of `t` has written into `t`. -/
theorem TxOk.wrote_aside (hnot : ¬ Promoting t tx.point)
    {content : Option Content} (hcontent : tx.writes (.task t) = some content) {later : Prop} :
    committed (.task t) = some (.task row) ∧ (content = some (.task row) ∨
      (content = some (.task (promotedRow row (now i))) ∧
        ((t, unblockedState row (now i)) ∈ tx.point.emitted ∨ later))) := by
  obtain ⟨hrow, hsame | ⟨hnew, hevent | ⟨w, hw, hpromoting, -⟩⟩⟩ := h.wrote content hcontent
  · exact ⟨hrow, .inl hsame⟩
  · exact ⟨hrow, .inr ⟨hnew, .inl hevent⟩⟩
  · exact absurd hpromoting hnot

section Aside

variable (hopen : ∀ frame, tx.point ≠ .finished frame) (hworking : tx.working = some ⟨snapshot, k :: rest, affected⟩)
  (hlocked : RowLocked committed tx tx' w snapshot k rest affected)

include hopen hworking hlocked

/-- A row that a statement locks: what it leaves as it is. -/
theorem TxOk.locks (howns : Promoting t tx.point → owns')
    (hedges : (sees committed tx.writes).edge t i = none → (sees committed tx'.writes).edge t i = none)
    (hwork : ∀ w', tx'.working = some w' → WorkOk ids t (sees committed tx'.writes) owns' w' tx.point)
    (hlater : (∃ d, tx'.writes (.edge t d) ≠ none) → (sees committed tx'.writes).Blocked t →
      Later t tx.point ∨ (owns' ∧ (sees committed tx'.writes).HasEdge t))
    (haffected : ∀ w', tx'.working = some w' → Promoting t tx.point → w'.affected = [] ∨
      (w'.affected = [(.task t, some (.task (promotedRow row (now i))))] ∧
        tx'.writes (.task t) = some (some (.task (promotedRow row (now i))))))
    (hwrote : ∀ content, tx'.writes (.task t) = some content → committed (.task t) = some (.task row) ∧
      (content = some (.task row) ∨ (content = some (.task (promotedRow row (now i))) ∧
        ((t, unblockedState row (now i)) ∈ tx.point.emitted ∨
          ∃ w', tx'.working = some w' ∧ Promoting t tx.point ∧ w'.affected ≠ []))))
    (hkept : tx.writes (.task t) = some (some (.task (promotedRow row (now i)))) →
      tx'.writes (.task t) = some (some (.task (promotedRow row (now i))))) :
    TxOk base ids now calls t row committed owns' won i tx' := by
  have hpending := h.pending _ hworking
  obtain ⟨point, working', writes', aborted'⟩ := tx'
  cases hlocked.point
  have hworking' := hlocked.working
  refine ⟨fun hi => absurd (h.made hi) (hopen _), h.fine, ?_, fun hi => (h.owed hi).imp_right hedges, hwork, howns, hlater,
    haffected, hwrote, fun state hstate => (h.emits state hstate).imp_right (Or.imp_left hkept)⟩
  rintro _ hw k' hk'
  cases hworking'.symm.trans hw
  exact hpending k' (.tail _ hk')

/-- Locking a row other than `t`. -/
theorem TxOk.locksAside (htask : k ≠ .task t)
    (hnot : ¬ Promoting t tx.point)
    (hedges : (sees committed tx.writes).edge t i = none → (sees committed tx'.writes).edge t i = none)
    (hwork : ∀ affected', WorkOk ids t (sees committed tx'.writes) owns ⟨snapshot, rest, affected'⟩ tx.point)
    (hlater : (∃ d, tx'.writes (.edge t d) ≠ none) → (sees committed tx'.writes).Blocked t →
      Later t tx.point ∨ (owns ∧ (sees committed tx'.writes).HasEdge t)) :
    TxOk base ids now calls t row committed owns won i tx' := by
  have hwrites : tx'.writes (.task t) = tx.writes (.task t) := (hlocked.writes _).trans (if_neg htask.symm)
  refine h.locks hopen hworking hlocked (fun hp => absurd hp hnot) hedges (fun _ hw => ?_) hlater
    (fun _ _ hp => absurd hp hnot) (fun content hcontent => ?_) hwrites.trans
  · cases hlocked.working.symm.trans hw
    exact hwork _
  · exact h.wrote_aside hnot (hwrites.symm.trans hcontent)

/-- Locking a row that is neither `t` nor an edge of `t`. -/
theorem TxOk.lockOther (htask : k ≠ .task t) (hedge : ∀ d, k ≠ .edge t d) : TxOk base ids now calls t row committed owns won i tx' := by
  have hpending := h.pending _ hworking k (.head _)
  have hseesTask : (sees committed tx'.writes).task t = (sees committed tx.writes).task t := by
    simp only [Rows.task, hlocked.sees_of_ne htask.symm]
  have hseesEdge : ∀ d, (sees committed tx'.writes).edge t d = (sees committed tx.writes).edge t d := by
    intro d
    simp only [Rows.edge, hlocked.sees_of_ne (Ne.symm (hedge d))]
  refine h.locksAside hopen hworking hlocked htask (fun hp => htask (pending_of_promoting hp hpending))
    (hseesEdge i).trans (fun _ => (h.work _ hworking).lockOther hpending htask hedge hseesEdge) ?_
  rintro ⟨d, hd⟩ hb
  simp only [Rows.Blocked, Rows.HasEdge, hseesTask, hseesEdge] at hb ⊢
  refine h.later ⟨d, ?_⟩ hb
  rwa [← (hlocked.writes _).trans (if_neg (Ne.symm (hedge d)))]

end Aside

/-- Locking an edge of `t`, which the statement drops. -/
theorem TxOk.lockEdge {satisfied : List String}
    (hpoint : tx.point = .within (.dropSatisfiedEdges f satisfied frame))
    (hworking : tx.working = some ⟨snapshot, .edge t f :: rest, affected⟩)
    (hlocked : RowLocked committed tx tx' w snapshot (.edge t f) rest affected) (ht : t ∈ satisfied)
    (hgone : (sees committed tx'.writes).edge t f = none) : TxOk base ids now calls t row committed owns won i tx' := by
  refine h.locksAside (by rw [hpoint]; exact fun _ => nofun) hworking hlocked nofun (by rw [hpoint]; exact id)
    (fun hnone => ?_) (fun _ => by rw [hpoint]; exact fun _ => .inr hgone) fun _ _ => .inl (by rw [hpoint]; exact ht)
  by_cases hif : i = f
  · rw [hif]
    exact hgone
  · have hsame := hlocked.sees_of_ne (show Key.edge t i ≠ .edge t f by simpa using hif)
    simpa only [Rows.edge, hsame] using hnone

variable (hcommitted : committed.Blocked t → committed (.task t) = some (.task row))

include hcommitted

/-- What a call sees of `t` is the row of the start, or a promoted one. -/
theorem TxOk.seesTask (hblocked : (sees committed tx.writes).Blocked t) :
    sees committed tx.writes (.task t) = some (.task row) ∧ committed (.task t) = some (.task row) := by
  cases hwrites : tx.writes (.task t) with
  | none =>
    have hsame : sees committed tx.writes (.task t) = committed (.task t) := by simp [sees, hwrites]
    have hrow := hcommitted (by simpa only [Rows.Blocked, Rows.task, hsame] using hblocked)
    exact ⟨hsame.trans hrow, hrow⟩
  | some content =>
    obtain ⟨hrow, rfl | ⟨rfl, -⟩⟩ := h.wrote content hwrites
    · exact ⟨by simp [sees, hwrites], hrow⟩
    · exact absurd hblocked (not_blocked_of_promoted hwrites)

variable {waiting : List String}

/-- Locking `t` before looking at its edges. -/
theorem TxOk.lockTask (hpoint : tx.point = .within (.lockDependent t waiting frame))
    (hworking : tx.working = some ⟨snapshot, .task t :: rest, affected⟩)
    (hlocked : RowLocked committed tx tx' (lockBlockedDependentQuery t) snapshot (.task t) rest affected) :
    TxOk base ids now calls t row committed True won i tx' := by
  have hwrites' : tx'.writes (.task t) = _ := (hlocked.writes _).trans (if_pos rfl)
  have hnotPromoting : ¬ Promoting t tx.point := by
    rw [hpoint]
    exact id
  have hlater : Later t tx.point := by
    rw [hpoint]
    exact .head _
  have hblocked : (sees committed tx.writes).Blocked t →
      committed (.task t) = some (.task row) ∧
      (lockBlockedDependentQuery t).change snapshot (.task t) (sees committed tx.writes (.task t)) =
        some (some (.task row)) := by
    intro hblocked
    obtain ⟨hrow, hbase⟩ := h.seesTask hcommitted hblocked
    obtain ⟨dep, hdep, hstate⟩ := hblocked
    rw [Rows.task_eq_some, hrow, Option.some.injEq, Content.task.injEq] at hdep
    refine ⟨hbase, ?_⟩
    rw [hrow]
    simp [lockBlockedDependentQuery, updateTask, hdep, hstate]
  have hopen : ¬ (sees committed tx.writes).Blocked t →
      (lockBlockedDependentQuery t).change snapshot (.task t) (sees committed tx.writes (.task t)) = none :=
    updateTask_change_eq_none fun dep hdep => beq_iff_eq.mp hdep
  refine h.locks (by rw [hpoint]; exact fun _ => by rintro ⟨⟩) hworking hlocked (fun _ => trivial) (hlocked.sees_edge i).trans
    (fun _ hw => ?_) (fun _ _ => .inl hlater) (fun _ _ hp => absurd hp hnotPromoting) (fun content hcontent => ?_)
    fun hpromoted => ?_
  · cases hlocked.working.symm.trans hw
    rw [hpoint]
    refine fun _ => ⟨fun _ => trivial, .inr ?_⟩
    by_cases hb : (sees committed tx.writes).Blocked t
    · rw [(hblocked hb).2]
      exact .inl (by simp)
    · rw [hlocked.sees_of_unchanged (hopen hb)]
      exact .inr hb
  · replace hcontent := hwrites'.symm.trans hcontent
    by_cases hb : (sees committed tx.writes).Blocked t
    · rw [(hblocked hb).2] at hcontent
      cases hcontent
      exact ⟨(hblocked hb).1, .inl rfl⟩
    · rw [hopen hb, Option.none_or] at hcontent
      exact h.wrote_aside hnotPromoting hcontent
  · rw [hwrites', hopen (not_blocked_of_promoted hpromoted), Option.none_or, hpromoted]

/-- Locking `t` and promoting it. -/
theorem TxOk.promoteTask (hpoint : tx.point = .within (.promoteDependent t waiting frame))
    (hworking : tx.working = some ⟨snapshot, .task t :: rest, affected⟩)
    (hlocked : RowLocked committed tx tx' (promoteDependentQuery ids t (now i)) snapshot (.task t) rest affected) :
    TxOk base ids now calls t row committed True won i tx' := by
  have hwork := h.work _ hworking
  have haffected := h.affected _ hworking
  have hwrites' : tx'.writes (.task t) = _ := (hlocked.writes _).trans (if_pos rfl)
  have hworking' := hlocked.working
  rw [hpoint] at hwork haffected
  have hpromoting : Promoting t tx.point := by
    rw [hpoint]
    exact rfl
  have hinside : ∀ frame, tx.point ≠ .finished frame := by
    rw [hpoint]
    exact fun _ => nofun
  have hworkOk : ¬ (sees committed tx'.writes).Blocked t → ∀ w, tx'.working = some w →
      WorkOk ids t (sees committed tx'.writes) True w tx.point := by
    rintro hopen _ hw
    cases hlocked.working.symm.trans hw
    rw [hpoint]
    exact fun _ => ⟨fun hmem => (hwork rfl).1 (.tail _ hmem), .inr (.inl hopen)⟩
  by_cases hblocked : (sees committed tx.writes).Blocked t
  · obtain ⟨hrow, hbase⟩ := h.seesTask hcommitted hblocked
    have hchange : (promoteDependentQuery ids t (now i)).change snapshot (.task t)
        (sees committed tx.writes (.task t)) = some (some (.task (promotedRow row (now i)))) := by
      have hwaits := (hwork rfl).1 (.head _)
      obtain ⟨dep, hdep, hstate⟩ := hblocked
      rw [Rows.task_eq_some, hrow, Option.some.injEq, Content.task.injEq] at hdep
      rw [hrow]
      simp [promoteDependentQuery, updateTask, hdep, hstate, hwaits, promotedRow]
    have hnone : affected = [] := (haffected rfl).resolve_right fun hpromoted =>
      not_blocked_of_promoted hpromoted.2 hblocked
    rw [hchange, Option.some_or] at hwrites'
    rw [hchange, hnone] at hworking'
    refine h.locks hinside hworking hlocked (fun _ => trivial) (hlocked.sees_edge i).trans
      (hworkOk (not_blocked_of_promoted hwrites')) (fun _ hb => absurd hb (not_blocked_of_promoted hwrites'))
      (fun w hw _ => ?_) (fun content hcontent => ?_) fun _ => hwrites'
    · cases hworking'.symm.trans hw
      exact .inr ⟨rfl, hwrites'⟩
    · cases hwrites'.symm.trans hcontent
      exact ⟨hbase, .inr ⟨rfl, .inr ⟨_, hworking', hpromoting, by simp⟩⟩⟩
  · have hchange : (promoteDependentQuery ids t (now i)).change snapshot (.task t)
        (sees committed tx.writes (.task t)) = none := by
      refine updateTask_change_eq_none (fun dep hdep => ?_) hblocked
      rw [Bool.and_eq_true] at hdep
      exact beq_iff_eq.mp hdep.1
    rw [hchange, Option.none_or] at hwrites'
    have hopen : ¬ (sees committed tx'.writes).Blocked t := by
      rw [hlocked.sees_of_unchanged hchange]
      exact hblocked
    rw [hchange] at hworking'
    refine h.locks hinside hworking hlocked (fun _ => trivial) (hlocked.sees_edge i).trans (hworkOk hopen)
      (fun _ hb => absurd hb hopen) (fun w hw _ => ?_) (fun content hcontent => ?_) hwrites'.trans
    · cases hworking'.symm.trans hw
      simpa [hwrites'] using haffected rfl
    · obtain ⟨hrow, hsame | ⟨hnew, hevent | ⟨w, hw, -, hne⟩⟩⟩ := h.wrote content (hwrites'.symm.trans hcontent)
      · exact ⟨hrow, .inl hsame⟩
      · exact ⟨hrow, .inr ⟨hnew, .inl hevent⟩⟩
      · cases hworking.symm.trans hw
        exact ⟨hrow, .inr ⟨hnew, .inr ⟨_, hworking', hpromoting, by simpa using hne⟩⟩⟩

/-- A row that a statement locks. -/
theorem TxOk.lockRow (hworking : tx.working = some ⟨snapshot, k :: rest, affected⟩)
    (hprogram : (resolvers ids now).program i tx.point = .write w resume)
    (hlocked : RowLocked committed tx tx' w snapshot k rest affected) :
    TxOk base ids now calls t row committed (owns ∨ k = .task t) won i tx' := by
  have hpending := h.pending _ hworking k (.head _)
  have hopen : ∀ frame, tx.point ≠ .finished frame := by
    intro frame hfinished
    rw [hfinished] at hprogram
    cases hprogram
  by_cases htask : k = .task t
  · subst htask
    simp only [or_true]
    rcases hp : tx.point with _ | p | _ <;> rw [hp] at hpending hprogram <;> try cases hpending
    cases p with
    | cascadeCancel x =>
      have hfine := h.fine
      rw [hp] at hfine
      exact absurd (Key.task.inj hpending).symm hfine.1
    | lockDependent x =>
      obtain rfl := Key.task.inj hpending
      cases hprogram
      exact h.lockTask hcommitted hp hworking hlocked
    | promoteDependent x =>
      obtain rfl := Key.task.inj hpending
      cases hprogram
      exact h.promoteTask hcommitted hp hworking hlocked
    | dropDependentEdges => obtain ⟨_, ⟨⟩⟩ := hpending
    | dropSatisfiedEdges => obtain ⟨_, -, ⟨⟩⟩ := hpending
    | _ => cases hpending
  · simp only [htask, or_false]
    by_cases hedge : ∃ d, k = .edge t d
    · obtain ⟨d, rfl⟩ := hedge
      rcases hp : tx.point with _ | p | _ <;> rw [hp] at hpending hprogram <;> try cases hpending
      cases p with
      | dropDependentEdges x =>
        have hfine := h.fine
        rw [hp] at hfine
        obtain ⟨d', heq⟩ := hpending
        exact absurd (Key.edge.inj heq).1.symm hfine.1
      | dropSatisfiedEdges f satisfied =>
        obtain ⟨x, hx, heq⟩ := hpending
        obtain ⟨rfl, rfl⟩ := Key.edge.inj heq
        cases hprogram
        refine h.lockEdge hp hworking hlocked hx ?_
        cases hedge : (sees committed tx.writes).edge t d with
        | none =>
          have hchange : (dropSatisfiedEdgesQuery d satisfied).change snapshot (.edge t d)
              (sees committed tx.writes (.edge t d)) = none := by
            rw [Option.eq_none_iff_forall_ne_some]
            intro v hchange
            obtain ⟨x, d', policy, hkey, hlatest, -, -⟩ := deleteEdges_change hchange
            rw [Rows.edge_eq_some.mpr hlatest] at hedge
            cases hedge
          rw [hlocked.sees_of_unchanged hchange, hedge]
        | some policy =>
          have hchange : (dropSatisfiedEdgesQuery d satisfied).change snapshot (.edge t d)
              (sees committed tx.writes (.edge t d)) = some none := by
            rw [Rows.edge_eq_some.mp hedge]
            simp [dropSatisfiedEdgesQuery, deleteEdges, hx]
          simp only [Rows.edge, hlocked.sees_of_changed hchange]
      | _ => cases hpending
    · exact h.lockOther hopen hworking hlocked htask fun d hd => hedge ⟨d, hd⟩

end RowSteps

end Conveyor.Postgres.Concurrent
