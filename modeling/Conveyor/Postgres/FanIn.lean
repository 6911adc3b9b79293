import Conveyor.Postgres.FanIn.Locks

/-!
# Concurrent fan-in

Each call drops its edge, locks the task and looks at the remaining edges in a fresh statement. The lock is
held until the call commits, so a call that finds an edge left knows that the call that drops this edge has yet
to take the lock. The last one to take it therefore finds no edge, and promotes the task.
-/

namespace Conveyor.Postgres.Concurrent

open Lib Lib.ReadCommitted

section Commits

variable {base : Rows} {ids : TaskIDs} {now : String → Time} {calls : List String} {t : String} {row : Row}
  {committed : Rows} {owns won won' : Prop} {i : String} {tx : Tx Key Content ResolvePoint} {frame : Frame}

/-- A call that commits has dropped its edge, and has emitted what it promoted. -/
theorem TxOk.ownCommit (h : TxOk base ids now calls t row committed owns won i tx)
    (hpoint : tx.point = .within (.returned frame))
    (hwon : tx.writes (.task t) = some (some (.task (promotedRow row (now i)))) → won') :
    TxOk base ids now calls t row (sees committed tx.writes) False won' i { point := .finished frame } where
  made hi := absurd (hpoint.symm.trans (h.made hi)) nofun
  fine := trivial
  pending _ hw := by cases hw
  owed hi := by
    have howed := h.owed hi
    rw [hpoint] at howed
    exact .inr (howed.resolve_left id)
  work _ hw := by cases hw
  locked := id
  later hdropped := absurd rfl hdropped.choose_spec
  affected _ hw := by cases hw
  wrote _ hcontent := by cases hcontent
  emits state hstate := by
    have hemits := h.emits state (by rw [hpoint]; exact hstate)
    obtain ⟨hstate, hpromoted | ⟨⟨frame', hfinished⟩, -⟩⟩ := hemits
    · exact ⟨hstate, .inr ⟨⟨frame, rfl⟩, hwon hpromoted⟩⟩
    · exact absurd (hpoint.symm.trans hfinished) nofun

section OtherCommit

variable {j : String} {ownsj wonj : Prop} {txj : Tx Key Content ResolvePoint} {frame : Frame}

/-- A call that commits without having locked `t` has dropped no edge of it, unless it was promoted before. -/
theorem TxOk.kept_edges (hj : TxOk base ids now calls t row committed ownsj wonj j txj)
    (hpoint : txj.point = .within (.returned frame)) (hlocked : txj.writes (.task t) ≠ none → ownsj)
    (hfree : ¬ ownsj) (hblocked : committed.Blocked t) (d : String) : txj.writes (.edge t d) = none := by
  by_contra hdropped
  have htask : txj.writes (.task t) = none := by
    by_contra hwritten
    exact hfree (hlocked hwritten)
  have hsame : (sees committed txj.writes).task t = committed.task t := by simp [Rows.task, sees, htask]
  have hlater := hj.later ⟨d, hdropped⟩ (by simpa only [Rows.Blocked, hsame] using hblocked)
  rw [hpoint] at hlater
  exact hlater.elim id fun howns => hfree howns.1

/-- The commit of another call. -/
theorem TxOk.otherCommit (hfan : FanIn base ids calls t row) (h : TxOk base ids now calls t row committed owns won i tx)
    (hj : TxOk base ids now calls t row committed ownsj wonj j txj) (hpoint : txj.point = .within (.returned frame))
    (hlocked : tx.writes (.task t) ≠ none → owns) (hlockedj : txj.writes (.task t) ≠ none → ownsj)
    (hexcl : owns → ¬ ownsj) (hwon : won → won')
    (hedges : ∀ d content, txj.writes (.edge t d) = some content → content = none) :
    TxOk base ids now calls t row (sees committed txj.writes) owns won' i tx := by
  have htask : committed (.task t) ≠ some (.task row) →
      sees committed txj.writes (.task t) = committed (.task t) := by
    intro hne
    cases hwritten : txj.writes (.task t) with
    | none => simp [sees, hwritten]
    | some content => exact absurd (hj.wrote content hwritten).1 hne
  have hcommitted : committed (.task t) = some (.task row) → committed.Blocked t :=
    fun hrow => ⟨row, Rows.task_eq_some.mpr hrow, hfan.blocked⟩
  -- edges only go away, and a task that is not blocked does not become blocked
  have hgone : ∀ d, (sees committed tx.writes).edge t d = none →
      (sees (sees committed txj.writes) tx.writes).edge t d = none := by
    intro d hnone
    cases hwritten : tx.writes (.edge t d) with
    | some content => simpa [Rows.edge, sees, hwritten] using hnone
    | none =>
      cases hother : txj.writes (.edge t d) with
      | none => simpa [Rows.edge, sees, hwritten, hother] using hnone
      | some content =>
        obtain rfl := hedges d content hother
        simp [Rows.edge, sees, hwritten, hother]
  have hblocked : (sees (sees committed txj.writes) tx.writes).Blocked t → (sees committed tx.writes).Blocked t := by
    intro hblocked
    cases hwritten : tx.writes (.task t) with
    | some content => simpa [Rows.Blocked, Rows.task, sees, hwritten] using hblocked
    | none =>
      have hsame : (sees committed tx.writes).task t = committed.task t := by simp [Rows.task, sees, hwritten]
      have hsame' : (sees (sees committed txj.writes) tx.writes).task t = (sees committed txj.writes).task t := by
        simp [Rows.task, sees, hwritten]
      simp only [Rows.Blocked, hsame, hsame'] at hblocked ⊢
      by_cases hrow : committed (.task t) = some (.task row)
      · exact hcommitted hrow
      · simpa only [Rows.task, htask hrow] using hblocked
  have hkept : owns → (sees (sees committed txj.writes) tx.writes).Blocked t →
      (sees committed tx.writes).HasEdge t → (sees (sees committed txj.writes) tx.writes).HasEdge t := by
    rintro howns hb ⟨d, hd⟩
    refine ⟨d, ?_⟩
    have hstill : committed.Blocked t := by
      cases hwritten : tx.writes (.task t) with
      | some content => exact hcommitted (h.wrote content hwritten).1
      | none =>
        have hsees := hblocked hb
        simpa [Rows.Blocked, Rows.task, sees, hwritten] using hsees
    have hnone := hj.kept_edges hpoint hlockedj (hexcl howns) hstill d
    simpa [Rows.edge, sees, hnone] using hd
  refine ⟨h.made, h.fine, h.pending, fun hi => (h.owed hi).imp_right (hgone i), fun w hw => ?_, h.locked,
    fun hdropped hb => ?_, h.affected, fun content hcontent => ?_, fun state hstate => ?_⟩
  · have hwork := h.work w hw
    rcases hp : tx.point with _ | p | _
    · trivial
    · rw [hp] at hwork
      cases p with
      | dropSatisfiedEdges f satisfied => exact fun ht => (hwork ht).imp_right (hgone f)
      | lockDependent x =>
        exact fun hx => ⟨(hwork hx).1, (hwork hx).2.imp_right (Or.imp_right (mt hblocked))⟩
      | promoteDependent x =>
        intro hx
        refine ⟨(hwork hx).1, (hwork hx).2.imp_right fun hleft => ?_⟩
        by_cases hb : (sees (sees committed txj.writes) tx.writes).Blocked t
        · have howns := h.locked (by rw [hp]; exact hx)
          exact .inr (hkept howns hb (hleft.resolve_left (not_not_intro (hblocked hb))))
        · exact .inl hb
      | _ => trivial
    · trivial
  · exact (h.later hdropped (hblocked hb)).imp_right fun hleft => ⟨hleft.1, hkept hleft.1 hb hleft.2⟩
  · obtain ⟨hrow, hcontent'⟩ := h.wrote content hcontent
    refine ⟨?_, hcontent'⟩
    have howns := hlocked (by rw [hcontent]; rintro ⟨⟩)
    have hnone : txj.writes (.task t) = none := by
      by_contra hwritten
      exact hexcl howns (hlockedj hwritten)
    simpa [sees, hnone] using hrow
  · exact (h.emits state hstate).imp_right (Or.imp_right (And.imp_right hwon))

end OtherCommit

end Commits

section Runs

variable {base : Rows} {ids : TaskIDs} {now : String → Time} {calls : List String} {t : String} {row : Row}
  {s s' : State String Key Content ResolvePoint} {winner : Option String} {i : String}

/-- The call has no transaction open. -/
def Outside : ResolvePoint → Prop
  | .within _ => False
  | _ => True

/-- What holds after every interleaving; `winner` is the call that has committed the promotion of `t`. -/
structure FanInv (base : Rows) (ids : TaskIDs) (now : String → Time) (calls : List String) (t : String) (row : Row)
    (winner : Option String) (s : State String Key Content ResolvePoint) : Prop where
  within : System.Within (Reachable base) (Writable base) s
  locked : System.Locked s
  closed : ∀ i, Outside (s.tx i).point → ∀ k, (s.tx i).writes k = none
  tx : ∀ i, (s.tx i).aborted = false →
    TxOk base ids now calls t row s.committed (s.owner (.task t) = some i) (winner = some i) i (s.tx i)
  waiting : Rows.Blocked s.committed t → Rows.HasEdge s.committed t
  unpromoted : winner = none → s.committed (.task t) = some (.task row)
  promoted : ∀ i, winner = some i → i ∈ calls ∧ (s.tx i).aborted = false ∧
    (∃ frame, (s.tx i).point = .finished frame) ∧
    (t, unblockedState row (now i)) ∈ (s.tx i).point.emitted ∧
    s.committed (.task t) = some (.task (promotedRow row (now i)))

/-- A committed row of `t` that is blocked is the one of the start. -/
theorem FanInv.committedRow (h : FanInv base ids now calls t row winner s) (hblocked : Rows.Blocked s.committed t) :
    s.committed (.task t) = some (.task row) := by
  cases hwinner : winner with
  | none => exact h.unpromoted hwinner
  | some i =>
    obtain ⟨-, -, -, -, hpromoted⟩ := h.promoted i hwinner
    obtain ⟨dep, hdep, hstate⟩ := hblocked
    rw [Rows.task_eq_some, hpromoted, Option.some.injEq, Content.task.injEq] at hdep
    rw [← hdep] at hstate
    exact absurd hstate (unblockedState_ne row (now i))

/-- A call that has finished takes no more steps. -/
theorem not_finished_of_moves (hmove : (resolvers ids now).Moves i s s') (frame : Frame) :
    (s.tx i).point ≠ .finished frame := by
  intro hpoint
  refine hmove.not_finished ?_
  rw [hpoint]
  rfl

/-- No statement of a call is limited. -/
theorem resolve_not_limited (hprogram : (resolvers ids now).program i p = .write w resume) : w.limited = false := by
  cases p with
  | hasDependents => cases hprogram
  | finished => cases hprogram
  | within point => cases point <;> cases hprogram <;> rfl

/-- A statement that writes stands inside the transaction, and so does what comes after it. -/
theorem resolve_write_inside (hprogram : (resolvers ids now).program i p = .write w resume) :
    ¬ Outside p ∧ ∀ affected, ¬ Outside (resume affected) := by
  cases p with
  | hasDependents => cases hprogram
  | finished => cases hprogram
  | within point =>
    refine ⟨id, fun affected => ?_⟩
    cases point with
    | lockDependent =>
      cases hprogram
      dsimp only
      split <;> exact id
    | _ =>
      cases hprogram
      try exact id

/-- A move that commits nothing. -/
theorem FanInv.quiet (h : FanInv base ids now calls t row winner s) (hmove : (resolvers ids now).Moves i s s')
    (hcommitted : s'.committed = s.committed)
    (hclosed : Outside (s'.tx i).point → ∀ k, (s'.tx i).writes k = none)
    (htx : (s'.tx i).aborted = false → TxOk base ids now calls t row s.committed
      (s'.owner (.task t) = some i) (winner = some i) i (s'.tx i)) :
    FanInv base ids now calls t row winner s' where
  within := h.within.moves (resolvers_bounds base ids now) hmove
  locked := h.locked.moves hmove
  closed j hj := by
    rcases eq_or_ne j i with rfl | hji
    · exact hclosed hj
    · rw [hmove.tx_of_ne hji] at hj ⊢
      exact h.closed j hj
  tx j hj := by
    rw [hcommitted]
    rcases eq_or_ne j i with rfl | hji
    · exact htx hj
    · rw [hmove.tx_of_ne hji] at hj ⊢
      rw [propext (hmove.owner_of_ne hji _)]
      exact h.tx j hj
  waiting := hcommitted ▸ h.waiting
  unpromoted := hcommitted ▸ h.unpromoted
  promoted j hj := by
    obtain ⟨hcall, hlive, ⟨frame, hfinished⟩, hrest⟩ := h.promoted j hj
    have hji : j ≠ i := by
      rintro rfl
      exact not_finished_of_moves hmove frame hfinished
    rw [hcommitted, hmove.tx_of_ne hji]
    exact ⟨hcall, hlive, ⟨frame, hfinished⟩, hrest⟩

section Commit

variable {frame : Frame}

/-- The commit of a call leaves `t` blocked only with an edge left. -/
theorem FanInv.waiting_commit (h : FanInv base ids now calls t row winner s) (hlive : (s.tx i).aborted = false)
    (hpoint : (s.tx i).point = .within (.returned frame)) (hblocked : Rows.Blocked (s.view i) t) :
    Rows.HasEdge (s.view i) t := by
  have hi := h.tx i hlive
  by_cases hdropped : ∃ d, (s.tx i).writes (.edge t d) ≠ none
  · have hlater := hi.later hdropped hblocked
    rw [hpoint] at hlater
    exact hlater.elim False.elim And.right
  · obtain ⟨hrow, hsame⟩ := hi.seesTask h.committedRow hblocked
    obtain ⟨dep, hdep, hstate⟩ := hblocked
    have hdep' := Rows.task_eq_some.mpr (hsame.trans (hrow.symm.trans (Rows.task_eq_some.mp hdep)))
    obtain ⟨d, hd⟩ := h.waiting ⟨dep, hdep', hstate⟩
    have hnone : (s.tx i).writes (.edge t d) = none := by
      by_contra hne
      exact hdropped ⟨d, hne⟩
    refine ⟨d, ?_⟩
    simpa [Rows.edge, State.view, hnone] using hd

/-- The commit of a call. -/
theorem FanInv.commit (hfan : FanIn base ids calls t row) (h : FanInv base ids now calls t row winner s)
    (hmove : (resolvers ids now).Moves i s (s.commitTx i (.finished frame)))
    (hlive : (s.tx i).aborted = false) (hidle : (s.tx i).working = none)
    (hpoint : (s.tx i).point = .within (.returned frame)) {winner' : Option String}
    (hwinner : (winner' = winner ∧ (s.tx i).writes (.task t) ≠ some (some (.task (promotedRow row (now i))))) ∨
      (winner' = some i ∧ (s.tx i).writes (.task t) = some (some (.task (promotedRow row (now i)))))) :
    FanInv base ids now calls t row winner' (s.commitTx i (.finished frame)) := by
  have hi := h.tx i hlive
  have hwrote : ∀ content, (s.tx i).writes (.task t) = some content → winner = none := by
    intro content hcontent
    rw [Option.eq_none_iff_forall_ne_some]
    intro j hj
    obtain ⟨-, -, -, -, hpromoted⟩ := h.promoted j hj
    have hrow := (hi.wrote content hcontent).1
    rw [hpromoted, Option.some.injEq, Content.task.injEq] at hrow
    exact hfan.promotedRow_ne _ hrow
  refine ⟨h.within.moves (resolvers_bounds base ids now) hmove, h.locked.moves hmove, fun j hj => ?_,
    fun j hj => ?_, h.waiting_commit hlive hpoint, fun hnone => ?_, fun j hj => ?_⟩
  · rcases eq_or_ne j i with rfl | hji
    · simp
    · rw [hmove.tx_of_ne hji] at hj ⊢
      exact h.closed j hj
  · rcases eq_or_ne j i with rfl | hji
    · have howner : (s.commitTx j (.finished frame)).owner (.task t) = some j ↔ False := by
        refine iff_false_intro fun howner => ?_
        exact (s.released_eq_some.mp howner).2 rfl
      rw [State.commitTx_tx_self, propext howner]
      refine hi.ownCommit hpoint fun hpromoted => ?_
      exact hwinner.elim (fun hw => absurd hpromoted hw.2) And.left
    · rw [hmove.tx_of_ne hji] at hj ⊢
      rw [propext (hmove.owner_of_ne hji _)]
      refine (h.tx j hj).otherCommit hfan hi hpoint (h.locked j _) (h.locked i _) (fun hown hown' => ?_)
        (fun hwon => ?_) fun d content hcontent => h.within.writes i _ content hcontent
      · exact hji (Option.some.inj (hown.symm.trans hown'))
      · rcases hwinner with ⟨rfl, -⟩ | ⟨-, hpromoted⟩
        · exact hwon
        · rw [hwrote _ hpromoted] at hwon
          cases hwon
  · rcases hwinner with ⟨rfl, hother⟩ | ⟨rfl, -⟩
    · have hrow := h.unpromoted hnone
      rw [State.commitTx_committed, State.view]
      cases hcontent : (s.tx i).writes (.task t) with
      | none => exact hrow
      | some content =>
        obtain ⟨-, rfl | ⟨rfl, -⟩⟩ := hi.wrote content hcontent
        · rfl
        · exact absurd hcontent hother
    · cases hnone
  · rcases hwinner with ⟨rfl, -⟩ | ⟨rfl, hpromoted⟩
    · obtain ⟨hcall, hjlive, ⟨frame', hfinished⟩, hemitted, hcommitted⟩ := h.promoted j hj
      have hji : j ≠ i := by
        rintro rfl
        exact not_finished_of_moves hmove frame' hfinished
      have hnone : (s.tx i).writes (.task t) = none := by
        by_contra hne
        obtain ⟨content, hcontent⟩ := Option.ne_none_iff_exists'.mp hne
        rw [hwrote content hcontent] at hj
        cases hj
      rw [hmove.tx_of_ne hji]
      refine ⟨hcall, hjlive, ⟨frame', hfinished⟩, hemitted, ?_⟩
      rw [State.commitTx_committed, State.view, hnone]
      exact hcommitted
    · cases hj
      have hcall : i ∈ calls := by
        by_contra hcall
        exact absurd (hpoint.symm.trans (hi.made hcall)) (by rintro ⟨⟩)
      rw [State.commitTx_tx_self]
      refine ⟨hcall, rfl, ⟨frame, rfl⟩, ?_, ?_⟩
      · obtain ⟨-, hsame | ⟨-, hemitted | ⟨w, hw, -⟩⟩⟩ := hi.wrote _ hpromoted
        · rw [Option.some.injEq, Content.task.injEq] at hsame
          exact absurd hsame (hfan.promotedRow_ne _)
        · rw [hpoint] at hemitted
          exact hemitted
        · rw [hidle] at hw
          cases hw
      · rw [State.commitTx_committed, State.view, hpromoted]
        rfl

end Commit

/-- A read leaves the calls that have a transaction open inside it. -/
theorem resolve_read_outside {resume : Rows → ResolvePoint}
    (hprogram : (resolvers ids now).program i p = .read resume) (hout : Outside (resume rows)) : Outside p := by
  cases p with
  | hasDependents => trivial
  | finished => cases hprogram
  | within point =>
    cases point with
    | terminalState =>
      cases hprogram
      dsimp only at hout
      split at hout <;> cases hout
    | edgesWaitingOn =>
      cases hprogram
      cases hout
    | _ => cases hprogram

/-- Every move keeps the invariant. -/
theorem FanInv.moves (hfan : FanIn base ids calls t row) (h : FanInv base ids now calls t row winner s)
    (hmove : (resolvers ids now).Moves i s s') : ∃ winner', FanInv base ids now calls t row winner' s' := by
  have hrows := h.within.view (resolvers_bounds base ids now) i
  cases hmove with
  | read hlive hidle hprogram =>
    refine ⟨winner, h.quiet (.read hlive hidle hprogram) rfl (fun hout => ?_) fun _ => ?_⟩
    · rw [State.setTx_tx_self] at hout ⊢
      exact h.closed i (resolve_read_outside hprogram hout)
    · rw [State.setTx_tx_self]
      exact (h.tx i hlive).read hfan hrows hidle hprogram
  | start hlive hidle hprogram hscan =>
    refine ⟨winner, h.quiet (.start hlive hidle hprogram hscan) rfl (fun hout => ?_) fun _ => ?_⟩
    · rw [State.setTx_tx_self] at hout
      exact absurd hout (resolve_write_inside hprogram).1
    · rw [State.setTx_tx_self]
      exact (h.tx i hlive).start hfan hrows hidle hprogram hscan
  | @row w _ snapshot k rest affected hworking hprogram hfree =>
    refine ⟨winner, h.quiet (.row hworking hprogram hfree) (s.lockRow_committed ..) (fun hout => ?_)
      fun hlive => ?_⟩
    · rw [State.lockRow_point] at hout
      exact absurd hout (resolve_write_inside hprogram).1
    · have howner : (s.lockRow i w snapshot k rest affected).owner (.task t) = some i ↔
          s.owner (.task t) = some i ∨ k = .task t := by
        rw [State.lockRow_owner, Function.update_apply]
        split_ifs with hk
        · simp [hk]
        · rename_i hk
          simp [Ne.symm hk]
      rw [propext howner]
      exact (h.tx i (by simpa using hlive)).lockRow h.committedRow hworking hprogram
        ⟨s.lockRow_point .., s.lockRow_working .., fun k' => s.lockRow_writes w snapshot rest affected k'⟩
  | skip _ hprogram hlimited =>
    rw [resolve_not_limited hprogram] at hlimited
    cases hlimited
  | finish hworking hprogram =>
    refine ⟨winner, h.quiet (.finish hworking hprogram) rfl (fun hout => ?_) fun hlive => ?_⟩
    · rw [State.setTx_tx_self] at hout
      exact absurd hout ((resolve_write_inside hprogram).2 _)
    · rw [State.setTx_tx_self] at hlive ⊢
      exact (h.tx i hlive).finish hfan hworking hprogram
  | insert _ _ hprogram => exact absurd hprogram (resolve_not_insert _ _ _)
  | commit hlive hidle hprogram =>
    have hmove := System.Moves.commit hlive hidle hprogram
    obtain ⟨frame, hpoint, rfl⟩ := resolve_commit hprogram
    by_cases hpromoted : (s.tx i).writes (.task t) = some (some (.task (promotedRow row (now i))))
    · exact ⟨some i, h.commit hfan hmove hlive hidle hpoint (.inr ⟨rfl, hpromoted⟩)⟩
    · exact ⟨winner, h.commit hfan hmove hlive hidle hpoint (.inl ⟨rfl, hpromoted⟩)⟩
  | abort hlive hopen =>
    refine ⟨winner, h.quiet (.abort hlive hopen) rfl (fun _ k => ?_) fun hlive' => ?_⟩
    · rw [State.abortTx_tx_self]
    · rw [State.abortTx_tx_self] at hlive'
      cases hlive'

/-- A call before its first statement has done nothing; one that is not made never will. -/
theorem initial_txOk (i : String) {point : ResolvePoint}
    (hpoint : (i ∈ calls ∧ point = .hasDependents) ∨ (i ∉ calls ∧ point = .finished {})) :
    TxOk base ids now calls t row base (none = some i) (none = some i) i { point := point } where
  made hi := hpoint.elim (fun h => absurd h.1 hi) And.right
  fine := by rcases hpoint with ⟨-, rfl⟩ | ⟨-, rfl⟩ <;> trivial
  pending _ hw := by cases hw
  owed hi := by
    rcases hpoint with ⟨-, rfl⟩ | ⟨hcall, -⟩
    · exact .inl trivial
    · exact absurd hi hcall
  work _ hw := by cases hw
  locked := by rcases hpoint with ⟨-, rfl⟩ | ⟨-, rfl⟩ <;> exact False.elim
  later hdropped := absurd rfl hdropped.choose_spec
  affected _ hw := by cases hw
  wrote _ hcontent := by cases hcontent
  emits _ hstate := by rcases hpoint with ⟨-, rfl⟩ | ⟨-, rfl⟩ <;> cases hstate

theorem FanIn.initial (hfan : FanIn base ids calls t row) :
    FanInv base ids now calls t row none (initial base calls) := by
  have htask := Rows.task_eq_some.mp hfan.task
  refine ⟨initial_within base calls, fun _ _ h => absurd rfl h, fun _ _ _ => rfl,
    fun i _ => initial_txOk i ?_, fun _ => ?_, fun _ => htask, nofun⟩
  · by_cases hi : i ∈ calls
    · exact .inl ⟨hi, if_pos hi⟩
    · exact .inr ⟨hi, if_neg hi⟩
  · obtain ⟨d, hd⟩ := List.exists_mem_of_ne_nil calls hfan.nonempty
    exact ⟨d, (hfan.edges d).mpr hd⟩

end Runs

/-- One `ResolveDependents` call runs for each dependency of a task that is blocked on dependencies which
all ended in its favour. However their statements interleave, once all calls have committed the task has no
edge left and exactly one call has promoted it, as its group and that call's clock reading say. -/
theorem resolveDependents_promotes_once {base : Rows} {ids : TaskIDs} {calls : List String} {t : String} {row : Row}
    (hfan : FanIn base ids calls t row) (now : String → Time) (events : List (ReadCommitted.Event String Key))
    (s : State String Key Content ResolvePoint)
    (hrun : (resolvers ids now).exec (initial base calls) events = some s)
    (hcommitted : ∀ d ∈ calls, (s.tx d).aborted = false ∧ ∃ frame, (s.tx d).point = .finished frame) :
    (∀ d, Rows.edge s.committed t d = none) ∧
      ∃ d ∈ calls, Rows.task s.committed t = some { row with state := unblockedState row (now d) } ∧
        ∀ d' ∈ calls, ∀ state, (t, state) ∈ (s.tx d').point.emitted ↔ d' = d ∧ state = unblockedState row (now d) := by
  obtain ⟨winner, h⟩ : ∃ winner, FanInv base ids now calls t row winner s :=
    System.exec_induction (P := fun s => ∃ winner, FanInv base ids now calls t row winner s) ⟨none, hfan.initial⟩
      (fun _ _ _ ⟨_, h⟩ hmove => h.moves hfan hmove) hrun
  have hedges : ∀ d, Rows.edge s.committed t d = none := by
    intro d
    by_contra hne
    obtain ⟨policy, hpolicy⟩ := Option.ne_none_iff_exists'.mp hne
    have hcall : d ∈ calls := by
      rw [← hfan.edges, Reachable.edge_eq (h.within.committed (.edge t d)) hpolicy]
      nofun
    obtain ⟨hlive, frame, hfinished⟩ := hcommitted d hcall
    have hnone := h.closed d (by rw [hfinished]; trivial) (.edge t d)
    have howed := (h.tx d hlive).owed hcall
    rw [hfinished] at howed
    refine hne ?_
    simpa [Rows.edge, sees, hnone] using howed.resolve_left id
  refine ⟨hedges, ?_⟩
  cases hwinner : winner with
  | none =>
    have hblocked : Rows.Blocked s.committed t := ⟨row, Rows.task_eq_some.mpr (h.unpromoted hwinner), hfan.blocked⟩
    obtain ⟨d, hd⟩ := h.waiting hblocked
    exact absurd (hedges d) hd
  | some d =>
    obtain ⟨hcall, -, -, hemitted, hrow⟩ := h.promoted d hwinner
    refine ⟨d, hcall, Rows.task_eq_some.mpr hrow, fun d' hd' state => ⟨fun hstate => ?_, ?_⟩⟩
    · obtain ⟨hlive, frame, hfinished⟩ := hcommitted d' hd'
      obtain ⟨rfl, hpromoted | ⟨-, hwon⟩⟩ := (h.tx d' hlive).emits state hstate
      · rw [h.closed d' (by rw [hfinished]; trivial)] at hpromoted
        cases hpromoted
      · cases hwinner.symm.trans hwon
        exact ⟨rfl, rfl⟩
    · rintro ⟨rfl, rfl⟩
      exact hemitted

section Examples

/-- Both calls drop their edge of `x` before either looks at the edges that are left; the call on `b` waits for
the lock on `x` until the one on `a` has committed. -/
def sharedEvents : List (ReadCommitted.Event String Key) :=
  [.read "a", .read "a", .read "a", .read "b", .read "b", .read "b",
   .start "a" [.edge "x" "a"], .row "a", .finish "a", .start "b" [.edge "x" "b"], .row "b", .finish "b",
   .start "a" [.task "x"], .row "a", .finish "a", .start "b" [.task "x"], .start "a" [], .finish "a", .commit "a",
   .row "b", .finish "b", .start "b" [.task "x"], .row "b", .finish "b", .commit "b"]

theorem twoDependencies_fanIn :
    FanIn (twoDependencies 3) sampleIDs ["a", "b"] "x" (plainRow .blocked) where
  listed k hk := by
    unfold twoDependencies at hk
    split at hk
    all_goals first | decide | exact absurd rfl hk
  task := rfl
  blocked := rfl
  edges d := by
    rw [List.mem_cons, List.mem_singleton]
    refine ⟨fun hedge => ?_, ?_⟩
    · rw [Rows.edge] at hedge
      by_contra hother
      refine hedge ?_
      unfold twoDependencies
      split <;> simp_all
    · rintro (rfl | rfl) <;> rintro ⟨⟩
  nonempty := by rintro ⟨⟩
  ended d hd := by
    simp only [List.mem_cons, List.not_mem_nil, or_false] at hd
    rcases hd with rfl | rfl
    · exact ⟨_, rfl, .inr ⟨rfl, rfl⟩⟩
    · exact ⟨_, rfl, .inl rfl⟩

/-- The second call to take the lock promotes `x`. -/
theorem resolveDependents_promotes_once_shared :
    ∃ s, (resolvers sampleIDs fun _ => 0).exec (initial (twoDependencies 3) ["a", "b"]) sharedEvents = some s ∧
      (∀ d, Rows.edge s.committed "x" d = none) ∧ ∃ d ∈ ["a", "b"], Rows.task s.committed "x" =
      some (plainRow .pending) ∧ ∀ d' ∈ ["a", "b"], ∀ state, ("x", state) ∈ (s.tx d').point.emitted ↔ d' = d ∧ state =
      .pending := by
  refine ⟨_, rfl, resolveDependents_promotes_once twoDependencies_fanIn (fun _ => 0) sharedEvents _ rfl
    fun d hd => ?_⟩
  simp only [List.mem_cons, List.not_mem_nil, or_false] at hd
  rcases hd with rfl | rfl
  · exact ⟨rfl, _, rfl⟩
  · exact ⟨rfl, _, rfl⟩

end Examples

end Conveyor.Postgres.Concurrent
