import Conveyor.Postgres.LostWakeup.Programs

/-!
# Enqueueing a dependent: what every call keeps

One enqueue transaction runs among calls that enqueue nothing. Only that transaction may block the dependent or
give it an edge on its dependency, and a purge or a deletion holds no uncommitted write between two of its
statements.
-/

namespace Conveyor.Postgres.Concurrent

open Lib Lib.ReadCommitted

variable {I : Type} {ids : TaskIDs} {ops : I → Operation} {t d : String} {e i : I}

/-- What holds of a call; only the enqueue transaction `e` may block `t` or give it an edge on `d`. -/
structure PlainCall (ops : I → Operation) (t d : String) (e : I) (committed : Rows) (i : I)
    (tx : Tx Key Content CallPoint) : Prop where
  aborted : tx.aborted = true → tx.working = none ∧ ∀ k, tx.writes k = none
  edge : i ≠ e → ∀ content, tx.writes (.edge t d) = some content → content = none
  blocked : i ≠ e → ∀ row, tx.writes (.task t) = some (some (.task row)) → row.state = .blocked → committed.Blocked t
  typed : ∀ content, tx.writes (.task d) = some (some content) → ∃ row, content = .task row
  fresh : tx.working = none → Between tx.point → ∀ k, tx.writes k = none
  kept : (ops i).removes d = false → tx.writes (.task d) ≠ some none

/-- Every reachable state is plain. -/
structure Plain (ops : I → Operation) (t d : String) (e : I) (s : State I Key Content CallPoint) : Prop where
  locked : System.Locked s
  call : ∀ i, PlainCall ops t d e s.committed i (s.tx i)

variable {s s' : State I Key Content CallPoint}

/-- A transaction that works has not been rolled back. -/
theorem Plain.live (h : Plain ops t d e s) {w : Working Key Content} (hworking : (s.tx i).working = some w) :
    (s.tx i).aborted = false := by
  by_contra habort
  rw [Bool.not_eq_false] at habort
  rw [((h.call i).aborted habort).1] at hworking
  cases hworking

/-- The calls before their first statement. -/
theorem unstarted_plain (base : Rows) : Plain ops t d e (unstarted base ops) where
  locked _ _ h := absurd rfl h
  call _ := ⟨nofun, fun _ _ => nofun, fun _ _ => nofun, fun _ => nofun, fun _ _ _ => rfl, fun _ => nofun⟩

/-- `t` no longer waits on `d`. -/
def Gone (t d : String) (rows : Rows) : Prop := ¬ rows.Blocked t ∨ rows.edge t d = none

variable (h : Plain ops t d e s)

include h

/-- Once `t` has stopped waiting, no call makes it wait again. -/
theorem Plain.gone_view (hquiet : ∀ k, (s.tx e).writes k = none)
    (hgone : Gone t d s.committed) (j : I) : Gone t d (s.view j) := by
  have hother : ∀ k, (s.tx j).writes k ≠ none → j ≠ e := by
    rintro k hwritten rfl
    exact hwritten (hquiet k)
  refine hgone.imp (fun hopen => ?_) fun hedge => ?_
  · rintro ⟨row, hrow, hstate⟩
    refine hopen ?_
    cases hwritten : (s.tx j).writes (.task t) with
    | none => exact ⟨row, by simpa [Rows.task, State.view, hwritten] using hrow, hstate⟩
    | some content =>
      refine (h.call j).blocked (hother (.task t) (by rw [hwritten]; rintro ⟨⟩)) row ?_ hstate
      have hview : s.view j (.task t) = content := by simp [State.view, hwritten]
      rw [hwritten, ← hview, Rows.task_eq_some.mp hrow]
  · cases hwritten : (s.tx j).writes (.edge t d) with
    | none => simpa [Rows.edge, State.view, hwritten] using hedge
    | some content =>
      obtain rfl := (h.call j).edge (hother (.edge t d) (by rw [hwritten]; rintro ⟨⟩)) content hwritten
      simp [Rows.edge, State.view, hwritten]

/-- A call sees a task that it has not removed if it has written the row, or if the row is committed. -/
theorem Plain.stored_view (j : I) (hkept : (s.tx j).writes (.task d) ≠ some none) :
    Rows.task (s.view j) d ≠ none ↔ (s.tx j).writes (.task d) ≠ none ∨ Rows.task s.committed d ≠ none := by
  cases hwritten : (s.tx j).writes (.task d) with
  | none => simp [Rows.task, State.view, hwritten]
  | some content =>
    cases content with
    | none => exact absurd hwritten hkept
    | some content =>
      obtain ⟨row, rfl⟩ := (h.call j).typed content hwritten
      simp [Rows.task, State.view, hwritten]

variable [DecidableEq I] (hmove : (operations ids ops).Moves i s s')

include hmove

/-- A transaction that has been rolled back does not move. -/
theorem Plain.live_of_moves : (s.tx i).aborted = false := by
  cases hmove with
  | read hlive | start hlive | insert hlive | commit hlive | abort hlive => exact hlive
  | row hworking | skip hworking | finish hworking => exact h.live hworking

/-- The moves of the other calls leave a call plain. -/
theorem Plain.other {j : I} (hj : j ≠ i) : PlainCall ops t d e s'.committed j (s'.tx j) := by
  rw [hmove.tx_of_ne hj]
  have hcall := h.call j
  refine ⟨hcall.aborted, hcall.edge, fun hne row hrow hstate => ?_, hcall.typed, hcall.fresh, hcall.kept⟩
  obtain ⟨before, hbefore, hblocked⟩ := hcall.blocked hne row hrow hstate
  refine ⟨before, ?_, hblocked⟩
  have hsame : s'.committed (.task t) = s.committed (.task t) := by
    rcases hmove.committed with hsame | hview
    · rw [hsame]
    · -- the call holds the lock on `t`, so the one that commits has not written it
      have howner := h.locked j (.task t) (by rw [hrow]; nofun)
      have hnone : (s.tx i).writes (.task t) = none := by
        by_contra hwritten
        exact hj (Option.some.inj (howner.symm.trans (h.locked i _ hwritten)))
      simp [hview, State.view, hnone]
  simpa only [Rows.task, hsame] using hbefore

/-- A move that leaves a purge or a deletion between two statements leaves it no uncommitted writes. -/
theorem Plain.fresh_moves (hidle' : (s'.tx i).working = none) (hbetween : Between (s'.tx i).point) (k : Key) :
    (s'.tx i).writes k = none := by
  cases hmove with
  | read _ hidle hprogram =>
    rw [State.setTx_tx_self] at hbetween ⊢
    exact (h.call i).fresh hidle (program_read_between hprogram hbetween) k
  | start | skip =>
    rw [State.setTx_tx_self] at hidle'
    cases hidle'
  | row =>
    rw [State.lockRow_working] at hidle'
    cases hidle'
  | finish _ hprogram =>
    rw [State.setTx_tx_self] at hbetween
    exact absurd hbetween ((program_statementOk hprogram).within _)
  | insert _ _ hprogram =>
    have hpoint := (program_insert hprogram).2.1
    rw [State.insertRow_tx] at hbetween
    split at hbetween
    · obtain ⟨q, hq⟩ := hpoint true
      rw [hq] at hbetween
      cases hbetween
    · obtain ⟨q, hq⟩ := hpoint false
      rw [hq] at hbetween
      cases hbetween
  | commit | abort => simp

/-- Every move keeps the calls plain. -/
theorem Plain.moves (henqueue : ∀ i, i ≠ e → ∀ order tasks, ops i ≠ .enqueue order tasks) : Plain ops t d e s' := by
  refine ⟨h.locked.moves hmove, fun j => ?_⟩
  rcases eq_or_ne j i with rfl | hj
  · have hcall := h.call j
    have hinserts : ∀ {k content resume}, (operations ids ops).program j (s.tx j).point = .insert k content resume →
        j = e := by
      intro k content resume hprogram
      by_contra hne
      obtain ⟨⟨order, tasks, hop⟩, -⟩ := program_insert hprogram
      exact henqueue j hne order tasks hop
    refine ⟨fun habort => ?_, fun hne content hcontent => ?_, fun hne row hrow hstate => ?_, fun content hcontent => ?_,
      h.fresh_moves hmove, fun hremoves hnone => ?_⟩
    · have hlive := h.live_of_moves hmove
      cases hmove with
      | abort => simp
      | insert =>
        rw [State.insertRow_tx] at habort
        split at habort <;> exact absurd (hlive.symm.trans habort) nofun
      | _ => simp [hlive] at habort
    · cases (hmove.written hcontent).2 with
      | kept hold => exact hcall.edge hne content hold
      | changed _ hprogram hchange => exact (program_statementOk hprogram).mild.edge _ _ _ _ _ hchange
      | inserted hprogram => exact absurd (hinserts hprogram) hne
    · obtain ⟨hsame, hwritten⟩ := hmove.written hrow
      rw [hsame]
      cases hwritten with
      | kept hold => exact hcall.blocked hne row hold hstate
      | inserted hprogram => exact absurd (hinserts hprogram) hne
      | changed _ hprogram hchange =>
        obtain ⟨before, hbefore, hnone | ⟨row', hrow', hblocked⟩⟩ :=
          (program_statementOk hprogram).mild.task _ _ _ _ hchange
        · cases hnone
        · cases hrow'
          -- the row the statement changed was blocked, as committed or by an earlier write
          cases hwritten : (s.tx j).writes (.task t) with
          | none =>
            refine ⟨before, Rows.task_eq_some.mpr ?_, hblocked hstate⟩
            simpa [State.view, hwritten] using hbefore
          | some content =>
            refine hcall.blocked hne before ?_ (hblocked hstate)
            simpa [State.view, hwritten] using hbefore
    · cases (hmove.written hcontent).2 with
      | kept hold => exact hcall.typed content hold
      | inserted hprogram hv =>
        cases hv
        exact (program_insert hprogram).2.2 d rfl
      | changed _ hprogram hchange =>
        obtain ⟨_, -, hnone | ⟨row', hrow', -⟩⟩ := (program_statementOk hprogram).mild.task _ _ _ _ hchange
        · cases hnone
        · cases hrow'
          exact ⟨row', rfl⟩
    · cases (hmove.written hnone).2 with
      | kept hold => exact hcall.kept hremoves hold
      | inserted _ hv => cases hv
      | changed _ hprogram hchange =>
        rw [(program_statementOk hprogram).removes_of_change hchange] at hremoves
        cases hremoves
  · exact h.other hmove hj

end Conveyor.Postgres.Concurrent
