import Conveyor.Postgres.LostWakeup.Plain
import Mathlib.Data.List.Infix

/-!
# Enqueueing a dependent while its dependency is removed

An enqueue transaction reads its dependencies without a lock, and its edges become visible when it commits.
A purge or a deletion that overlaps the transaction may therefore look for waiting dependents, find none, and
remove a dependency the transaction has found. The dependent then waits for a row that is gone. If no purge
and no deletion of the dependency is in progress between the read and the commit, every later one sees the
edge.
-/

namespace Conveyor.Postgres.Concurrent

open Lib Lib.ReadCommitted

section Runs

variable {I : Type} {ids : TaskIDs} {ops : I → Operation} {t d : String} {e i : I}
  {s s' : State I Key Content CallPoint} {tx : Tx Key Content CallPoint}

/-- A purge or a deletion has looked for dependents of `d` only after `t` had stopped waiting, if it goes on. -/
structure RemovalOk (ids : TaskIDs) (ops : I → Operation) (d : String) (gone : Prop) (i : I)
    (tx : Tx Key Content CallPoint) : Prop where
  checked : ops i = .deleteTask d → tx.point = .delete .delete → gone
  purging : (ops i).removes d = true → ∀ w, tx.working = some w →
    ∀ statement purged, tx.point = .purge (.issue statement purged) →
    (Rows.database ids w.snapshot).hasDependents d = false → gone
  removed : tx.writes (.task d) = some none → gone

/-- What a removal has found stays found. -/
theorem RemovalOk.mono {gone gone' : Prop} (h : RemovalOk ids ops d gone i tx)
    (himp : gone → gone') : RemovalOk ids ops d gone' i tx :=
  ⟨fun hop hpoint => himp (h.checked hop hpoint),
    fun hop w hw statement purged hpoint hdep => himp (h.purging hop w hw statement purged hpoint hdep),
    fun hnone => himp (h.removed hnone)⟩

/-- After the enqueue transaction has committed, `d` is there for as long as `t` waits on it. -/
structure Settled (ids : TaskIDs) (ops : I → Operation) (t d : String) (e : I)
    (s : State I Key Content CallPoint) : Prop where
  ended : (s.tx e).point = .enqueue .finished
  quiet : ∀ k, (s.tx e).writes k = none
  stored : Gone t d s.committed ∨ Rows.task s.committed d ≠ none
  removing : ∀ i, (s.tx i).aborted = false → RemovalOk ids ops d (Gone t d s.committed) i (s.tx i)

/-- The call has not begun, or is over. -/
def idle (tx : Tx Key Content CallPoint) : Bool :=
  tx.aborted || (tx.working.isNone && match tx.point with
    | .purge (.issue .releaseAllLapsed _) | .purge (.finished _) => true
    | .delete .hasWaitingDependents | .delete (.finished _) => true
    | _ => false)

/-- The enqueue transaction is neither committed nor rolled back. -/
def isOpen (tx : Tx Key Content CallPoint) : Bool :=
  !tx.aborted && match tx.point with
    | .enqueue .finished => false
    | _ => true

/-- From its read to its commit, the enqueue transaction sees `d`, and nobody has removed it. -/
structure Pending (d : String) (e : I) (s : State I Key Content CallPoint) : Prop where
  live : (s.tx e).aborted = false
  unfinished : (s.tx e).point ≠ .enqueue .finished
  stored : Rows.task (s.view e) d ≠ none
  kept : ∀ i, (s.tx i).writes (.task d) ≠ some none

/-- A call in the middle of a statement is not idle. -/
theorem idle_of_working {w : Working Key Content} (hlive : tx.aborted = false)
    (hworking : tx.working = some w) : idle tx = false := by
  simp [idle, hlive, hworking]

/-- A pending enqueue transaction is open. -/
theorem Pending.isOpen (h : Pending d e s) : Concurrent.isOpen (s.tx e) = true := by
  rw [Concurrent.isOpen, h.live]
  have hunfinished := h.unfinished
  split
  · rename_i hpoint
    exact absurd hpoint hunfinished
  · rfl

/-- An idle purge or deletion has no uncommitted writes. -/
theorem Plain.idle_writes (h : Plain ops t d e s) (hidle : idle (s.tx i) = true) (k : Key) :
    (s.tx i).writes k = none := by
  rw [idle, Bool.or_eq_true, Bool.and_eq_true, Option.isNone_iff_eq_none] at hidle
  rcases hidle with habort | ⟨hworking, hpoint⟩
  · exact ((h.call i).aborted habort).2 k
  · refine (h.call i).fresh hworking ?_ k
    split at hpoint
    any_goals
      rename_i hq
      rw [hq]
      trivial
    cases hpoint

variable [DecidableEq I]

/-- The commit of the enqueue transaction. -/
theorem Pending.commit (h : Pending d e s) (hidle : ∀ i, (ops i).removes d = true → idle (s.tx i) = true) :
    Settled ids ops t d e (s.commitTx e (.enqueue .finished)) := by
  refine ⟨by simp, by simp, .inr ?_, fun j hj => ?_⟩
  · rw [State.commitTx_committed]
    exact h.stored
  · rcases eq_or_ne j e with rfl | hje
    · rw [State.commitTx_tx_self]
      exact ⟨nofun, nofun, nofun⟩
    · rw [State.commitTx_tx_of_ne _ hje] at hj ⊢
      refine ⟨fun hdelete hpoint => ?_, fun hremoves w hw => ?_, fun hnone => absurd hnone (h.kept j)⟩
      · have hquiet := hidle j (by rw [hdelete]; exact beq_self_eq_true d)
        simp [idle, hj, hpoint] at hquiet
      · exact absurd (hidle j hremoves) (by simp [idle_of_working hj hw])

variable (hplain : Plain ops t d e s) (hmove : (operations ids ops).Moves i s s')

include hplain hmove

section Settled

variable (h : Settled ids ops t d e s) (henqueue : ∀ i, i ≠ e → ∀ order tasks, ops i ≠ .enqueue order tasks)
  (ht : t ∈ ids.list) (hd : d ∈ ids.list)

include h henqueue ht hd

/-- A move of a purge or a deletion once the enqueue transaction has committed. -/
theorem Settled.removal (hi : i ≠ e) : RemovalOk ids ops d (Gone t d s.committed) i (s'.tx i) := by
  have hremoval := h.removing i (hplain.live_of_moves hmove)
  have hremoved : (s'.tx i).writes (.task d) = some none → Gone t d s.committed := by
    intro hnone
    cases (hmove.written hnone).2 with
    | kept hold => exact hremoval.removed hold
    | inserted _ hcontent => cases hcontent
    | changed hworking hprogram hchange =>
      rcases (program_statementOk hprogram).removes _ _ _ hchange with
        ⟨⟨statement, purged, hpoint⟩, hop, hdependents⟩ | ⟨hpoint, hop⟩
      · exact hremoval.purging hop _ hworking statement purged hpoint hdependents
      · exact hremoval.checked hop hpoint
  -- between two statements of its own, the call sees what is committed
  have hview : (s.tx i).working = none → Between (s.tx i).point → s.view i = s.committed := by
    intro hidle hbetween
    funext k
    simp [State.view, (hplain.call i).fresh hidle hbetween k]
  refine ⟨?_, ?_, hremoved⟩
  · intro hop hpoint
    cases hmove with
    | read _ hidle hprogram =>
      rw [State.setTx_tx_self] at hpoint
      obtain ⟨hbetween, hwaiting⟩ := program_read_delete hprogram hop hpoint
      rw [hview hidle hbetween] at hwaiting
      exact h.stored.elim id (Rows.not_waiting ht hd hwaiting)
    | @finish _ resume _ affected _ hprogram =>
      rw [State.setTx_tx_self] at hpoint
      refine absurd ?_ ((program_statementOk hprogram).within affected)
      rw [show resume affected = _ from hpoint]
      trivial
    | insert _ _ hprogram =>
      obtain ⟨⟨order, tasks, hop⟩, -⟩ := program_insert hprogram
      exact absurd hop (henqueue i hi order tasks)
    | commit _ _ hprogram =>
      rw [State.commitTx_tx_self] at hpoint
      change (ops i).program ids _ = _ at hprogram
      rw [hop] at hprogram
      exact absurd hpoint (program_commit_delete hprogram)
    | start | skip | row | abort => exact hremoval.checked hop (by simpa using hpoint)
  · intro hop w hw statement purged hpoint hdependents
    cases hmove with
    | start _ hidle =>
      rw [State.setTx_tx_self] at hw hpoint
      cases hw
      rw [hview hidle (by rw [show (s.tx i).point = _ from hpoint]; trivial)] at hdependents
      exact .inr (Rows.edge_eq_none_of_hasDependents ht hd hdependents)
    | row hworking =>
      rw [State.lockRow_working] at hw
      cases hw
      exact hremoval.purging hop _ hworking statement purged (by simpa using hpoint) hdependents
    | skip hworking =>
      rw [State.setTx_tx_self] at hw hpoint
      cases hw
      exact hremoval.purging hop _ hworking statement purged hpoint hdependents
    | read _ hidle =>
      rw [State.setTx_tx_self] at hw
      cases hidle.symm.trans hw
    | insert _ hidle =>
      rw [State.insertRow_tx] at hw
      split at hw <;> cases hidle.symm.trans hw
    | finish | commit | abort => simp at hw

/-- The moves after the enqueue transaction has committed. -/
theorem Settled.moves : Settled ids ops t d e s' := by
  have hi : i ≠ e := by
    rintro rfl
    refine hmove.not_finished ?_
    rw [h.ended]
    exact program_over
  have hremoval := h.removal hplain hmove henqueue ht hd hi
  have hcommitted := hmove.committed
  have hgone : Gone t d s.committed → Gone t d s'.committed := by
    rcases hcommitted with hsame | hview
    · rw [hsame]
      exact id
    · rw [hview]
      exact fun hgone => hplain.gone_view h.quiet hgone i
  refine ⟨?_, ?_, ?_, fun j hj => ?_⟩
  · rw [hmove.tx_of_ne hi.symm]
    exact h.ended
  · rw [hmove.tx_of_ne hi.symm]
    exact h.quiet
  · rcases h.stored with hg | hstored
    · exact .inl (hgone hg)
    · rcases hcommitted with hsame | hview
      · exact .inr (hsame ▸ hstored)
      · by_cases hremoved : (s.tx i).writes (.task d) = some none
        · exact .inl (hgone ((h.removing i (hplain.live_of_moves hmove)).removed hremoved))
        · rw [hview]
          exact .inr ((hplain.stored_view i hremoved).mpr (.inr hstored))
  · rcases eq_or_ne j i with rfl | hji
    · exact hremoval.mono hgone
    · rw [hmove.tx_of_ne hji] at hj ⊢
      exact (h.removing j hj).mono hgone

end Settled

section Pending

variable (h : Pending d e s) (hidle : ∀ i, (ops i).removes d = true → idle (s.tx i) = true)

include h hidle

/-- No call removes `d` while those that might are idle. -/
theorem Pending.kept_moves (j : I) : (s'.tx j).writes (.task d) ≠ some none := by
  rcases eq_or_ne j i with rfl | hj
  · intro hnone
    cases (hmove.written hnone).2 with
    | kept hold => exact h.kept j hold
    | inserted _ hcontent => cases hcontent
    | changed hworking hprogram hchange =>
      have hremoves := (program_statementOk hprogram).removes_of_change hchange
      exact absurd (hidle j hremoves) (by simp [idle_of_working (hplain.live hworking) hworking])
  · rw [hmove.tx_of_ne hj]
    exact h.kept j

/-- The moves between the read of the enqueue transaction and its end. -/
theorem Pending.moves (hplain' : Plain ops t d e s') {order : Nat → EnqueueOrder} {tasks : List PreparedEnqueue}
    (hop : ops e = .enqueue order tasks) :
    (s'.tx e).aborted = true ∨ Pending d e s' ∨ Settled ids ops t d e s' := by
  have hkept := h.kept_moves hplain hmove hidle
  have hcommitted : Rows.task s.committed d ≠ none → Rows.task s'.committed d ≠ none := by
    intro hstored
    rcases hmove.committed with hsame | hview
    · rw [hsame]
      exact hstored
    · rw [hview]
      exact (hplain.stored_view i (h.kept i)).mpr (.inr hstored)
  -- the transaction goes on seeing `d` as long as it keeps its own writes
  have hpending : (s'.tx e).aborted = false → (s'.tx e).point ≠ .enqueue .finished →
      ((s.tx e).writes (.task d) ≠ none → (s'.tx e).writes (.task d) ≠ none) → Pending d e s' :=
    fun hlive hunfinished hwrites => ⟨hlive, hunfinished, (hplain'.stored_view e (hkept e)).mpr
      (((hplain.stored_view e (h.kept e)).mp h.stored).imp hwrites hcommitted), hkept⟩
  rcases eq_or_ne i e with rfl | hi
  · have hprogramOf : (operations ids ops).program i = (Operation.enqueue order tasks).program ids := by
      rw [← hop]
      rfl
    cases hmove with
    | read hlive _ hprogram =>
      exact .inr (.inl (hpending (by simpa using hlive)
        (by simpa using program_read_unfinished (hprogramOf ▸ hprogram) _) (by simp)))
    | start hlive => exact .inr (.inl (hpending (by simpa using hlive) (by simpa using h.unfinished) (by simp)))
    | skip => exact .inr (.inl (hpending (by simpa using h.live) (by simpa using h.unfinished) (by simp)))
    | finish _ hprogram =>
      exact .inr (.inl (hpending (by simpa using h.live)
        (by simpa using program_write_unfinished (hprogramOf ▸ hprogram) _) (by simp)))
    | row =>
      refine .inr (.inl (hpending (by simpa using h.live) (by simpa using h.unfinished) fun hwritten hnone => ?_))
      rw [State.lockRow_writes] at hnone
      split at hnone
      · rename_i hk
        exact hwritten (hk ▸ (Option.or_eq_none_iff.mp hnone).2)
      · exact hwritten hnone
    | insert _ _ hprogram =>
      refine .inr (.inl (hpending ?_ ?_ fun hwritten hnone => ?_))
      · rw [State.insertRow_tx]
        split <;> exact h.live
      · rw [State.insertRow_tx]
        split <;> exact program_insert_unfinished (hprogramOf ▸ hprogram) _
      · rw [State.insertRow_writes] at hnone
        split at hnone
        · cases hnone
        · exact hwritten hnone
    | commit _ _ hprogram =>
      obtain rfl := program_commit_enqueue (hprogramOf ▸ hprogram)
      exact .inr (.inr (h.commit hidle))
    | abort => exact .inl (by simp)
  · rw [hmove.tx_of_ne hi.symm] at hpending
    exact .inr (.inl (hpending h.live h.unfinished id))

end Pending

omit hplain hmove

/-- What holds from the read of the enqueue transaction on. -/
def Tracked (ids : TaskIDs) (ops : I → Operation) (t d : String) (e : I) (s : State I Key Content CallPoint) : Prop :=
  Plain ops t d e s ∧ ((s.tx e).aborted = true ∨ Pending d e s ∨ Settled ids ops t d e s)

/-- Every move of an interleaving keeps what holds from the read on. -/
theorem Tracked.moves (henqueue : ∀ i, i ≠ e → ∀ order tasks, ops i ≠ .enqueue order tasks) (ht : t ∈ ids.list)
    (hd : d ∈ ids.list) (hop : ops e = .enqueue order tasks)
    (hidle : isOpen (s.tx e) = true → ∀ i, (ops i).removes d = true → idle (s.tx i) = true)
    (h : Tracked ids ops t d e s) (hmove : (operations ids ops).Moves i s s') : Tracked ids ops t d e s' := by
  obtain ⟨hplain, hphase⟩ := h
  have hplain' := hplain.moves hmove henqueue
  refine ⟨hplain', ?_⟩
  rcases hphase with habort | hpending | hsettled
  · have hi : e ≠ i := by
      rintro rfl
      rw [hplain.live_of_moves hmove] at habort
      cases habort
    rw [hmove.tx_of_ne hi]
    exact .inl habort
  · exact hpending.moves hplain hmove (hidle hpending.isOpen) hplain' hop
  · exact .inr (.inr (hsettled.moves hplain hmove henqueue ht hd))

end Runs

/-- An enqueue transaction finds `d` at a read of dependencies. If no purge and no deletion of `d` is in progress
at any moment from then on until the transaction ends, then once it has committed, no task `t` is blocked on an
edge to `d` without the row of `d`, however the statements of the calls interleave. -/
theorem enqueue_no_lost_wakeup {I : Type} [DecidableEq I] (ids : TaskIDs) (ops : I → Operation) (base : Rows)
    (e : I) (order : Nat → EnqueueOrder) (tasks : List PreparedEnqueue) (hop : ops e = .enqueue order tasks)
    (henqueue : ∀ i, i ≠ e → ∀ order tasks, ops i ≠ .enqueue order tasks)
    (t d : String) (ht : t ∈ ids.list) (hd : d ∈ ids.list)
    (before after : List (ReadCommitted.Event I Key)) (s₁ s : State I Key Content CallPoint)
    (hbefore : (operations ids ops).exec (unstarted base ops) before = some s₁)
    (hexists : Rows.task (s₁.view e) d ≠ none)
    (hafter : (operations ids ops).exec s₁ (.read e :: after) = some s)
    (hapart : ∀ run next, run <+: after → (operations ids ops).exec s₁ (.read e :: run) = some next →
      isOpen (next.tx e) = true → ∀ i, (ops i).removes d = true → idle (next.tx i) = true)
    (hcommitted : (s.tx e).aborted = false ∧ (s.tx e).point = .enqueue .finished) :
    ¬ (Rows.task s.committed d = none ∧ Rows.Blocked s.committed t ∧ Rows.edge s.committed t d ≠ none) := by
  have hplain : Plain ops t d e s₁ :=
    System.exec_induction (unstarted_plain base) (fun i s s' h hmove => h.moves hmove henqueue) hbefore
  obtain ⟨s₂, hread, hrest⟩ := Option.bind_eq_some_iff.mp hafter
  have hrun : ∀ run, (operations ids ops).exec s₁ (.read e :: run) = (operations ids ops).exec s₂ run := by
    intro run
    rw [System.exec, hread]
    rfl
  have htracked₂ : Tracked ids ops t d e s₂ := by
    simp only [System.advance] at hread
    split at hread
    · rename_i resume hlive hidle hprogram
      cases hread
      have hmove := System.Moves.read hlive hidle hprogram
      have hplain₂ := hplain.moves hmove henqueue
      have hprogramOf : (operations ids ops).program e = (Operation.enqueue order tasks).program ids := by
        rw [← hop]
        rfl
      have hunfinished := program_read_unfinished (hprogramOf ▸ hprogram) (s₁.view e)
      have hopen : isOpen ((s₁.setTx e { s₁.tx e with point := resume (s₁.view e) }).tx e) = true := by
        rw [State.setTx_tx_self, isOpen, hlive]
        split
        · rename_i hpoint
          exact absurd hpoint hunfinished
        · rfl
      refine ⟨hplain₂, .inr (.inl ⟨by simpa using hlive, by simpa using hunfinished, ?_, fun i => ?_⟩)⟩
      · have hview : (s₁.setTx e { s₁.tx e with point := resume (s₁.view e) }).view e = s₁.view e := by
          refine s₁.setTx_view ?_ e
          rfl
        rw [hview]
        exact hexists
      · cases hremoves : (ops i).removes d with
        | false => exact (hplain₂.call i).kept hremoves
        | true =>
          have hidle₂ := hapart [] _ (List.nil_prefix) (hrun []) hopen i hremoves
          rw [hplain₂.idle_writes hidle₂]
          rintro ⟨⟩
    · cases hread
  have htracked := System.exec_induction_along
      (C := fun s => isOpen (s.tx e) = true → ∀ i, (ops i).removes d = true → idle (s.tx i) = true) htracked₂
      (fun _ _ _ hcond h hmove => h.moves henqueue ht hd hop hcond hmove)
      (fun run next hprefix hnext => hapart run next hprefix ((hrun run).trans hnext)) hrest
  obtain ⟨-, habort | hpending | hsettled⟩ := htracked
  · rw [hcommitted.1] at habort
    cases habort
  · exact absurd hcommitted.2 hpending.unfinished
  · rintro ⟨hnone, hblocked, hedge⟩
    rcases hsettled.stored with (hopen | hgone) | hstored
    · exact hopen hblocked
    · exact hedge hgone
    · exact hstored hnone

section Examples

/-- The callers of the examples. -/
inductive Caller where
  | producer
  | worker
  | resolver
  | purger
  | admin
  | sweeper
  deriving DecidableEq

/-- The task `t` that depends on `d`, as it is prepared for its insertion. -/
def preparedDependent : List PreparedEnqueue :=
  match prepareEnqueue { id := "t", options := { dependsOn := [{ taskId := "d" }] } } 0 with
  | .ok prepared => [prepared]
  | .error _ => []

/-- `t` is enqueued while `d` is acknowledged, resolved, purged, deleted and swept. -/
def dependentOps : Caller → Operation
  | .producer => .enqueue (fun _ => {}) preparedDependent
  | .worker => .ack "d" "L" 1
  | .resolver => .resolveDependents "d" 1
  | .purger => .purgeTerminal 2 0 10
  | .admin => .deleteTask "d"
  | .sweeper => .promoteReadyDependents 3 3 {} 10

/-- The tasks of the examples. -/
def dependentIDs : TaskIDs := ⟨["d", "t"], by decide⟩

/-- `d` is active under lease `L`. -/
def activeDependency : Rows
  | .task "d" => some (.task { plainRow .active with leaseID := some "L" })
  | _ => none

/-- The producer has read that `d` is active. Before it inserts `t`, the worker completes `d`, the resolver finds
no edge, and the purge removes `d`; then the producer commits, and neither the deletion nor the sweep changes
anything. -/
def lostWakeup : List (ReadCommitted.Event Caller Key) :=
  [.read .producer,
   .start .worker [.task "d"], .row .worker, .finish .worker, .commit .worker, .read .resolver,
   .start .purger [], .finish .purger, .commit .purger, .start .purger [], .finish .purger, .commit .purger,
   .start .purger [.task "d"], .row .purger, .finish .purger, .commit .purger,
   .insert .producer, .insert .producer, .commit .producer,
   .read .admin, .start .admin [], .finish .admin, .commit .admin, .read .admin,
   .read .sweeper, .start .sweeper [], .finish .sweeper, .commit .sweeper]

/-- `d` was completed and its row is gone, and `t` stays blocked on it after every call has finished. -/
theorem enqueue_lost_wakeup :
    (∃ row, Rows.task ((unstarted activeDependency dependentOps).view .producer) "d" = some row ∧
      terminal row.state = false) ∧
    (∃ s, (operations dependentIDs dependentOps).exec (unstarted activeDependency dependentOps)
      (lostWakeup.take 5) = some s ∧ (Rows.task s.committed "d").map Row.state = some .completed) ∧
    ∃ s, (operations dependentIDs dependentOps).exec (unstarted activeDependency dependentOps) lostWakeup = some s ∧
      (∀ i, (s.tx i).aborted = false ∧ (operations dependentIDs dependentOps).program i (s.tx i).point = .finished) ∧
      Rows.task s.committed "d" = none ∧ Rows.Blocked s.committed "t" ∧ Rows.edge s.committed "t" "d" ≠ none := by
  refine ⟨⟨_, rfl, rfl⟩, ⟨_, rfl, rfl⟩, _, rfl, fun i => ?_, rfl, ⟨_, rfl, rfl⟩, nofun⟩
  cases i <;> exact ⟨rfl, rfl⟩

/-- The purge and the deletion begin after the producer has committed: the first skips `d`, the second is refused,
and the sweep promotes `t`. -/
def keptWakeup : List (ReadCommitted.Event Caller Key) :=
  [.start .worker [.task "d"], .row .worker, .finish .worker, .commit .worker, .read .resolver,
   .insert .producer, .insert .producer, .commit .producer,
   .start .purger [], .finish .purger, .commit .purger, .start .purger [], .finish .purger, .commit .purger,
   .start .purger [], .finish .purger, .commit .purger, .read .admin]

/-- The callers that might remove `d` are idle as long as the producer is at work. -/
def apart (s : State Caller Key Content CallPoint) : Bool :=
  !isOpen (s.tx .producer) || [Caller.purger, .admin].all fun i => idle (s.tx i)

/-- No removal is in progress while the producer is at work. -/
theorem keptWakeup_apart : ∀ run next, run <+: keptWakeup →
    (operations dependentIDs dependentOps).exec (unstarted activeDependency dependentOps)
      (.read .producer :: run) = some next → isOpen (next.tx .producer) = true →
    ∀ i, (dependentOps i).removes "d" = true → idle (next.tx i) = true := by
  have hall : keptWakeup.inits.all (fun run => ((operations dependentIDs dependentOps).exec
      (unstarted activeDependency dependentOps) (.read .producer :: run)).all apart) = true := by rfl
  intro run next hrun hnext hopen i hremoves
  have hapart := List.all_eq_true.mp hall run ((List.mem_inits run keptWakeup).mpr hrun)
  rw [hnext, Option.all_some, apart, hopen, Bool.not_true, Bool.false_or, List.all_eq_true] at hapart
  cases i with
  | purger => exact hapart .purger (by decide)
  | admin => exact hapart .admin (by decide)
  | _ => cases hremoves

/-- The dependency is still there when the producer has committed and the purge has run. -/
theorem enqueue_no_lost_wakeup_kept :
    ∃ s, (operations dependentIDs dependentOps).exec (unstarted activeDependency dependentOps)
      (.read .producer :: keptWakeup) = some s ∧ Rows.Blocked s.committed "t" ∧
      Rows.edge s.committed "t" "d" ≠ none ∧
      ¬ (Rows.task s.committed "d" = none ∧ Rows.Blocked s.committed "t" ∧ Rows.edge s.committed "t" "d" ≠ none) := by
  refine ⟨_, rfl, ⟨_, rfl, rfl⟩, nofun, enqueue_no_lost_wakeup dependentIDs dependentOps activeDependency .producer
    (fun _ => {}) preparedDependent rfl (fun i hi order tasks => ?_) "t" "d" (by decide) (by decide) [] keptWakeup _ _
    rfl nofun rfl keptWakeup_apart ⟨rfl, rfl⟩⟩
  cases i <;> first | exact absurd rfl hi | nofun

end Examples

end Conveyor.Postgres.Concurrent
