import Conveyor.Postgres.FanIn.Points

/-!
# Fan-in: the statements of a call

`TxOk` is what holds of one call while its statements run: which edge it still owes, which rows of the
statement in progress are still to lock, what it has written into the task, and what it has emitted. Reads, the
start of a statement and its end keep it.
-/

namespace Conveyor.Postgres.Concurrent

open Lib Lib.ReadCommitted

/-- A statement in progress has its rows on `t` still to lock, unless it need not lock them. -/
def WorkOk (ids : TaskIDs) (t : String) (rows : Rows) (owns : Prop) (w : Working Key Content) :
    ResolvePoint → Prop
  | .within (.dropSatisfiedEdges f satisfied _) =>
    t ∈ satisfied → .edge t f ∈ w.pending ∨ rows.edge t f = none
  | .within (.lockDependent x _ _) =>
    x = t → (w.affected ≠ [] → owns) ∧ (.task t ∈ w.pending ∨ w.affected ≠ [] ∨ ¬ rows.Blocked t)
  | .within (.promoteDependent x _ _) =>
    x = t → (.task t ∈ w.pending → Rows.waits ids w.snapshot t = false) ∧
      (.task t ∈ w.pending ∨ ¬ rows.Blocked t ∨ rows.HasEdge t)
  | _ => True

/-- What holds of the call on `i` that has not been rolled back; `owns` says that it has locked `t`, and
`won` that it has committed the promotion of `t`. -/
structure TxOk (base : Rows) (ids : TaskIDs) (now : String → Time) (calls : List String) (t : String) (row : Row)
    (committed : Rows) (owns won : Prop) (i : String) (tx : Tx Key Content ResolvePoint) : Prop where
  made : i ∉ calls → tx.point = .finished {}
  fine : FineAt base t tx.point
  pending : ∀ w, tx.working = some w → ∀ k ∈ w.pending, PendingAt tx.point k
  owed : i ∈ calls → OwedAt t i tx.point ∨ (sees committed tx.writes).edge t i = none
  work : ∀ w, tx.working = some w → WorkOk ids t (sees committed tx.writes) owns w tx.point
  locked : Promoting t tx.point → owns
  later : (∃ d, tx.writes (.edge t d) ≠ none) → (sees committed tx.writes).Blocked t →
    Later t tx.point ∨ (owns ∧ (sees committed tx.writes).HasEdge t)
  affected : ∀ w, tx.working = some w → Promoting t tx.point → w.affected = [] ∨
    (w.affected = [(.task t, some (.task (promotedRow row (now i))))] ∧
      tx.writes (.task t) = some (some (.task (promotedRow row (now i)))))
  wrote : ∀ content, tx.writes (.task t) = some content → committed (.task t) = some (.task row) ∧
    (content = some (.task row) ∨ (content = some (.task (promotedRow row (now i))) ∧
      ((t, unblockedState row (now i)) ∈ tx.point.emitted ∨
        ∃ w, tx.working = some w ∧ Promoting t tx.point ∧ w.affected ≠ [])))
  emits : ∀ state, (t, state) ∈ tx.point.emitted → state = unblockedState row (now i) ∧
    (tx.writes (.task t) = some (some (.task (promotedRow row (now i)))) ∨
      ((∃ frame, tx.point = .finished frame) ∧ won))

variable {id f : String} {rows : Rows} {dep : Row} {resume : List (Key × Option Content) → ResolvePoint} {w : Write Key Content} {p : ResolvePoint}

section OwnSteps

variable {base : Rows} {ids : TaskIDs} {now : String → Time} {calls : List String} {t : String} {row : Row}
  {committed : Rows} {owns won : Prop} {i : String} {tx : Tx Key Content ResolvePoint}

variable {q : ResolvePoint} {working : Option (Working Key Content)} {frame : Frame} {cond : Rows → Row → Bool}
  {set : Row → Row}

theorem updateTask_targets_of (hrow : rows.task id = some dep) (hcond : cond rows dep = true) :
    (updateTask id cond set).targets rows (.task id) = true := by
  simp [updateTask, Rows.task_eq_some.mp hrow, hcond]

section Statements

variable (h : TxOk base ids now calls t row committed owns won i tx)

include h

section Open

variable (hopen : ∀ frame, tx.point ≠ .finished frame)

include hopen

/-- A step that leaves the writes alone. -/
theorem TxOk.step (hfine : FineAt base t q)
    (hpending : ∀ w, working = some w → ∀ k ∈ w.pending, PendingAt q k)
    (howed : i ∈ calls → OwedAt t i q ∨ (sees committed tx.writes).edge t i = none)
    (hwork : ∀ w, working = some w → WorkOk ids t (sees committed tx.writes) owns w q)
    (hlocked : Promoting t q → owns)
    (hlater : Later t tx.point → (sees committed tx.writes).Blocked t →
      Later t q ∨ (owns ∧ (sees committed tx.writes).HasEdge t))
    (haffected : ∀ w, working = some w → Promoting t q → w.affected = [])
    (hsettled : ∀ w, tx.working = some w → Promoting t tx.point → w.affected = [])
    (hemitted : ∀ state, (t, state) ∈ q.emitted ↔ (t, state) ∈ tx.point.emitted) :
    TxOk base ids now calls t row committed owns won i { tx with point := q, working := working } where
  made hi := absurd (h.made hi) (hopen _)
  fine := hfine
  pending := hpending
  owed := howed
  work := hwork
  locked := hlocked
  later hdropped hblocked := (h.later hdropped hblocked).elim (fun hl => hlater hl hblocked) .inr
  affected w hw hpromoting := .inl (haffected w hw hpromoting)
  wrote content hcontent := by
    obtain ⟨hrow, hsame | ⟨hnew, hevent | ⟨w, hw, hpromoting, hne⟩⟩⟩ := h.wrote content hcontent
    · exact ⟨hrow, .inl hsame⟩
    · exact ⟨hrow, .inr ⟨hnew, .inl ((hemitted _).mpr hevent)⟩⟩
    · exact absurd (hsettled w hw hpromoting) hne
  emits state hstate := by
    obtain ⟨hstate, hwrites | ⟨⟨frame, hfinished⟩, -⟩⟩ := h.emits state ((hemitted state).mp hstate)
    · exact ⟨hstate, .inl hwrites⟩
    · exact absurd hfinished (hopen frame)

variable (hsettled : ∀ w, tx.working = some w → Promoting t tx.point → w.affected = [])

include hsettled

/-- A step to a point between two statements. -/
theorem TxOk.goTo (hfine : FineAt base t q)
    (howed : i ∈ calls → OwedAt t i q ∨ (sees committed tx.writes).edge t i = none)
    (hlocked : Promoting t q → owns)
    (hlater : Later t tx.point → (sees committed tx.writes).Blocked t →
      Later t q ∨ (owns ∧ (sees committed tx.writes).HasEdge t))
    (hemitted : ∀ state, (t, state) ∈ q.emitted ↔ (t, state) ∈ tx.point.emitted) :
    TxOk base ids now calls t row committed owns won i { tx with point := q, working := none } :=
  h.step hopen hfine nofun howed nofun hlocked hlater nofun hsettled hemitted

/-- A step that goes on without looking at `t`. -/
theorem TxOk.goOn {next : Point} (hnext : GoesOn base t frame next)
    (howed : i ∈ calls → Owed t i next ∨ (sees committed tx.writes).edge t i = none)
    (hlater : Later t tx.point → (sees committed tx.writes).Blocked t →
      Later t (.within next) ∨ (owns ∧ (sees committed tx.writes).HasEdge t))
    (hemitted : ∀ state, (t, state) ∈ frame.emitted ↔ (t, state) ∈ tx.point.emitted) :
    TxOk base ids now calls t row committed owns won i { tx with point := .within next, working := none } :=
  h.goTo hopen hsettled hnext.fine howed (fun hp => (hnext.aside hp).elim) hlater fun state =>
    (iff_of_eq (congrArg _ hnext.emitted)).trans (hemitted state)

end Open

section Idle

variable (hfan : FanIn base ids calls t row) (hrows : ∀ k, Reachable base k (sees committed tx.writes k))
  (hidle : tx.working = none)

include hfan hrows hidle

/-- A statement that only reads. -/
theorem TxOk.read {resume : Rows → ResolvePoint} (hprogram : (resolvers ids now).program i tx.point = .read resume) :
    TxOk base ids now calls t row committed owns won i { tx with point := resume (sees committed tx.writes) } := by
  obtain ⟨point, working, writes, aborted⟩ := tx
  cases hidle
  dsimp only at hprogram ⊢
  cases point with
  | finished => cases hprogram
  | hasDependents =>
    cases hprogram
    dsimp only
    split_ifs with hempty
    · refine h.goTo nofun nofun trivial (fun hi => .inr ?_) nofun nofun fun _ => .rfl
      by_contra hedge
      have hmem := hfan.mem_edgesWaitingOn hi hedge
      rw [hempty] at hmem
      cases hmem
    · exact h.goTo nofun nofun trivial (fun _ => .inl rfl) nofun nofun fun _ => .rfl
  | within p =>
    cases p with
    | terminalState f frame =>
      cases hprogram
      -- the task of the call has ended, so its own edge stays owed
      have hended : i ∈ calls → f = i → ∃ dep, (sees committed writes).task f = some dep ∧
          (dep.state = .completed ∨ failedDependency dep.state = true) := by
        rintro hi rfl
        obtain ⟨dep, hdep, hstate⟩ := hfan.ended f hi
        have hsame : (sees committed writes).task f = base.task f := (hrows (.task f)).task_eq (hfan.callEnded hi)
        exact ⟨dep, hsame.trans hdep, hstate.imp_right And.left⟩
      have hfailed : ∀ dep, (sees committed writes).task f = some dep → failedDependency dep.state = true →
          Spares base t f true := fun dep hdep hstate => hfan.spares (hrows (.task f)) hdep hstate
      dsimp only
      split
      · exact h.goTo nofun nofun nofun h.owed nofun nofun fun _ => .rfl
      iterate 2
        · rename_i hstate
          obtain ⟨dep, hdep, hstate⟩ := Option.map_eq_some_iff.mp hstate
          exact h.goTo nofun nofun (hfailed dep hdep (by rw [hstate]; rfl)) h.owed nofun nofun fun _ => .rfl
      · rename_i hcompleted harchived hcanceled
        refine h.goOn nofun nofun (nextRound_goesOn _) (fun hi => (h.owed hi).elim (fun howed => ?_) .inr) nofun
          fun _ => .rfl
        obtain ⟨dep, hdep, hstate⟩ := hended hi howed
        rw [hdep] at hcompleted harchived hcanceled
        rcases hstate with hstate | hstate
        · exact absurd (congrArg some hstate) hcompleted
        · cases hs : dep.state <;> simp_all [failedDependency]
    | edgesWaitingOn f failed frame =>
      cases hprogram
      have hspares := h.fine
      have hedges : ∀ edge ∈ Rows.edgesWaitingOn ids (sees committed writes) f,
          base.edge edge.1 f = some edge.2 :=
        fun edge hedge => (hrows (.edge edge.1 f)).edge_eq (mem_edgesWaitingOn hedge)
      refine h.goOn nofun nofun (applyPolicies_goesOn hspares _ hedges [])
        (fun hi => (h.owed hi).elim (fun howed => ?_) .inr) nofun fun _ => .rfl
      obtain rfl : f = i := howed
      by_cases hedge : (sees committed writes).edge t f = none
      · exact .inr hedge
      · exact .inl (applyPolicies_owed hspares _ hedges [] (hfan.mem_edgesWaitingOn hi hedge))
    | _ => cases hprogram

/-- A statement that starts finds the rows on `t` that it has to lock. -/
theorem TxOk.start {scan : List Key}
    (hprogram : (resolvers ids now).program i tx.point = .write w resume)
    (hscan : scan.Perm (ids.keys.filter (w.targets (sees committed tx.writes)))) :
    TxOk base ids now calls t row committed owns won i
      { tx with working := some ⟨sees committed tx.writes, scan, []⟩ } := by
  obtain ⟨point, working, writes, aborted⟩ := tx
  cases hidle
  dsimp only at hprogram hscan hrows ⊢
  have hopen : ∀ frame, point ≠ .finished frame := by
    rintro frame rfl
    cases hprogram
  have hfound : ∀ k, w.targets (sees committed writes) k = true → k ∈ ids.keys → k ∈ scan :=
    fun k htarget hkey => hscan.mem_iff.mpr (List.mem_filter.mpr ⟨hkey, htarget⟩)
  refine h.step hopen h.fine ?_ h.owed ?_ h.locked (fun hl _ => .inl hl) ?_ (by rintro _ ⟨⟩) fun _ => .rfl
  · rintro _ hw k hk
    cases hw
    exact resolve_targets hprogram (List.mem_filter.mp (hscan.mem_iff.mp hk)).2
  · rintro _ hw
    cases hw
    cases point with
    | hasDependents => cases hprogram
    | finished => cases hprogram
    | within p =>
      cases p with
      | dropSatisfiedEdges f satisfied frame =>
        cases hprogram
        intro ht
        by_cases hedge : (sees committed writes).edge t f = none
        · exact .inr hedge
        · obtain ⟨policy, hpolicy⟩ := Option.ne_none_iff_exists'.mp hedge
          have hrow := Rows.edge_eq_some.mp hpolicy
          refine .inl (hfound _ ?_ (hfan.listed _ ?_))
          · simp [dropSatisfiedEdgesQuery, deleteEdges, hrow, ht]
          · rw [Rows.edge_eq_some.mp ((hrows (.edge t f)).edge_eq hpolicy)]
            rintro ⟨⟩
      | lockDependent x rest frame =>
        cases hprogram
        rintro rfl
        by_cases hblocked : (sees committed writes).Blocked x
        · obtain ⟨dep, hdep, hstate⟩ := hblocked
          exact ⟨fun h => absurd rfl h, .inl (hfound _ (updateTask_targets_of hdep (beq_iff_eq.mpr hstate)) hfan.listedTask)⟩
        · exact ⟨fun h => absurd rfl h, .inr (.inr hblocked)⟩
      | promoteDependent x rest frame =>
        cases hprogram
        rintro rfl
        refine ⟨fun hpending => ?_, ?_⟩
        · obtain ⟨dep, -, -, hcond⟩ := updateTask_targets (List.mem_filter.mp (hscan.mem_iff.mp hpending)).2
          rw [Bool.and_eq_true, Bool.not_eq_true'] at hcond
          exact hcond.2
        · by_cases hblocked : (sees committed writes).Blocked x
          · obtain ⟨dep, hdep, hstate⟩ := hblocked
            cases hwaits : Rows.waits ids (sees committed writes) x with
            | false =>
              refine .inl (hfound _ (updateTask_targets_of hdep ?_) hfan.listedTask)
              simp [hstate, hwaits]
            | true =>
              obtain ⟨d, -, hedge⟩ := List.any_eq_true.mp hwaits
              exact .inr (.inr ⟨d, fun hnone => by simp [hnone] at hedge⟩)
          · exact .inr (.inl hblocked)
      | _ => trivial
  · rintro _ hw -
    cases hw
    rfl

end Idle

end Statements

variable {writes : Key → Option (Option Content)}

/-- A call that has promoted `t` does not see it blocked. -/
theorem not_blocked_of_promoted {time : Time}
    (h : writes (.task t) = some (some (.task (promotedRow row time)))) : ¬ (sees committed writes).Blocked t := by
  rintro ⟨dep, hdep, hstate⟩
  have hrow : sees committed writes (.task t) = some (.task (promotedRow row time)) := by simp [sees, h]
  rw [Rows.task_eq_some, hrow, Option.some.injEq, Content.task.injEq] at hdep
  rw [← hdep] at hstate
  exact unblockedState_ne row time hstate

variable {snapshot : Rows} {affected : List (Key × Option Content)}

/-- The end of the statement that promotes `t`: either it did, or an edge of `t` is left. -/
theorem TxOk.finishPromotion {aborted : Bool} {rest : List String}
    (h : TxOk base ids now calls t row committed owns won i
      ⟨.within (.promoteDependent t rest frame), working, writes, aborted⟩)
    (hworking : working = some ⟨snapshot, [], affected⟩) :
    TxOk base ids now calls t row committed owns won i
      ⟨.within (Point.promoteEach rest ((frame.emit t affected).wake affected)), none, writes, aborted⟩ := by
  subst hworking
  have haffected : affected = [] ∨ (affected = [(.task t, some (.task (promotedRow row (now i))))] ∧
    writes (.task t) = some (some (.task (promotedRow row (now i))))) := h.affected _ rfl rfl
  rcases haffected with rfl | ⟨rfl, hwrites⟩
  · refine h.goOn nofun ?_ (promoteEach_goesOn rest) (fun hi => .inr ((h.owed hi).resolve_left id))
      (fun _ hblocked => ?_) fun _ => .rfl
    · rintro _ hw -
      cases hw
      rfl
    · rcases (h.work _ rfl rfl).2 with hpending | hopen | hedge
      · cases hpending
      · exact absurd hblocked hopen
      · exact .inr ⟨h.locked rfl, hedge⟩
  · have hnext := @promoteEach_goesOn base t
    have hemitted : ∀ affected, (Point.promoteEach rest ((frame.emit t
        [(.task t, some (.task (promotedRow row (now i))))]).wake affected)).frame.emitted =
          frame.emitted ++ [(t, unblockedState row (now i))] := by
      intro affected
      rw [(hnext rest).emitted, wake_emitted]
      rfl
    refine ⟨fun hi => absurd (h.made hi) nofun, (hnext rest).fine, nofun,
      fun hi => .inr ((h.owed hi).resolve_left id), nofun, fun hp => ((hnext rest).aside hp).elim,
      fun _ hblocked => ?_, nofun, fun content hcontent => ?_, fun state hstate => ?_⟩
    · exact absurd hblocked (not_blocked_of_promoted hwrites)
    · obtain ⟨hrow, -⟩ := h.wrote content hcontent
      rw [show writes (.task t) = some content from hcontent, Option.some.injEq] at hwrites
      refine ⟨hrow, .inr ⟨hwrites, .inl ?_⟩⟩
      change _ ∈ (Point.promoteEach _ _).frame.emitted
      rw [hemitted]
      exact List.mem_append_right _ (.head _)
    · change _ ∈ (Point.promoteEach _ _).frame.emitted at hstate
      rw [hemitted] at hstate
      refine ⟨?_, .inl hwrites⟩
      rcases List.mem_append.mp hstate with hstate | hstate
      · exact (h.emits state hstate).1
      · exact (Prod.ext_iff.mp (List.mem_singleton.mp hstate)).2

/-- A statement that ends. -/
theorem TxOk.finish (hfan : FanIn base ids calls t row) (h : TxOk base ids now calls t row committed owns won i tx)
    (hworking : tx.working = some ⟨snapshot, [], affected⟩)
    (hprogram : (resolvers ids now).program i tx.point = .write w resume) :
    TxOk base ids now calls t row committed owns won i { tx with point := resume affected, working := none } := by
  obtain ⟨point, working, writes, aborted⟩ := tx
  cases hworking
  dsimp only at hprogram ⊢
  have hwork := h.work _ rfl
  cases point with
  | hasDependents => cases hprogram
  | finished => cases hprogram
  | within p =>
    cases p with
    | cascadeCancel =>
      cases hprogram
      obtain ⟨hx, hspares, hedges⟩ := h.fine
      exact h.goTo nofun nofun ⟨hx, hspares, hedges⟩ h.owed nofun nofun fun state => emit_emitted affected hx state
    | dropDependentEdges x f rest satisfied frame =>
      cases hprogram
      obtain ⟨hx, hspares, hedges⟩ := h.fine
      refine h.goOn nofun nofun (applyPolicies_goesOn hspares rest hedges satisfied)
        (fun hi => (h.owed hi).imp_left ?_) nofun fun _ => .rfl
      rintro ⟨rfl, ht⟩
      exact applyPolicies_owed hspares rest hedges satisfied ht
    | dropSatisfiedEdges f satisfied frame =>
      cases hprogram
      refine h.goOn nofun nofun (promoteEach_goesOn satisfied)
        (fun hi => (h.owed hi).elim (fun howed => .inr ?_) .inr) (fun hl _ => .inl (promoteEach_later hl))
        fun _ => .rfl
      obtain ⟨rfl, ht⟩ := howed
      exact (hwork ht).resolve_left nofun
    | lockDependent x rest frame =>
      cases hprogram
      dsimp only
      split
      · rename_i hnone
        refine h.goOn nofun nofun (promoteEach_goesOn rest) (fun hi => .inr ((h.owed hi).resolve_left id))
          (fun hl hblocked => ?_) fun _ => .rfl
        rcases List.mem_cons.mp hl with rfl | hrest
        · rcases (hwork rfl).2 with hpending | hne | hopen
          · cases hpending
          · exact absurd hnone hne
          · exact absurd hblocked hopen
        · exact .inl (promoteEach_later hrest)
      · rename_i hsome
        refine h.goTo nofun nofun trivial (fun hi => .inr ((h.owed hi).resolve_left id)) ?_
          (fun hl _ => .inl hl) fun _ => .rfl
        rintro rfl
        exact (hwork rfl).1 hsome
    | promoteDependent x rest frame =>
      cases hprogram
      rcases eq_or_ne x t with rfl | hx
      · exact h.finishPromotion rfl
      · refine h.goOn nofun (fun w hw hp => absurd hp hx) (promoteEach_goesOn rest)
          (fun hi => .inr ((h.owed hi).resolve_left id))
          (fun hl _ => .inl (promoteEach_later ((List.mem_cons.mp hl).resolve_left hx.symm))) fun state => ?_
        rw [wake_emitted]
        exact emit_emitted affected hx state
    | _ => cases hprogram

end OwnSteps

end Conveyor.Postgres.Concurrent
