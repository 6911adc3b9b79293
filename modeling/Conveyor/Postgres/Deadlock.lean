import Conveyor.Postgres.Resolver

/-!
# Lock orders of concurrent `ResolveDependents` calls

A call that cascades locks a canceled dependent and then all its edges, while a call that satisfies an edge
of the same dependent locks the edge first and the dependent after it: the two can wait for each other. Calls
that do not cascade lock only edges of their own task, and the dependents in ascending order, so they never
wait for each other in a cycle.
-/

namespace Conveyor.Postgres.Concurrent

open Lib Lib.ReadCommitted

/-- The task has failed in the given rows. -/
def Rows.Failed (rows : Rows) (id : String) : Prop :=
  ∃ row, rows.task id = some row ∧ failedDependency row.state = true

/-- The tasks a call on `i` may visit: `i`, and over cascading edges what it cancels. -/
inductive Visits (base : Rows) (i : String) : String → Prop where
  | call : Visits base i i
  | cascade {f x : String} (hf : Visits base i f) (hfailed : f = i → base.Failed i)
      (hedge : base.edge x f = some 2) : Visits base i x

/-- The call on `i` cascades: its task failed and a cascading edge waits on it. -/
def Cascades (base : Rows) (i : String) : Prop := base.Failed i ∧ ∃ x, base.edge x i = some 2

/-- The dependents a call on `i` may touch: those with an edge on a task it may visit. -/
def Touches (base : Rows) (i y : String) : Prop := ∃ f, Visits base i f ∧ base.edge y f ≠ none

/-- The rows a call on `i` may lock. -/
def Lockable (base : Rows) (i : String) : Key → Prop
  | .task y => Touches base i y
  | .edge y d => Touches base i y ∧ (d = i ∨ Cascades base i)

variable {base : Rows} {ids : TaskIDs} {now : String → Time} {i : String}

variable {f : String}

/-- A call that does not cascade visits only its own task. -/
theorem Visits.eq_or_cascades (h : Visits base i f) : f = i ∨ Cascades base i := by
  induction h with
  | call => exact .inl rfl
  | @cascade f x hf hfailed hedge ih =>
    rcases ih with rfl | hcascades
    · exact .inr ⟨hfailed rfl, x, hedge⟩
    · exact .inr hcascades

/-- The ids on the worklist were canceled by a cascade. -/
def FrameOk (base : Rows) (i : String) (frame : Frame) : Prop :=
  ∀ x ∈ frame.worklist, Visits base i x ∧ Cascades base i

/-- The edges of a round are edges of the start on the visited task, in ascending order, the satisfied ones
first. -/
structure RoundOk (base : Rows) (i finishedID : String) (rest : List (String × Int16))
    (satisfied : List String) : Prop where
  visits : Visits base i finishedID
  edges : ∀ edge ∈ rest, base.edge edge.1 finishedID = some edge.2
  waits : ∀ x ∈ satisfied, base.edge x finishedID ≠ none
  sorted : (satisfied ++ rest.map Prod.fst).Pairwise (· < ·)

/-- The point of a call on `i` in a round of a task it may visit. -/
def PointOk (base : Rows) (i : String) : Point → Prop
  | .terminalState f frame => Visits base i f ∧ FrameOk base i frame
  | .edgesWaitingOn f failed frame =>
    Visits base i f ∧ (failed = true → f = i → base.Failed i) ∧ FrameOk base i frame
  | .cascadeCancel x f rest satisfied frame | .dropDependentEdges x f rest satisfied frame =>
    Visits base i x ∧ Touches base i x ∧ Cascades base i ∧ (f = i → base.Failed i) ∧
      RoundOk base i f rest satisfied ∧ FrameOk base i frame
  | .dropSatisfiedEdges f satisfied frame => RoundOk base i f [] satisfied ∧ FrameOk base i frame
  | .lockDependent x rest frame | .promoteDependent x rest frame =>
    (∀ y ∈ x :: rest, Touches base i y) ∧ (x :: rest).Pairwise (· < ·) ∧ FrameOk base i frame
  | .returned _ => True

variable {frame : Frame} {dependents : List String}

section Points

theorem nextRound_ok (worklist : List String)
    (h : ∀ x ∈ worklist, Visits base i x ∧ Cascades base i) : PointOk base i (Point.nextRound worklist frame) := by
  induction worklist with
  | nil => trivial
  | cons x rest ih =>
    rw [Point.nextRound]
    split
    · exact ih fun y hy => h y (.tail x hy)
    · exact ⟨(h x (.head _)).1, fun y hy => h y (.tail x hy)⟩

theorem continueWith_ok (h : FrameOk base i frame) :
    PointOk base i (Point.continueWith frame) := nextRound_ok frame.worklist h

theorem RoundOk.touches {x : String} {rest : List (String × Int16)} {satisfied : List String}
    (h : RoundOk base i f rest satisfied) (hx : x ∈ satisfied) : Touches base i x :=
  ⟨f, h.visits, h.waits x hx⟩

theorem applyPolicies_ok {failed : Bool} (edges : List (String × Int16)) (satisfied : List String)
    (hround : RoundOk base i f edges satisfied) (hfailed : failed = true → f = i → base.Failed i)
    (hframe : FrameOk base i frame) : PointOk base i (Point.applyPolicies failed f edges satisfied frame) := by
  induction edges generalizing satisfied with
  | nil =>
    rw [Point.applyPolicies]
    split
    · exact continueWith_ok hframe
    · exact ⟨hround, hframe⟩
  | cons edge rest ih =>
    obtain ⟨x, policy⟩ := edge
    have hedge := hround.edges (x, policy) (.head _)
    have hrest : ∀ edge ∈ rest, base.edge edge.1 f = some edge.2 :=
      fun edge h => hround.edges edge (.tail _ h)
    have hdropped := hround.sorted.sublist ((List.Sublist.refl satisfied).append (List.sublist_cons_self _ _))
    rw [Point.applyPolicies]
    split
    · exact ih satisfied ⟨hround.visits, hrest, hround.waits, hdropped⟩
    · split_ifs with hcascade
      · rw [Bool.and_eq_true, beq_iff_eq] at hcascade
        obtain ⟨hf, rfl⟩ := hcascade
        have hx : Visits base i x := .cascade hround.visits (hfailed hf) hedge
        have hcascades : Cascades base i := by
          rcases hround.visits.eq_or_cascades with rfl | hcascades
          · exact ⟨hfailed hf rfl, x, hedge⟩
          · exact hcascades
        exact ⟨hx, ⟨f, hround.visits, by rw [hedge]; nofun⟩, hcascades, hfailed hf,
          ⟨hround.visits, hrest, hround.waits, hdropped⟩, hframe⟩
      · refine ih (satisfied ++ [x]) ⟨hround.visits, hrest, fun y hy => ?_, ?_⟩
        · rcases List.mem_append.mp hy with hy | hy
          · exact hround.waits y hy
          · rw [List.mem_singleton.mp hy, hedge]
            nofun
        · simpa using hround.sorted

theorem promoteEach_ok (htouches : ∀ y ∈ dependents, Touches base i y) (hsorted : dependents.Pairwise (· < ·))
    (hframe : FrameOk base i frame) : PointOk base i (Point.promoteEach dependents frame) := by
  cases dependents with
  | nil => exact continueWith_ok hframe
  | cons x rest => exact ⟨htouches, hsorted, hframe⟩

theorem FrameOk.emit (h : FrameOk base i frame) (id : String)
    (affected : List (Key × Option Content)) : FrameOk base i (frame.emit id affected) := by
  unfold Frame.emit
  split <;> exact h

theorem FrameOk.wake (h : FrameOk base i frame)
    (affected : List (Key × Option Content)) : FrameOk base i (frame.wake affected) := by
  unfold Frame.wake
  split <;> exact h

end Points

/-- The point of the call on `i`, if it is made. -/
def CallOk (base : Rows) (calls : List String) (i : String) : ResolvePoint → Prop
  | .hasDependents => i ∈ calls
  | .within point => i ∈ calls ∧ PointOk base i point
  | .finished _ => True

/-- The dependents a call has locked come before those it has yet to lock. -/
def Ascending (holds : String → Prop) : ResolvePoint → Prop
  | .within (.lockDependent x rest _) | .within (.promoteDependent x rest _) =>
    ∀ y, holds y → (y = x ∨ y < x) ∧ ∀ z ∈ rest, y < z
  | .within (.returned _) | .finished _ => True
  | _ => ∀ y, ¬ holds y

variable {p : ResolvePoint} {resume : Rows → ResolvePoint} {w : Write Key Content} {k : Key}

section Calls

variable {calls : List String}

theorem resolve_read {rows : Rows} (hterminal : i ∈ calls → ¬ base.Blocked i) (h : CallOk base calls i p)
    (hprogram : (resolvers ids now).program i p = .read resume) (hrows : ∀ k, Reachable base k (rows k)) :
    CallOk base calls i (resume rows) := by
  cases p with
  | hasDependents =>
    cases hprogram
    dsimp only
    split
    · trivial
    · exact ⟨h, .call, nofun⟩
  | finished => cases hprogram
  | within point =>
    obtain ⟨hcall, h⟩ := h
    cases point with
    | terminalState f frame =>
      cases hprogram
      have hfailed : ∀ row, Rows.task rows f = some row → failedDependency row.state = true →
          f = i → base.Failed i := by
        rintro row hrow hstate rfl
        exact ⟨row, by rw [← hrow, (hrows (.task f)).task_eq (hterminal hcall)], hstate⟩
      dsimp only
      split
      · exact ⟨hcall, h.1, nofun, h.2⟩
      iterate 2
        · rename_i hstate
          obtain ⟨row, hrow, hstate⟩ := Option.map_eq_some_iff.mp hstate
          exact ⟨hcall, h.1, fun _ => hfailed row hrow (by rw [hstate]; rfl), h.2⟩
      · exact ⟨hcall, continueWith_ok h.2⟩
    | edgesWaitingOn f failed frame =>
      cases hprogram
      obtain ⟨hvisits, hfailed, hframe⟩ := h
      refine ⟨hcall, applyPolicies_ok _ [] ⟨hvisits, ?_, nofun, ?_⟩ hfailed hframe⟩
      · rintro ⟨x, policy⟩ hedge
        exact (hrows (.edge x f)).edge_eq (mem_edgesWaitingOn hedge)
      · exact edgesWaitingOn_sorted rows ids f
    | _ => cases hprogram

theorem resolve_resume {resume : List (Key × Option Content) → ResolvePoint}
    (h : CallOk base calls i p) (hprogram : (resolvers ids now).program i p = .write w resume)
    (affected : List (Key × Option Content)) : CallOk base calls i (resume affected) := by
  cases p with
  | hasDependents => cases hprogram
  | finished => cases hprogram
  | within point =>
    obtain ⟨hcall, h⟩ := h
    cases point with
    | cascadeCancel x f rest satisfied frame =>
      cases hprogram
      obtain ⟨hvisits, htouches, hcascades, hfailed, hround, hframe⟩ := h
      exact ⟨hcall, hvisits, htouches, hcascades, hfailed, hround, hframe.emit x affected⟩
    | dropDependentEdges x f rest satisfied frame =>
      cases hprogram
      obtain ⟨hvisits, htouches, hcascades, hfailed, hround, hframe⟩ := h
      refine ⟨hcall, applyPolicies_ok rest satisfied hround (fun _ => hfailed) fun y hy => ?_⟩
      rcases List.mem_append.mp hy with hy | hy
      · exact hframe y hy
      · rw [List.mem_singleton.mp hy]
        exact ⟨hvisits, hcascades⟩
    | dropSatisfiedEdges f satisfied frame =>
      cases hprogram
      have hsorted : satisfied.Pairwise (· < ·) := by simpa using h.1.sorted
      exact ⟨hcall, promoteEach_ok (fun y hy => h.1.touches hy) hsorted h.2⟩
    | lockDependent x rest frame =>
      cases hprogram
      dsimp only
      split
      · exact ⟨hcall, promoteEach_ok (fun y hy => h.1 y (.tail x hy)) h.2.1.of_cons h.2.2⟩
      · exact ⟨hcall, h⟩
    | promoteDependent x rest frame =>
      cases hprogram
      exact ⟨hcall, promoteEach_ok (fun y hy => h.1 y (.tail x hy)) h.2.1.of_cons
        ((h.2.2.emit x affected).wake affected)⟩
    | _ => cases hprogram

/-- What a call has to lock, it may lock. -/
theorem PendingAt.lockable (h : PendingAt p k) (hcall : CallOk base calls i p) : i ∈ calls ∧ Lockable base i k := by
  cases p with
  | hasDependents => cases h
  | finished => cases h
  | within point =>
    obtain ⟨hcall, hpoint⟩ := hcall
    refine ⟨hcall, ?_⟩
    cases point with
    | cascadeCancel x => cases h; exact hpoint.2.1
    | lockDependent x => cases h; exact hpoint.1 x (.head _)
    | promoteDependent x => cases h; exact hpoint.1 x (.head _)
    | dropDependentEdges x =>
      obtain ⟨d, rfl⟩ : ∃ d, k = .edge x d := h
      exact ⟨hpoint.2.1, .inr hpoint.2.2.1⟩
    | dropSatisfiedEdges f satisfied =>
      obtain ⟨y, hy, rfl⟩ : ∃ y ∈ satisfied, k = .edge y f := h
      exact ⟨hpoint.1.touches hy, hpoint.1.visits.eq_or_cascades⟩
    | _ => cases h

end Calls

section Order

variable {holds holds' : String → Prop}

theorem ascending_of_none (hnone : ∀ y, ¬ holds y) (p : ResolvePoint) : Ascending holds p := by
  unfold Ascending
  split
  · exact fun y hy => absurd hy (hnone y)
  · exact fun y hy => absurd hy (hnone y)
  · trivial
  · trivial
  · exact hnone

theorem Ascending.mono (hsub : ∀ y, holds' y → holds y) (h : Ascending holds p) : Ascending holds' p := by
  unfold Ascending at h ⊢
  split at h
  · exact fun y hy => h y (hsub y hy)
  · exact fun y hy => h y (hsub y hy)
  · trivial
  · trivial
  · exact fun y hy => h y (hsub y hy)

/-- A call that does not cascade has visited its one task when a round ends. -/
theorem ascending_continueWith (hcascades : ¬ Cascades base i) (hframe : FrameOk base i frame) :
    Ascending holds (.within (Point.continueWith frame)) := by
  have hempty := List.eq_nil_iff_forall_not_mem.mpr fun x hx => hcascades (hframe x hx).2
  rw [Point.continueWith, hempty]
  trivial

theorem ascending_promoteEach (hcascades : ¬ Cascades base i) (hframe : FrameOk base i frame)
    (hbelow : ∀ y, holds y → ∀ z ∈ dependents, y < z) :
    Ascending holds (.within (Point.promoteEach dependents frame)) := by
  cases dependents with
  | nil => exact ascending_continueWith hcascades hframe
  | cons x rest =>
    exact fun y hy => ⟨.inr (hbelow y hy x (.head _)), fun z hz => hbelow y hy z (.tail x hz)⟩

variable {calls : List String} {p : ResolvePoint}

/-- Before its first writing statement a call has locked no dependent. -/
theorem ascending_read (hprogram : (resolvers ids now).program i p = .read resume)
    (h : Ascending holds p) (q : ResolvePoint) : Ascending holds q := by
  refine ascending_of_none ?_ q
  cases p with
  | hasDependents => exact h
  | finished => cases hprogram
  | within point =>
    cases point with
    | terminalState => exact h
    | edgesWaitingOn => exact h
    | _ => cases hprogram

/-- Locking one more row of the statement keeps the order. -/
theorem ascending_row (hcascades : ¬ Cascades base i) (hcall : CallOk base calls i p) (hpending : PendingAt p k)
    (hholds : ∀ y, holds' y ↔ holds y ∨ k = .task y) (h : Ascending holds p) : Ascending holds' p := by
  cases p with
  | hasDependents => cases hpending
  | finished => cases hpending
  | within point =>
    have hlocked : ∀ x rest, k = .task x → (x :: rest).Pairwise (· < ·) →
        (∀ y, holds y → (y = x ∨ y < x) ∧ ∀ z ∈ rest, y < z) → ∀ y, holds' y → (y = x ∨ y < x) ∧ ∀ z ∈ rest, y < z := by
      rintro x rest rfl hsorted h y hy
      rcases (hholds y).mp hy with hy | hy
      · exact h y hy
      · cases Key.task.inj hy
        exact ⟨.inl rfl, fun z hz => List.rel_of_pairwise_cons hsorted hz⟩
    cases point with
    | cascadeCancel => exact absurd hcall.2.2.2.1 hcascades
    | dropDependentEdges => exact absurd hcall.2.2.2.1 hcascades
    | lockDependent x rest frame => exact hlocked x rest hpending hcall.2.2.1 h
    | promoteDependent x rest frame => exact hlocked x rest hpending hcall.2.2.1 h
    | dropSatisfiedEdges f satisfied frame =>
      obtain ⟨x, -, rfl⟩ : ∃ x ∈ satisfied, k = .edge x f := hpending
      intro y hy
      rcases (hholds y).mp hy with hy | hy
      · exact h y hy
      · cases hy
    | _ => cases hpending

/-- The end of a statement keeps the order. -/
theorem ascending_finish (hcascades : ¬ Cascades base i) (hcall : CallOk base calls i p)
    {resume : List (Key × Option Content) → ResolvePoint} (hprogram : (resolvers ids now).program i p = .write w resume)
    (affected : List (Key × Option Content)) (h : Ascending holds p) : Ascending holds (resume affected) := by
  cases p with
  | hasDependents => cases hprogram
  | finished => cases hprogram
  | within point =>
    cases point with
    | cascadeCancel => exact absurd hcall.2.2.2.1 hcascades
    | dropDependentEdges => exact absurd hcall.2.2.2.1 hcascades
    | dropSatisfiedEdges => exact ascending_of_none h _
    | lockDependent x rest frame =>
      cases hprogram
      dsimp only
      split
      · exact ascending_promoteEach hcascades hcall.2.2.2 fun y hy => (h y hy).2
      · exact h
    | promoteDependent x rest frame =>
      cases hprogram
      exact ascending_promoteEach hcascades ((hcall.2.2.2.emit x affected).wake affected)
        fun y hy => (h y hy).2
    | _ => cases hprogram

/-- A dependent that a call waits for comes after those it has locked. -/
theorem ascending_wanted (hcascades : ¬ Cascades base i) (hcall : CallOk base calls i p) {x : String}
    (hpending : PendingAt p (.task x)) (h : Ascending holds p) (y : String) (hy : holds y) : y = x ∨ y < x := by
  cases p with
  | hasDependents => cases hpending
  | finished => cases hpending
  | within point =>
    cases point with
    | cascadeCancel => exact absurd hcall.2.2.2.1 hcascades
    | lockDependent x' =>
      cases Key.task.inj hpending
      exact (h y hy).1
    | promoteDependent x' =>
      cases Key.task.inj hpending
      exact (h y hy).1
    | dropDependentEdges => exact absurd hcall.2.2.2.1 hcascades
    | dropSatisfiedEdges => exact absurd hy (h y)
    | _ => cases hpending

end Order

/-- What holds in every state that calls over `base` reach. -/
structure Inv (base : Rows) (calls : List String) (s : State String Key Content ResolvePoint) : Prop where
  within : System.Within (Reachable base) (Writable base) s
  point : ∀ i, CallOk base calls i (s.tx i).point
  pending : ∀ i w, (s.tx i).working = some w → ∀ k ∈ w.pending, PendingAt (s.tx i).point k
  held : ∀ i k, s.owner k = some i → i ∈ calls ∧ Lockable base i k
  order : ∀ i, ¬ Cascades base i → Ascending (fun y => s.owner (.task y) = some i) (s.tx i).point

section Runs

variable {calls : List String} {s s' : State String Key Content ResolvePoint}

theorem initial_inv (base : Rows) (calls : List String) : Inv base calls (initial base calls) where
  within := initial_within base calls
  point i := by
    simp only [initial]
    split
    · assumption
    · trivial
  pending i w h := by cases h
  held i k h := by cases h
  order i _ := ascending_of_none (fun y h => by cases h) _

section Moves

variable (h : Inv base calls s) (hmove : (resolvers ids now).Moves i s s')

include h hmove

/-- The rows a call still has to lock after a move of its own. -/
theorem Inv.pending_moves {w : Working Key Content} (hw : (s'.tx i).working = some w) :
    ∀ k ∈ w.pending, PendingAt (s'.tx i).point k := by
  cases hmove with
  | start _ _ hprogram hscan =>
    rw [State.setTx_tx_self] at hw ⊢
    cases hw
    exact fun k hk => resolve_targets hprogram (List.mem_filter.mp (hscan.mem_iff.mp hk)).2
  | row hworking =>
    rw [State.lockRow_working] at hw
    cases hw
    rw [State.lockRow_point]
    exact fun k hk => h.pending i _ hworking k (.tail _ hk)
  | skip hworking =>
    rw [State.setTx_tx_self] at hw ⊢
    cases hw
    exact fun k hk => h.pending i _ hworking k (.tail _ hk)
  | read _ hidle =>
    rw [State.setTx_tx_self] at hw
    cases hidle.symm.trans hw
  | insert _ _ hprogram => exact absurd hprogram (resolve_not_insert _ _ _)
  | finish | commit | abort => simp at hw

/-- The rows a call has locked after a move of its own. -/
theorem Inv.held_moves (hk : s'.owner k = some i) : i ∈ calls ∧ Lockable base i k := by
  cases hmove with
  | row hworking =>
    rw [State.lockRow_owner, Function.update_apply] at hk
    split at hk
    · rename_i heq
      rw [heq]
      exact (h.pending i _ hworking _ (.head _)).lockable (h.point i)
    · exact h.held i k hk
  | insert _ _ hprogram => exact absurd hprogram (resolve_not_insert _ _ _)
  | commit | abort => exact h.held i k (s.released_eq_some.mp hk).1
  | read | start | skip | finish => exact h.held i k hk

/-- The order in which a call locks dependents after a move of its own. -/
theorem Inv.order_moves (hcascades : ¬ Cascades base i) :
    Ascending (fun y => s'.owner (.task y) = some i) (s'.tx i).point := by
  have horder := h.order i hcascades
  cases hmove with
  | read _ _ hprogram =>
    rw [State.setTx_tx_self]
    exact ascending_read hprogram horder _
  | finish _ hprogram =>
    rw [State.setTx_tx_self]
    exact ascending_finish hcascades (h.point i) hprogram _ horder
  | @row w _ snapshot k rest affected hworking =>
    rw [State.lockRow_owner, State.lockRow_point]
    refine ascending_row hcascades (h.point i) (h.pending i _ hworking k (.head _)) (fun y => ?_) horder
    by_cases hy : k = .task y
    · simp [hy]
    · rw [Function.update_of_ne (Ne.symm hy)]
      simp [hy]
  | insert _ _ hprogram => exact absurd hprogram (resolve_not_insert _ _ _)
  | commit | abort => exact ascending_of_none (fun y hy => (s.released_eq_some.mp hy).2 rfl) _
  | start | skip =>
    rw [State.setTx_tx_self]
    exact horder

theorem Inv.point_moves (hterminal : ∀ d ∈ calls, ¬ base.Blocked d) : CallOk base calls i (s'.tx i).point := by
  have hpoint := h.point i
  cases hmove with
  | read _ _ hprogram =>
    rw [State.setTx_tx_self]
    exact resolve_read (hterminal i) hpoint hprogram (h.within.view (resolvers_bounds base ids now) i)
  | finish _ hprogram =>
    rw [State.setTx_tx_self]
    exact resolve_resume hpoint hprogram _
  | insert _ _ hprogram => exact absurd hprogram (resolve_not_insert _ _ _)
  | commit _ _ hprogram =>
    obtain ⟨frame, -, rfl⟩ := resolve_commit hprogram
    rw [State.commitTx_tx_self]
    trivial
  | start | row | skip | abort => simpa using hpoint

theorem Inv.moves (hterminal : ∀ d ∈ calls, ¬ base.Blocked d) : Inv base calls s' := by
  refine ⟨h.within.moves (resolvers_bounds base ids now) hmove, fun j => ?_, fun j w hw => ?_, fun j k hk => ?_,
    fun j hcascades => ?_⟩ <;> by_cases hj : j = i
  · exact hj ▸ h.point_moves hmove hterminal
  · rw [hmove.tx_of_ne hj]
    exact h.point j
  · subst hj
    exact h.pending_moves hmove hw
  · rw [hmove.tx_of_ne hj] at hw ⊢
    exact h.pending j w hw
  · subst hj
    exact h.held_moves hmove hk
  · exact h.held j k ((hmove.owner_of_ne hj k).mp hk)
  · subst hj
    exact h.order_moves hmove hcascades
  · rw [hmove.tx_of_ne hj]
    exact (h.order j hcascades).mono fun y hy => (hmove.owner_of_ne hj _).mp hy

end Moves

/-- Two calls that wait for each other over a row have a dependent in common. -/
theorem Lockable.common {j : String} (h : Lockable base i k) (h' : Lockable base j k) :
    ∃ y, Touches base i y ∧ Touches base j y := by
  cases k with
  | task y => exact ⟨y, h, h'⟩
  | edge y d => exact ⟨y, h.1, h'.1⟩

/-- Calls on terminal tasks never wait for each other's row locks in a cycle, provided that of any two of
them either neither cascades, or no dependent is touched by both. -/
theorem resolveDependents_no_deadlock (base : Rows) (ids : TaskIDs) (now : String → Time) (calls : List String)
    (hterminal : ∀ d ∈ calls, ∃ row, base.task d = some row ∧ terminal row.state = true)
    (hapart : ∀ d ∈ calls, ∀ d' ∈ calls, d ≠ d' → (¬ Cascades base d ∧ ¬ Cascades base d') ∨
      ∀ y, ¬ (Touches base d y ∧ Touches base d' y))
    (events : List (ReadCommitted.Event String Key)) (s : State String Key Content ResolvePoint)
    (hrun : (resolvers ids now).exec (initial base calls) events = some s) (i : String) :
    ¬ Relation.TransGen (System.WaitsFor s) i i := by
  have hblocked : ∀ d ∈ calls, ¬ base.Blocked d := by
    rintro d hd ⟨row, hrow, hstate⟩
    obtain ⟨row', hrow', hterminal⟩ := hterminal d hd
    cases hrow.symm.trans hrow'
    rw [hstate] at hterminal
    cases hterminal
  have hinv := System.exec_induction (initial_inv base calls) (fun i s s' h hmove => h.moves hmove hblocked) hrun
  have hwanted : ∀ j k, System.Wants s j k → PendingAt (s.tx j).point k := by
    rintro j k ⟨snapshot, rest, affected, hworking⟩
    exact hinv.pending j _ hworking k (.head _)
  -- a row that is waited for is a dependent, and neither call cascades
  have hwait : ∀ j l k, j ≠ l → System.Wants s j k → s.owner k = some l →
      ∃ y, k = .task y ∧ ¬ Cascades base j ∧ ¬ Cascades base l := by
    intro j l k hne hwants howner
    obtain ⟨hj, hlock⟩ := (hwanted j k hwants).lockable (hinv.point j)
    obtain ⟨hl, hlock'⟩ := hinv.held l k howner
    rcases hapart j hj l hl hne with ⟨hj', hl'⟩ | hdisjoint
    · cases k with
      | task y => exact ⟨y, rfl, hj', hl'⟩
      | edge y d => exact absurd ((hlock.2.resolve_right hj').symm.trans (hlock'.2.resolve_right hl')) hne
    · obtain ⟨y, htouches⟩ := hlock.common hlock'
      exact absurd htouches (hdisjoint y)
  have hrank : ∀ j l m k k', j ≠ l → System.Wants s j k → s.owner k = some l → l ≠ m →
      System.Wants s l k' → s.owner k' = some m → k.dependent < k'.dependent := by
    intro j l m k k' hjl hk hkl hlm hk' hkm
    obtain ⟨y, rfl, -, hl⟩ := hwait j l k hjl hk hkl
    obtain ⟨y', rfl, -, -⟩ := hwait l m k' hlm hk' hkm
    have hne : y ≠ y' := by
      rintro rfl
      rw [hkl, Option.some.injEq] at hkm
      exact hlm hkm
    exact (ascending_wanted hl (hinv.point l) (hwanted l _ hk') (hinv.order l hl) y hkl).resolve_left hne
  exact System.no_cycle hrank i

end Runs

section Examples

/-- Under a policy that does not cascade, neither call does. -/
theorem twoDependencies_apart : ∀ d ∈ ["a", "b"], ∀ d' ∈ ["a", "b"], d ≠ d' →
    (¬ Cascades (twoDependencies 3) d ∧ ¬ Cascades (twoDependencies 3) d') ∨
      ∀ y, ¬ (Touches (twoDependencies 3) d y ∧ Touches (twoDependencies 3) d' y) := by
  have hcascades : ∀ d, ¬ Cascades (twoDependencies 3) d := by
    rintro d ⟨-, x, hedge⟩
    rw [Rows.edge] at hedge
    split at hedge
    · rename_i policy hrow
      unfold twoDependencies at hrow
      split at hrow <;> simp_all
    · cases hedge
  exact fun d _ d' _ _ => .inl ⟨hcascades d, hcascades d'⟩

theorem twoDependencies_terminal (policy : Int16) :
    ∀ d ∈ ["a", "b"], ∃ row, (twoDependencies policy).task d = some row ∧ terminal row.state = true := by
  intro d hd
  simp only [List.mem_cons, List.not_mem_nil, or_false] at hd
  rcases hd with rfl | rfl
  · exact ⟨_, rfl, rfl⟩
  · exact ⟨_, rfl, rfl⟩

/-- Both calls satisfy an edge of `x`; the second waits for the lock on `x`. -/
def fanInEvents : List (ReadCommitted.Event String Key) :=
  [.read "a", .read "a", .read "a", .start "a" [.edge "x" "a"], .row "a", .finish "a",
   .start "a" [.task "x"], .row "a",
   .read "b", .read "b", .read "b", .start "b" [.edge "x" "b"], .row "b", .finish "b", .start "b" [.task "x"]]

/-- The second call waits for the first, and there is no cycle. -/
theorem resolveDependents_no_deadlock_fanIn :
    ∃ s, (resolvers sampleIDs fun _ => 0).exec (initial (twoDependencies 3) ["a", "b"]) fanInEvents = some s ∧
      System.WaitsFor s "b" "a" ∧ ¬ Relation.TransGen (System.WaitsFor s) "b" "b" :=
  ⟨_, rfl, ⟨by decide, .task "x", ⟨_, _, _, rfl⟩, rfl⟩,
    resolveDependents_no_deadlock _ sampleIDs (fun _ => 0) ["a", "b"] (twoDependencies_terminal 3) twoDependencies_apart
      fanInEvents _ rfl "b"⟩

/-- The call on `a` cancels `x` before the call on `b` drops its edge; then the first wants that edge, and
the second wants `x`. -/
def crossingEvents : List (ReadCommitted.Event String Key) :=
  [.read "a", .read "a", .read "a", .start "a" [.task "x"], .row "a", .finish "a",
   .read "b", .read "b", .read "b", .start "b" [.edge "x" "b"], .row "b", .finish "b",
   .start "a" [.edge "x" "a", .edge "x" "b"], .row "a", .start "b" [.task "x"]]

/-- A failed dependency that cascades and a completed one lock the same dependent in opposite orders. -/
theorem resolveDependents_deadlock :
    (∀ d ∈ ["a", "b"], ∃ row, (twoDependencies 2).task d = some row ∧ terminal row.state = true) ∧
    ∃ s, (resolvers sampleIDs fun _ => 0).exec (initial (twoDependencies 2) ["a", "b"]) crossingEvents = some s ∧
      System.WaitsFor s "a" "b" ∧ System.WaitsFor s "b" "a" := by
  exact ⟨twoDependencies_terminal 2, _, rfl, ⟨by decide, .edge "x" "b", ⟨_, _, _, rfl⟩, rfl⟩,
    ⟨by decide, .task "x", ⟨_, _, _, rfl⟩, rfl⟩⟩

end Examples

end Conveyor.Postgres.Concurrent
