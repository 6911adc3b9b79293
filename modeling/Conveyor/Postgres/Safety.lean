import Conveyor.Postgres.Operations

/-!
# What holds of every operation of the Postgres broker

An invariant that single statements preserve holds along every run of operations, rollbacks
included. The worklist of a resolution is drained before its bound runs out: the bound counts the
entries still to visit and the edges whose dependency was not visited yet.
-/

namespace Conveyor.Postgres

open Lib SessionM

section Safety

variable {Adm Ok : Issued Database Query → Prop} {Inv : Database → Prop}

theorem ofExcept_safe {A : Type} (result : Except PgError A) : Safe Adm Ok Inv (ofExcept result) := by
  cases result with
  | ok a => exact safe_pure a
  | error e => exact safe_throw e

theorem explainMiss_safe (taskID : String) : Safe Adm Ok Inv (explainMiss taskID) :=
  safe_bind (safe_read _) fun _ => safe_ite (safe_throw _) (safe_throw _)

variable (hstep : StepsSafely Adm Ok Inv)

include hstep

theorem releaseLapsed_safe (uniqueKey : Option String) (now : Time) :
    Safe Adm Ok Inv (releaseLapsed uniqueKey now) := by
  cases uniqueKey with
  | none => exact safe_pure _
  | some key => exact safe_issue hstep _ _

theorem stampIfCanceled_safe (state : TaskState) (taskID : String) (now : Time) :
    Safe Adm Ok Inv (stampIfCanceled state taskID now) := by
  unfold stampIfCanceled
  split
  · exact safe_issue hstep _ _
  · exact safe_pure _

theorem insertTask_safe (rejected : PgError) (id : String) (row : Option Row) :
    Safe Adm Ok Inv (insertTask rejected id row) := by
  cases row with
  | none => exact safe_throw _
  | some row => exact safe_issue hstep _ _

theorem enqueueOneTx_safe (order : EnqueueOrder) (prepared : PreparedEnqueue) :
    Safe Adm Ok Inv (enqueueOneTx order prepared) := by
  refine safe_bind (releaseLapsed_safe hstep _ _) fun _ => safe_bind (safe_read _) fun resolved =>
    safe_bind (safe_read _) fun conflict => safe_bind (insertTask_safe hstep _ _ _) fun _ =>
      safe_ite (safe_pure _) ?_
  exact safe_bind (stampIfCanceled_safe hstep _ _ _) fun _ =>
    safe_forM fun depID _ => safe_issue hstep _ _

theorem enqueue_safe (now : Time) (order : EnqueueOrder) (task : TaskEnvelope) :
    Safe Adm Ok Inv (enqueue now order task) :=
  safe_bind (ofExcept_safe _) fun _ =>
    safe_ite (insertTask_safe hstep _ _ _) (safe_transaction (enqueueOneTx_safe hstep _ _))

theorem enqueueAllTx_safe (order : Nat → EnqueueOrder) (index : Nat) (prepared : List PreparedEnqueue) :
    Safe Adm Ok Inv (enqueueAllTx order index prepared) := by
  induction prepared generalizing index with
  | nil => exact safe_pure _
  | cons entry rest ih =>
    exact safe_bind (safe_mapError (enqueueOneTx_safe hstep _ _)) fun _ => ih (index + 1)

theorem enqueueBatch_safe (now : Time) (order : Nat → EnqueueOrder) (tasks : List TaskEnvelope) :
    Safe Adm Ok Inv (enqueueBatch now order tasks) :=
  safe_ite (safe_pure _) (safe_bind (ofExcept_safe _) fun prepared =>
    safe_transaction (enqueueAllTx_safe hstep order 0 prepared))

theorem mutateScoped_safe (context : String) (query : Query) {onMiss : Sql Unit} (hmiss : Safe Adm Ok Inv onMiss) :
    Safe Adm Ok Inv (mutateScoped context query onMiss) :=
  safe_bind (safe_read _) fun _ => safe_bind (safe_issue hstep _ _) fun _ =>
    safe_ite hmiss (safe_pure _)

theorem sweep_safe (context : String) (queues : MapOrder String) (query : Query) (cond : Row → Bool) :
    Safe Adm Ok Inv (sweep context queues query cond) :=
  safe_bind (safe_read _) fun _ => safe_bind (safe_issue hstep _ _) fun _ =>
    safe_bind (safe_read _) fun _ => safe_pure _

theorem promoteDependent_safe (dependentID : String) (now : Time) :
    Safe Adm Ok Inv (promoteDependent dependentID now) := by
  refine safe_bind (safe_read _) fun locked => safe_ite ?_ (safe_pure _)
  exact safe_bind (safe_read _) fun _ => safe_bind (safe_issue hstep _ _) fun _ => safe_read _

theorem applyPolicies_safe (failed : Bool) (now : Time) (edges : List Edge) :
    Safe Adm Ok Inv (applyPolicies failed now edges) := by
  induction edges with
  | nil => exact safe_pure _
  | cons edge rest ih =>
    refine safe_ite ih (safe_ite ?_ (safe_bind ih fun _ => safe_pure _))
    refine safe_bind ?_ fun _ => safe_bind ih fun _ => safe_pure _
    exact safe_bind (safe_issue hstep _ _) fun _ => safe_issue hstep _ _

theorem promoteEach_safe (now : Time) (dependents : List String) (queues : GoSet String) :
    Safe Adm Ok Inv (promoteEach now dependents queues) := by
  induction dependents generalizing queues with
  | nil => exact safe_pure _
  | cons dependentID rest ih => exact safe_bind (promoteDependent_safe hstep _ _) fun _ => ih _

theorem resolveFinished_safe (now : Time) (finishedID : String) (queues : GoSet String) :
    Safe Adm Ok Inv (resolveFinished now finishedID queues) := by
  refine safe_bind (safe_read _) fun state => safe_ite ?_ (safe_pure _)
  refine safe_bind (safe_read _) fun edges => safe_bind (applyPolicies_safe hstep _ _ _) fun outcome =>
    safe_ite (safe_pure _) ?_
  exact safe_bind (safe_issue hstep _ _) fun _ =>
    safe_bind (promoteEach_safe hstep _ _ _) fun _ => safe_pure _

theorem drain_safe (now : Time) (fuel : Nat) (worklist seen : List String) (queues : GoSet String) :
    Safe Adm Ok Inv (drain now fuel worklist seen queues) := by
  induction fuel generalizing worklist seen queues with
  | zero => exact safe_pure _
  | succ fuel ih =>
    cases worklist with
    | nil => exact safe_pure _
    | cons =>
      exact safe_ite (ih _ _ _) (safe_bind (resolveFinished_safe hstep _ _ _) fun _ => ih _ _ _)

theorem resolveWithin_safe (now : Time) (seed : List String) : Safe Adm Ok Inv (resolveWithin now seed) :=
  safe_bind (safe_read _) fun _ => drain_safe hstep _ _ _ _ _

/-- Every operation keeps a session sound. -/
theorem Invocation.program_safe (i : Invocation) : Safe Adm Ok Inv i.program := by
  have hscoped : ∀ context query onMiss, Safe Adm Ok Inv onMiss →
      Safe Adm Ok Inv ((fun _ => Reply.ok) <$> mutateScoped context query onMiss) :=
    fun context query onMiss hmiss => safe_map _ (mutateScoped_safe hstep context query hmiss)
  have hlost : Safe Adm Ok Inv leaseLost := safe_throw _
  -- a statement whose reply was read off the content it meets
  have hread : ∀ {A B : Type} (f : Database → A) (error : PgError) (query : Query) (g : A → B),
      Safe Adm Ok Inv (read f >>= fun a => issue error query >>= fun _ => pure (g a)) :=
    fun f error query g =>
      safe_bind (safe_read _) fun _ => safe_bind (safe_issue hstep _ _) fun _ => safe_pure _
  obtain ⟨call, now, orphanNow, scan, order, queues⟩ := i
  cases call with
  | enqueue task => exact safe_map _ (enqueue_safe hstep _ _ _)
  | enqueueBatch tasks => exact safe_map _ (enqueueBatch_safe hstep _ _ _)
  | lease => exact safe_map _ (safe_ite (safe_pure _) (hread _ _ _ id))
  | leaseGroup =>
    exact safe_map _ (safe_ite (safe_pure _) (hread _ _ _ id))
  | extendLease => exact hscoped _ _ _ hlost
  | setProgress => exact hscoped _ _ _ hlost
  | ack => exact hscoped _ _ _ hlost
  | ackBatch items => exact safe_map _ (safe_ite (safe_pure _) (hread _ _ _ id))
  | fail => exact hscoped _ _ _ hlost
  | release => exact hscoped _ _ _ hlost
  | archive taskID leaseID errMsg =>
    exact safe_map _ (safe_ite (mutateScoped_safe hstep _ _ hlost)
      (mutateScoped_safe hstep _ _ (explainMiss_safe taskID)))
  | reapExpiredLeases limit => exact safe_map _ (safe_ite (safe_pure _) (sweep_safe hstep _ _ _ _))
  | promoteScheduled limit => exact safe_map _ (safe_ite (safe_pure _) (sweep_safe hstep _ _ _ _))
  | resolveDependents taskID =>
    refine safe_map _ (safe_bind (safe_read _) fun hasDependents => safe_ite ?_ (safe_pure _))
    exact safe_bind (safe_transaction (resolveWithin_safe hstep _ _)) fun _ => safe_pure _
  | promoteReadyDependents limit =>
    refine safe_map _ (safe_ite (safe_pure _) (safe_transaction ?_))
    exact safe_bind (safe_read _) fun _ => safe_bind (resolveWithin_safe hstep _ _) fun _ =>
      safe_bind (safe_read _) fun _ => safe_bind (safe_issue hstep _ _) fun _ =>
        safe_bind (safe_read _) fun _ => safe_pure _
  | purgeTerminal =>
    refine safe_map _ (safe_ite (safe_pure _) ?_)
    refine safe_bind (safe_issue hstep _ _) fun _ => safe_bind (safe_issue hstep _ _) fun _ =>
      safe_bind (hread _ _ _ List.length) fun _ => safe_ite (safe_pure _) ?_
    exact safe_bind (hread _ _ _ List.length) fun _ => safe_pure _
  | archiveExpired limit => exact safe_map _ (safe_ite (safe_pure _) (hread _ _ _ List.length))
  | cancelTask taskID => exact hscoped _ _ _ (explainMiss_safe taskID)
  | deleteTask taskID =>
    refine safe_map _ (safe_bind (safe_read _) fun hasDependents => safe_ite (safe_throw _) ?_)
    exact safe_bind (mutateScoped_safe hstep _ _ (explainMiss_safe taskID)) fun _ =>
      safe_issue hstep _ _
  | runTaskNow taskID => exact hscoped _ _ _ (explainMiss_safe taskID)
  | rescheduleTask taskID processAt => exact hscoped _ _ _ (explainMiss_safe taskID)
  | archiveTask taskID => exact hscoped _ _ _ (explainMiss_safe taskID)
  | setQueuePaused queue paused => exact safe_pure _
  | setQueueConcurrencyLimit => exact safe_pure _
  | deleteQueueConcurrencyLimit queue => exact safe_pure _

/-- Every run keeps its session sound. -/
theorem run_sound (hstart : Inv {}) (invocations : List Invocation) : Sound Adm Ok Inv (run invocations) := by
  have hempty : Sound Adm Ok Inv { db := {}, log := [] } := by
    refine ⟨fun _ => hstart, fun first entry rest heq => ?_⟩
    exact absurd heq (by simp)
  unfold run
  generalize ({ db := {}, log := [] } : Session Database Query) = session at hempty
  induction invocations generalizing session with
  | nil => exact hempty
  | cons i rest ih => exact ih _ (i.program_safe hstep session hempty).1

end Safety

section Termination

/-- The edges that wait on a task the worklist loop has not visited. -/
def unvisitedEdges (deps : List Edge) (seen : List String) : Nat :=
  (deps.filter fun edge => decide (edge.dependencyID ∉ seen)).length

/-- What a resolution makes of a content: edges are dropped, and the unique keys stay. -/
structure Resolving (base db : Database) : Prop where
  deps : db.deps.Sublist base.deps
  keys : ∀ t, (db.tasks.lookup t).map Row.uniqueKey = (base.tasks.lookup t).map Row.uniqueKey

variable {base db : Database}

theorem Resolving.update (h : Resolving base db) {cond : Database → String → Row → Bool} {set : Row → Row}
    (hset : ∀ row, (set row).uniqueKey = row.uniqueKey) : Resolving base ((Statement.update cond set).effect db) := by
  refine ⟨h.deps, fun t => ?_⟩
  rw [← h.keys t, Statement.effect, GoMap.lookup_mapValues, Option.map_map]
  congr 1
  funext row
  simp only [Function.comp_apply]
  split
  · exact hset row
  · rfl

theorem Resolving.deleteEdges (h : Resolving base db) {cond : Database → Edge → Bool} :
    Resolving base ((Statement.deleteEdges cond).effect db) := ⟨List.filter_sublist.trans h.deps, h.keys⟩

/-- Applying a finished task's edges cancels at most one dependent for each. -/
theorem applyPolicies_ensures (base : Database) (failed : Bool) (now : Time) (edges : List Edge) :
    Ensures (Resolving base) (applyPolicies failed now edges)
      fun outcome db => outcome.2.length ≤ edges.length ∧ Resolving base db := by
  induction edges with
  | nil => exact ensures_pure fun db h => ⟨le_rfl, h⟩
  | cons edge rest ih =>
    refine ensures_ite ?_ (ensures_ite ?_ ?_)
    · exact ensures_mono ih (fun _ h => h) fun _ _ h => h.imp_left Nat.le_succ_of_le
    · refine ensures_bind (fun _ => Resolving base) ?_ fun _ =>
        ensures_bind _ ih fun outcome => ensures_pure fun db h => ⟨Nat.succ_le_succ h.1, h.2⟩
      exact ensures_bind (fun _ => Resolving base) (ensures_issue fun _ h => h.update fun _ => rfl) fun _ =>
        ensures_issue fun _ h => h.deleteEdges
    · exact ensures_bind _ ih fun outcome => ensures_pure fun db h => ⟨Nat.le_succ_of_le h.1, h.2⟩

theorem promoteEach_ensures (base : Database) (now : Time) (dependents : List String) (queues : GoSet String) :
    Ensures (Resolving base) (promoteEach now dependents queues) fun _ => Resolving base := by
  induction dependents generalizing queues with
  | nil => exact ensures_pure fun _ h => h
  | cons dependentID rest ih =>
    refine ensures_bind (fun _ => Resolving base) ?_ fun _ => ih _
    refine ensures_bind (fun _ => Resolving base) (ensures_read fun _ h => h) fun _ =>
      ensures_ite ?_ (ensures_pure fun _ h => h)
    exact ensures_bind (fun _ => Resolving base) (ensures_read fun _ h => h) fun _ =>
      ensures_bind (fun _ => Resolving base) (ensures_issue fun _ h => h.update fun _ => rfl) fun _ =>
        ensures_read fun _ h => h

/-- One round of the loop adds at most one entry for each edge that waits on the visited task. -/
theorem resolveFinished_ensures (base : Database) (now : Time) (finishedID : String) (queues : GoSet String) :
    Ensures (fun db => db = base) (resolveFinished now finishedID queues) fun outcome db => Resolving base db ∧
      outcome.1.length ≤ (base.deps.filter fun edge => edge.dependencyID == finishedID).length := by
  have hnone : ∀ db : Database, db = base → Resolving base db := by
    rintro db rfl
    exact ⟨List.Sublist.refl _, fun _ => rfl⟩
  refine ensures_bind (fun _ db => db = base) (ensures_read fun _ h => h) fun state =>
    ensures_ite ?_ (ensures_pure fun db h => ⟨hnone db h, Nat.zero_le _⟩)
  refine ensures_bind
    (fun edges db => edges.length = (base.deps.filter fun edge => edge.dependencyID == finishedID).length ∧
      Resolving base db)
    (ensures_read fun db h => ⟨by rw [← h]; exact (sortFunc_perm _ _).length_eq, hnone db h⟩)
    fun edges => ?_
  refine ensures_of_fact (fun _ h => h.1) fun hlength => ?_
  rw [← hlength]
  refine ensures_bind (fun outcome db => outcome.2.length ≤ edges.length ∧ Resolving base db)
    (ensures_mono (applyPolicies_ensures base _ now edges) (fun _ h => h.2) fun _ _ h => h)
    fun outcome => ensures_ite (ensures_pure fun db h => ⟨h.2, h.1⟩) ?_
  refine ensures_of_fact (fun _ h => h.1) fun hcanceled => ?_
  refine ensures_bind (fun _ => Resolving base) (ensures_issue fun db h => h.2.deleteEdges) fun _ => ?_
  exact ensures_bind _ (promoteEach_ensures base now outcome.1 queues)
    fun _ => ensures_pure fun db h => ⟨h, hcanceled⟩

/-- Visiting a task takes the edges that wait on it out of the count. -/
theorem unvisitedEdges_cons_add {base deps : List Edge} {seen : List String} {finishedID : String}
    (hdeps : deps.Sublist base) (hnew : finishedID ∉ seen) :
    unvisitedEdges deps (finishedID :: seen) +
      (base.filter fun edge => edge.dependencyID == finishedID).length ≤ unvisitedEdges base seen := by
  have hsub : unvisitedEdges deps (finishedID :: seen) ≤ unvisitedEdges base (finishedID :: seen) :=
    (hdeps.filter _).length_le
  refine (Nat.add_le_add_right hsub _).trans ?_
  clear hsub hdeps
  unfold unvisitedEdges
  induction base with
  | nil => simp
  | cons edge rest ih =>
    by_cases hedge : edge.dependencyID = finishedID
    · simp_all
      omega
    · by_cases hseen : edge.dependencyID ∈ seen
      · simp_all
      · simp_all
        omega

/-- The loop never runs out: once the bound covers the entries and the unvisited edges, a larger one
gives the same result. -/
theorem drain_fuel (now : Time) (fuel extra : Nat) (worklist seen : List String) (queues : GoSet String)
    (session : Session Database Query) (h : worklist.length + unvisitedEdges session.db.deps seen ≤ fuel) :
    drain now (fuel + extra) worklist seen queues session = drain now fuel worklist seen queues session := by
  induction fuel generalizing worklist seen queues session with
  | zero =>
    have hnil : worklist = [] := List.eq_nil_of_length_eq_zero (by omega)
    subst hnil
    cases extra <;> rfl
  | succ fuel ih =>
    cases worklist with
    | nil => rw [Nat.succ_add]; rfl
    | cons finishedID rest =>
      rw [Nat.succ_add]
      simp only [List.length_cons] at h
      unfold drain
      split
      · exact ih rest seen queues session (by omega)
      · rename_i hnew
        refine bind_congr_at fun outcome after hrun => ?_
        obtain ⟨hsub, hlength⟩ :=
          resolveFinished_ensures session.db now finishedID queues session rfl outcome after hrun
        have hcount := unvisitedEdges_cons_add hsub.deps hnew
        refine ih (rest ++ outcome.1) (finishedID :: seen) outcome.2 after ?_
        rw [List.length_append]
        omega

/-- `resolveWithin` visits its whole worklist: no larger bound changes what it does. -/
theorem resolveWithin_fuel (now : Time) (seed : List String) (extra : Nat) (session : Session Database Query) :
    resolveWithin now seed session = drain now (seed.length + session.db.deps.length + extra) seed [] ∅ session := by
  refine (drain_fuel now (seed.length + session.db.deps.length) extra seed [] ∅ session ?_).symm
  exact Nat.add_le_add_left (List.length_filter_le _ _) _

end Termination

end Conveyor.Postgres
