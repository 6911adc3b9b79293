import Conveyor.Broker.Step
import Mathlib.Data.Finset.Card

/-!
# Dependency resolution step by step

One waiter is handled by one elementary step, or two when the last edge goes and the row is
promoted. The finished task keeps its outcome while its waiters are handled, so every step is
taken under the outcome the loop read before it started. The worklist empties: each id that enters
it loses its edges on the way in, and no row ever gains one.
-/

namespace Conveyor

open Lib

/-- The finished task is stored with an outcome of the given kind. -/
def Broker.FinishedWith (b : Broker) (f : String) (failed : Bool) : Prop :=
  ∃ finished, b.tasks.lookup f = some finished ∧ terminal finished.state = true ∧
    failedDependency finished.state = failed

variable {b : Broker} {id : String} {row : TaskRow} {now : Time}

/-- The queue a promotion reports. -/
theorem Broker.promoteIfReady_queue {queue : String} :
    (b.promoteIfReady id row now).2 = some queue ↔
      row.state = .blocked ∧ row.deps.keys = [] ∧ row.envelope.queue = queue := by
  rw [Broker.promoteIfReady]
  split
  · rename_i hstays
    simp only [reduceCtorEq, false_iff]
    rintro ⟨hblocked, hdeps, -⟩
    exact hstays.elim (fun h => h hblocked) fun h => h hdeps
  · rename_i hready
    rw [not_or, not_not, not_not] at hready
    simp [hready]

namespace Resolution

variable {order : ResolveOrder} {now : Time} {f : String} {failed : Bool}

/-- What handling one waiter does, with the guards of each branch. -/
inductive EdgeOutcome (order : ResolveOrder) (now : Time) (f : String) (failed : Bool)
    (r : Resolution) (d : String) : Resolution → Prop where
  | stale (h : ∀ row, r.store.tasks.lookup d = some row → row.deps.lookup f = none) :
      EdgeOutcome order now f failed r d { r with store := r.store.removeDependent f d }
  | blocked {row : TaskRow} (hfailed : failed = true) (hrow : r.store.tasks.lookup d = some row)
      (hedge : row.deps.lookup f = some .block) : EdgeOutcome order now f failed r d r
  | cascaded {row : TaskRow} (hrow : r.store.tasks.lookup d = some row) (hfailed : failed = true)
      (hedge : row.deps.lookup f = some .cascadeCancel) :
      EdgeOutcome order now f failed r d
        { r with
          store := (r.store.removeDependents ((order.edges d).visit row.deps) d).transition d row
            (row.cascaded now) now
          worklist := r.worklist ++ [d] }
  | satisfied {row : TaskRow} {policy : DependencyFailurePolicy}
      (hrow : r.store.tasks.lookup d = some row) (hedge : row.deps.lookup f = some policy)
      (hpolicy : failed = true → policy ≠ .block ∧ policy ≠ .cascadeCancel) (queues : GoSet String)
      (hqueues : ∀ queue, queue ∈ queues ↔ queue ∈ r.queues ∨
        (row.state = .blocked ∧ (row.satisfied f).deps.keys = [] ∧ row.envelope.queue = queue)) :
      EdgeOutcome order now f failed r d
        { r with
          store := (((r.store.setRow d (row.satisfied f)).removeDependent f d).promoteIfReady d
            (row.satisfied f) now).1
          queues := queues }

/-- Adding a queue changes the collected queues only. -/
theorem addQueue_eq (r : Resolution) (queue : Option String) :
    ∃ queues, r.addQueue queue = { r with queues := queues } ∧
      ∀ name, name ∈ queues ↔ name ∈ r.queues ∨ queue = some name := by
  cases queue with
  | none => exact ⟨r.queues, rfl, fun name => by simp⟩
  | some added => exact ⟨r.queues.insert added (), rfl, fun name => by simp [or_comm, eq_comm]⟩

/-- Handling one waiter has one of the four outcomes. -/
theorem resolveEdge_outcome (order : ResolveOrder) (now : Time) (f : String) (failed : Bool) (r : Resolution)
    (d : String) : EdgeOutcome order now f failed r d (resolveEdge order now f failed r d) := by
  rw [resolveEdge]
  cases hrow : r.store.tasks.lookup d with
  | none => exact .stale (by simp [hrow])
  | some row =>
    dsimp only
    cases hedge : row.deps.lookup f with
    | none => exact .stale (by simp [hrow, hedge])
    | some policy =>
      dsimp only
      split
      · rename_i hblock
        obtain ⟨hfailed, rfl⟩ := hblock
        exact .blocked hfailed hrow hedge
      · split
        · rename_i hcascade
          obtain ⟨hfailed, rfl⟩ := hcascade
          exact .cascaded hrow hfailed hedge
        · rename_i hblock hcascade
          have hpolicy : failed = true → policy ≠ .block ∧ policy ≠ .cascadeCancel :=
            fun hfailed => ⟨fun h => hblock ⟨hfailed, h⟩, fun h => hcascade ⟨hfailed, h⟩⟩
          obtain ⟨queues, hqueues, hmem⟩ := addQueue_eq
            { r with store := (((r.store.setRow d (row.satisfied f)).removeDependent f d).promoteIfReady d
              (row.satisfied f) now).1 } (((r.store.setRow d (row.satisfied f)).removeDependent f
              d).promoteIfReady d (row.satisfied f) now).2
          rw [hqueues]
          refine .satisfied hrow hedge hpolicy queues fun queue => (hmem queue).trans ?_
          rw [Broker.promoteIfReady_queue]
          exact .rfl

end Resolution

/-- Promoting a row leaves the others alone. -/
theorem Broker.promoteIfReady_lookup_ne {t : String} (hne : t ≠ id) :
    (b.promoteIfReady id row now).1.tasks.lookup t = b.tasks.lookup t := by
  rw [Broker.promoteIfReady]
  split
  · rfl
  · rw [Broker.transition_tasks, AList.lookup_insert_ne hne]

/-- A row that is not blocked is not promoted. -/
theorem Broker.promoteIfReady_of_ne_blocked (h : row.state ≠ .blocked) : (b.promoteIfReady id row now).1 = b := by
  rw [Broker.promoteIfReady, if_pos (.inl h)]

/-- Promotion does not touch the waiting records. -/
@[simp] theorem Broker.promoteIfReady_dependents (b : Broker) (id : String) (row : TaskRow) (now : Time) :
    (b.promoteIfReady id row now).1.dependents = b.dependents := by
  rw [Broker.promoteIfReady]
  split
  · rfl
  · exact Broker.transition_dependents b id row _ now

variable {d : String}

/-- Clearing one task's waiting records leaves those of the others. -/
theorem Broker.mem_waiters_removeDependents (edges : List String) (b : Broker) {f t : String} (hne : t ≠ d) :
    t ∈ (b.removeDependents edges d).waiters f ↔ t ∈ b.waiters f := by
  induction edges generalizing b with
  | nil => exact .rfl
  | cons edge rest ih =>
    have hstep := Broker.mem_waiters_removeDependent b edge d f t
    rw [Broker.removeDependents, List.foldl_cons]
    refine (ih (b.removeDependent edge d)).trans (hstep.trans ?_)
    simp [hne]

/-- Clearing waiting records adds none. -/
theorem Broker.waiters_removeDependents_subset (edges : List String) (b : Broker) {f t : String}
    (h : t ∈ (b.removeDependents edges d).waiters f) : t ∈ b.waiters f := by
  induction edges generalizing b with
  | nil => exact h
  | cons edge rest ih =>
    have hrest := ih (b.removeDependent edge d) h
    rw [Broker.mem_waiters_removeDependent] at hrest
    exact hrest.2

/-- Equal waiting records have equal waiters. -/
theorem Broker.waiters_congr {b' : Broker} (h : b.dependents = b'.dependents) (f : String) :
    b.waiters f = b'.waiters f := by
  rw [Broker.waiters, Broker.waiters, h]

namespace Resolution

variable {order : ResolveOrder} {now : Time} {f : String} {failed : Bool}

/-- Handling one waiter leaves the rows of the others alone. -/
theorem resolveEdge_lookup_ne (r : Resolution) {t : String} (hne : t ≠ d) :
    (resolveEdge order now f failed r d).store.tasks.lookup t = r.store.tasks.lookup t := by
  have houtcome := resolveEdge_outcome order now f failed r d
  generalize resolveEdge order now f failed r d = r' at houtcome ⊢
  cases houtcome with
  | stale h => simp
  | blocked hfailed => rfl
  | cascaded => simp [AList.lookup_insert_ne hne]
  | satisfied =>
    simp [Broker.promoteIfReady_lookup_ne hne, AList.lookup_insert_ne hne]

variable {r : Resolution}

/-- Handling one waiter keeps the outcome its dependency finished with. -/
theorem resolveEdge_finishedWith (d : String) (h : r.store.FinishedWith f failed) :
    (resolveEdge order now f failed r d).store.FinishedWith f failed := by
  obtain ⟨finished, hfinished, hterminal, hkind⟩ := h
  rcases eq_or_ne f d with rfl | hself
  · have houtcome := resolveEdge_outcome order now f failed r f
    generalize resolveEdge order now f failed r f = r' at houtcome ⊢
    cases houtcome with
    | stale h => exact ⟨finished, by simpa using hfinished, hterminal, hkind⟩
    | blocked hfailed => exact ⟨finished, hfinished, hterminal, hkind⟩
    | @cascaded row hrow hfailed hedge =>
      exact ⟨row.cascaded now, by simp, rfl, hfailed.symm⟩
    | @satisfied row policy hrow hedge hpolicy queues =>
      obtain rfl : row = finished := by
        rw [hrow] at hfinished
        exact Option.some.inj hfinished
      have hblocked : (row.satisfied f).state ≠ .blocked := by
        intro hstate
        rw [show row.state = .blocked from hstate] at hterminal
        cases hterminal
      rw [Broker.promoteIfReady_of_ne_blocked hblocked]
      exact ⟨row.satisfied f, by simp, hterminal, hkind⟩
  · exact ⟨finished, (resolveEdge_lookup_ne r hself).trans hfinished, hterminal, hkind⟩

/-- Handling one waiter leaves the waiting records of the others. -/
theorem resolveEdge_waiters (r : Resolution) {t : String} (hne : t ≠ d) (g : String) :
    t ∈ (resolveEdge order now f failed r d).store.waiters g ↔ t ∈ r.store.waiters g := by
  have houtcome := resolveEdge_outcome order now f failed r d
  generalize resolveEdge order now f failed r d = r' at houtcome ⊢
  cases houtcome with
  | stale h =>
    rw [Broker.mem_waiters_removeDependent]
    simp [hne]
  | blocked hfailed => exact .rfl
  | cascaded =>
    rw [Broker.waiters_congr (Broker.transition_dependents _ _ _ _ _)]
    exact Broker.mem_waiters_removeDependents _ r.store hne
  | @satisfied row policy hrow hedge hpolicy queues =>
    rw [Broker.waiters_congr (Broker.promoteIfReady_dependents _ _ _ _),
      Broker.mem_waiters_removeDependent,
      Broker.waiters_congr (Broker.setRow_dependents r.store d (row.satisfied f))]
    simp [hne]

/-- Handling one waiter adds no record. -/
theorem waiters_of_resolveEdge (x : String) {t g : String}
    (h : t ∈ (resolveEdge order now f failed r x).store.waiters g) : t ∈ r.store.waiters g := by
  have houtcome := resolveEdge_outcome order now f failed r x
  generalize resolveEdge order now f failed r x = r' at houtcome h
  cases houtcome with
  | stale _ =>
    rw [Broker.mem_waiters_removeDependent] at h
    exact h.2
  | blocked _ => exact h
  | cascaded =>
    rw [Broker.waiters_congr (Broker.transition_dependents _ _ _ _ _)] at h
    exact Broker.waiters_removeDependents_subset _ r.store h
  | @satisfied row policy hrow hedge hpolicy queues =>
    rw [Broker.waiters_congr (Broker.promoteIfReady_dependents _ _ _ _),
      Broker.mem_waiters_removeDependent,
      Broker.waiters_congr (Broker.setRow_dependents r.store x (row.satisfied f))] at h
    exact h.2

/-- A failed state is terminal. -/
theorem terminal_of_failedDependency {state : TaskState} (h : failedDependency state = true) :
    terminal state = true := by
  cases state <;> first | rfl | cases h

/-- Handling waiters leaves the set of visited ids alone. -/
theorem foldl_resolveEdge_seen (ds : List String) (r : Resolution) :
    (ds.foldl (resolveEdge order now f failed) r).seen = r.seen := by
  refine List.foldlRecOn (motive := fun r' : Resolution => r'.seen = r.seen) ds _ rfl fun r' h d _ => ?_
  have houtcome := resolveEdge_outcome order now f failed r' d
  generalize resolveEdge order now f failed r' d = next at houtcome ⊢
  cases houtcome <;> exact h

variable {call : Call} {seeds : List String} {base : Broker}

/-- A store a resolving call can be in: it has no cascade-cancel edge that the call did not start
with, and what failed since the start was reached by the cascade. -/
structure ResolvingFrom (seeds : List String) (base c : Broker) : Prop where
  edges : ∀ f d, c.CascadeEdge f d → base.CascadeEdge f d
  failed : ∀ f row, c.tasks.lookup f = some row → failedDependency row.state = true →
    (∃ row₀, base.tasks.lookup f = some row₀ ∧ failedDependency row₀.state = true) ∨ CascadeReached base seeds f

/-- An id the call works through: one it starts from, or one the cascade reached. -/
def Source (base : Broker) (seeds : List String) (f : String) : Prop :=
  f ∈ seeds ∨ CascadeReached base seeds f

/-- A resolution under way: steps from the start led to its store, and it works through sources only. -/
structure Stepped (now : Time) (call : Call) (seeds : List String) (base : Broker) (r : Resolution) : Prop where
  steps : StoreSteps now call seeds base base r.store
  worklist : ∀ g ∈ r.worklist, Source base seeds g

variable (hcall : call.resolves = true)

include hcall

/-- A step of a resolving call adds no waiting record. -/
theorem waiters_of_step {c c' : Broker} (hstep : StoreStep now call seeds base c c') {f : String}
    (h : d ∈ c'.waiters f) : d ∈ c.waiters f := by
  cases hstep with
  | create htask => simp [Call.enqueued_nil_of_resolves hcall] at htask
  | change hrow hchange => rwa [Broker.waiters_congr (Broker.transition_dependents _ _ _ _ _)] at h
  | satisfy =>
    rw [Broker.mem_waiters_removeDependent] at h
    exact h.2
  | @cascade f' d' finished row edges =>
    rw [Broker.waiters_congr (Broker.transition_dependents _ _ _ _ _)] at h
    exact Broker.waiters_removeDependents_subset edges c h
  | unindex hstale =>
    rw [Broker.mem_waiters_removeDependent] at h
    exact h.2
  | delete hdelete => simp [hdelete, Call.resolves] at hcall
  | purge hpurge => simp [hpurge, Call.resolves] at hcall
  | settings htasks hdependents => rwa [Broker.waiters_congr hdependents] at h

/-- A step of a resolving call keeps to the edges and failures it started with. -/
theorem ResolvingFrom.step {c c' : Broker} (h : ResolvingFrom seeds base c) (hstep : StoreStep now call seeds base c c') :
    ResolvingFrom seeds base c' := by
  constructor
  · rintro f d ⟨hwaits, row', hrow', hedge⟩
    apply h.edges f d
    refine ⟨waiters_of_step hcall hstep hwaits, ?_⟩
    have hview := hstep.row d
    rw [hrow'] at hview
    generalize hstored : c.tasks.lookup d = stored at hview
    cases hview with
    | same => exact ⟨row', rfl, hedge⟩
    | created htask => simp [Call.enqueued_nil_of_resolves hcall] at htask
    | @changed row _ hchange =>
      obtain ⟨-, -, rfl⟩ := hchange.of_resolves hcall
      exact ⟨row, rfl, hedge⟩
    | @satisfied g finished row =>
      refine ⟨row, rfl, ?_⟩
      simp only [TaskRow.satisfied, GoMap.lookup_erase_eq_ite] at hedge
      split at hedge
      · cases hedge
      · exact hedge
    | cascaded => cases hedge
  · intro f row' hrow' hfailed
    have hview := hstep.row f
    rw [hrow'] at hview
    generalize hstored : c.tasks.lookup f = stored at hview
    cases hview with
    | same => exact h.failed f row' hstored hfailed
    | created htask => simp [Call.enqueued_nil_of_resolves hcall] at htask
    | changed hchange =>
      obtain ⟨-, -, rfl⟩ := hchange.of_resolves hcall
      simp only [TaskRow.promoted] at hfailed
      split_ifs at hfailed <;> cases hfailed
    | @satisfied g finished row => exact h.failed f row hstored hfailed
    | cascaded _ _ _ hreached => exact .inr hreached

/-- Every store a resolving call passes through keeps to the edges and failures it started with. -/
theorem ResolvingFrom.of_steps {c : Broker} (hsteps : StoreSteps now call seeds base base c) :
    ResolvingFrom seeds base c := by
  induction hsteps with
  | refl => exact ⟨fun _ _ h => h, fun f row hrow hfailed => .inl ⟨row, hrow, hfailed⟩⟩
  | tail _ hlast ih => exact ih.step hcall hlast

/-- Handling one recorded waiter of a finished task is a sequence of steps, and puts only ids the
cascade reached on the worklist. -/
theorem Stepped.resolveEdge (h : Stepped now call seeds base r) (order : ResolveOrder) (hsource : Source base seeds f)
    (hfinished : r.store.FinishedWith f failed) (hwaits : d ∈ r.store.waiters f) :
    Stepped now call seeds base (resolveEdge order now f failed r d) := by
  obtain ⟨finished, hlookup, hterminal, hkind⟩ := hfinished
  have houtcome := resolveEdge_outcome order now f failed r d
  generalize Resolution.resolveEdge order now f failed r d = r' at houtcome ⊢
  cases houtcome with
  | stale hstale => exact ⟨h.steps.tail (.unindex fun row hrow => .inl (hstale row hrow)), h.worklist⟩
  | blocked hfailed => exact ⟨h.steps, h.worklist⟩
  | @cascaded row hrow hfailed hedge =>
    have hresolving := ResolvingFrom.of_steps hcall h.steps
    have hcascade := hresolving.edges f d ⟨hwaits, row, hrow, hedge⟩
    have hreached : CascadeReached base seeds d := by
      rcases hsource with hseed | hf
      · rcases hresolving.failed f finished hlookup (hkind.trans hfailed) with ⟨row₀, hrow₀, hfailed₀⟩ | hf
        · exact .seed hseed hrow₀ hfailed₀ hcascade
        · exact .next hf hcascade
      · exact .next hf hcascade
    constructor
    · exact h.steps.tail (.cascade hcall hlookup (hkind.trans hfailed) hreached hrow hedge
        (MapOrder.mem_visit _ _))
    · intro g hg
      rcases List.mem_append.mp hg with hg | hg
      · exact h.worklist g hg
      · exact .inr (List.mem_singleton.mp hg ▸ hreached)
  | @satisfied row policy hrow hedge hpolicy queues =>
    refine ⟨(h.steps.tail (.satisfy hcall hlookup hterminal hwaits hrow hedge
      fun hfailed => hpolicy (hkind.symm.trans hfailed))).trans ?_, h.worklist⟩
    apply promoteIfReady_steps hcall
    simp

/-- Handling distinct recorded waiters of a finished task is a sequence of steps. -/
theorem Stepped.foldl_resolveEdge (h : Stepped now call seeds base r) (hsource : Source base seeds f)
    (hfinished : r.store.FinishedWith f failed) {ds : List String} (hnodup : ds.Nodup)
    (hwaits : ∀ d ∈ ds, d ∈ r.store.waiters f) :
    Stepped now call seeds base (ds.foldl (Resolution.resolveEdge order now f failed) r) := by
  induction ds generalizing r with
  | nil => exact h
  | cons d rest ih =>
    rw [List.nodup_cons] at hnodup
    have hnext := h.resolveEdge hcall order hsource hfinished (hwaits d (.head _))
    refine ih hnext (resolveEdge_finishedWith d hfinished) hnodup.2 fun t ht => ?_
    have hne : t ≠ d := fun heq => hnodup.1 (heq ▸ ht)
    exact (resolveEdge_waiters r hne f).mpr (hwaits t (.tail d ht))

/-- Handling one finished task is a sequence of steps. -/
theorem Stepped.resolveFinished (h : Stepped now call seeds base r) (order : ResolveOrder) (hsource : Source base seeds f) :
    Stepped now call seeds base (resolveFinished order now f r) := by
  rw [Resolution.resolveFinished]
  split
  · exact h
  · dsimp only
    cases hlookup : r.store.tasks.lookup f with
    | none => exact ⟨h.steps, h.worklist⟩
    | some finished =>
      dsimp only
      split_ifs with hterminal
      · have hmarked : Stepped now call seeds base { r with seen := r.seen.insert f () } := ⟨h.steps, h.worklist⟩
        exact hmarked.foldl_resolveEdge hcall hsource ⟨finished, hlookup, hterminal, rfl⟩ (MapOrder.nodup_visit _ _)
          fun d hd => (MapOrder.mem_visit _ _ d).mp hd
      · exact ⟨h.steps, h.worklist⟩

/-- Working off the worklist is a sequence of steps. -/
theorem Stepped.drain (h : Stepped now call seeds base r) (fuel : Nat) :
    StoreSteps now call seeds base base (drain order now fuel r).store := by
  induction fuel generalizing r with
  | zero => exact h.steps
  | succ fuel ih =>
    rw [Resolution.drain]
    split
    · exact h.steps
    · rename_i f rest heq
      obtain ⟨hf, hrest⟩ := List.forall_mem_cons.mp (heq ▸ h.worklist)
      have hpopped : Stepped now call seeds base { r with worklist := rest } := ⟨h.steps, hrest⟩
      exact ih (hpopped.resolveFinished hcall order hf)

end Resolution

section Calls

variable {now : Time} {call : Call} {seeds : List String} {base : Broker} (hcall : call.resolves = true)

include hcall

/-- Resolving a task's dependents is a sequence of steps. -/
theorem resolveDependents_steps (b : Broker) (order : ResolveOrder) {taskID : String}
    (hfrom : StoreSteps now call seeds base base b) (hseed : taskID ∈ seeds) :
    StoreSteps now call seeds base base (b.resolveDependents order taskID now).1 := by
  have hstart : Resolution.Stepped now call seeds base { store := b, worklist := [taskID] } := by
    refine ⟨hfrom, fun g hg => ?_⟩
    obtain rfl := List.mem_singleton.mp hg
    exact .inl hseed
  exact hstart.drain hcall _

/-- Resolving several finished tasks is a sequence of steps. -/
theorem resolveAll_steps (order : String → ResolveOrder) (depIDs : List String) (b : Broker) (queues : GoSet String)
    (hfrom : StoreSteps now call seeds base base b) (hseeds : ∀ depID ∈ depIDs, depID ∈ seeds) :
    StoreSteps now call seeds base base (Broker.resolveAll order now depIDs (b, queues)).1 := by
  induction depIDs generalizing b queues with
  | nil => exact hfrom
  | cons depID rest ih =>
    exact ih _ _ (resolveDependents_steps hcall b (order depID) hfrom (hseeds depID (.head _)))
      fun other hother => hseeds other (.tail depID hother)

/-- Promoting the ready rows among the given ids is a sequence of steps. -/
theorem promoteAll_steps (ids : List String) (b : Broker) (queues : GoSet String) :
    StoreSteps now call seeds base b (Broker.promoteAll now ids (b, queues)).1 := by
  induction ids generalizing b queues with
  | nil => exact .refl
  | cons id rest ih =>
    rw [Broker.promoteAll]
    cases hrow : b.tasks.lookup id with
    | none => exact ih b queues
    | some row =>
      have hstep : StoreSteps now call seeds base b (b.promoteIfReady id row now).1 := promoteIfReady_steps hcall hrow
      rcases hpromote : b.promoteIfReady id row now with ⟨b', queue⟩
      rw [hpromote] at hstep
      simp only [hpromote]
      cases queue with
      | none => exact hstep.trans (ih b' queues)
      | some name => exact hstep.trans (ih b' _)

/-- The safety net is a sequence of steps that resolves the finished dependencies it visits. -/
theorem promoteReadyDependents_steps (b : Broker) (tasks finished queues : MapOrder String)
    (order : String → ResolveOrder) (limit : Int) :
    StoreSteps now call ((finished.visit b.finishedDependencies).take limit.toNat) b b
      (b.promoteReadyDependents now tasks finished queues order limit).1 := by
  rw [Broker.promoteReadyDependents]
  split
  · exact .refl
  · exact (resolveAll_steps hcall order _ b ∅ .refl fun _ h => h).trans (promoteAll_steps hcall _ _ _)

end Calls

section Termination

/-- Whether a stored row still has an edge. -/
def Broker.hasEdges (b : Broker) (id : String) : Bool :=
  match b.tasks.lookup id with
  | some row => decide (row.deps.keys ≠ [])
  | none => false

/-- The stored rows that still have an edge. -/
def Broker.edgeRows (b : Broker) : Finset String := b.tasks.keys.toFinset.filter (b.hasEdges · = true)

theorem Broker.mem_edgeRows : id ∈ b.edgeRows ↔ ∃ row, b.tasks.lookup id = some row ∧ row.deps.keys ≠ [] := by
  rw [edgeRows, Finset.mem_filter, List.mem_toFinset, ← AList.mem_keys, hasEdges]
  cases hrow : b.tasks.lookup id with
  | none => simp
  | some row => simp [GoMap.mem_of_lookup hrow]

namespace Resolution

variable {order : ResolveOrder} {now : Time} {f : String} {failed : Bool}

/-- The ids still to be taken from the worklist, now or later, are at most this many. -/
def pending (r : Resolution) : Nat := r.worklist.length + r.store.edgeRows.card

/-- An id enters the worklist only by losing its edges. -/
theorem resolveEdge_pending (r : Resolution) (d : String) :
    (resolveEdge order now f failed r d).pending ≤ r.pending := by
  have hothers : ∀ t, t ≠ d → (t ∈ (resolveEdge order now f failed r d).store.edgeRows ↔
      t ∈ r.store.edgeRows) := by
    intro t hne
    rw [Broker.mem_edgeRows, Broker.mem_edgeRows, resolveEdge_lookup_ne r hne]
  have houtcome := resolveEdge_outcome order now f failed r d
  generalize resolveEdge order now f failed r d = r' at houtcome hothers ⊢
  cases houtcome with
  | stale h =>
    refine Nat.add_le_add_left (Finset.card_le_card fun t ht => ?_) _
    rw [Broker.mem_edgeRows] at ht ⊢
    simpa using ht
  | blocked hfailed => exact Nat.le_refl _
  | @cascaded row hrow hfailed hedge =>
    have hd : d ∈ r.store.edgeRows := by
      refine Broker.mem_edgeRows.mpr ⟨row, hrow, ?_⟩
      intro hnil
      rw [GoMap.lookup_eq_none_of_keys_nil hnil] at hedge
      cases hedge
    have hsub : (((r.store.removeDependents ((order.edges d).visit row.deps) d).transition d row
        (row.cascaded now) now).edgeRows) ⊆ r.store.edgeRows.erase d := by
      intro t ht
      rcases eq_or_ne t d with rfl | hne
      · obtain ⟨row', hrow', hdeps⟩ := Broker.mem_edgeRows.mp ht
        simp only [Broker.transition_tasks, AList.lookup_insert, Option.some.injEq] at hrow'
        subst hrow'
        exact absurd rfl hdeps
      · exact Finset.mem_erase.mpr ⟨hne, (hothers t hne).mp ht⟩
    have hcard := Finset.card_le_card hsub
    rw [Finset.card_erase_of_mem hd] at hcard
    have hpos := Finset.card_pos.mpr ⟨d, hd⟩
    simp only [pending, List.length_append, List.length_singleton]
    omega
  | @satisfied row policy hrow hedge hpolicy queues =>
    refine Nat.add_le_add_left (Finset.card_le_card fun t ht => ?_) _
    rcases eq_or_ne t d with rfl | hne
    · refine Broker.mem_edgeRows.mpr ⟨row, hrow, ?_⟩
      intro hnil
      rw [GoMap.lookup_eq_none_of_keys_nil hnil] at hedge
      cases hedge
    · exact (hothers t hne).mp ht

/-- Handling the waiters of a finished task adds no more ids than it takes edges away. -/
theorem foldl_resolveEdge_pending (ds : List String) (r : Resolution) :
    (ds.foldl (resolveEdge order now f failed) r).pending ≤ r.pending :=
  List.foldlRecOn (motive := fun r' : Resolution => r'.pending ≤ r.pending) ds _ le_rfl fun r' h d _ => (resolveEdge_pending r' d).trans h

/-- Handling one finished task adds no more ids than it takes edges away. -/
theorem resolveFinished_pending (f : String) (r : Resolution) :
    (resolveFinished order now f r).pending ≤ r.pending := by
  rw [resolveFinished]
  split
  · exact Nat.le_refl _
  · dsimp only
    split
    · exact Nat.le_refl _
    · split
      · exact foldl_resolveEdge_pending _ { r with seen := r.seen.insert f () }
      · exact Nat.le_refl _

/-- With fuel for every id that can still come, the worklist empties. -/
theorem drain_worklist (fuel : Nat) (r : Resolution) (h : r.pending ≤ fuel) :
    (drain order now fuel r).worklist = [] := by
  induction fuel generalizing r with
  | zero =>
    have hlength : r.worklist.length = 0 := by
      simp only [pending] at h
      omega
    exact List.length_eq_zero_iff.mp hlength
  | succ fuel ih =>
    rw [drain]
    split
    · rename_i hworklist
      exact hworklist
    · rename_i f rest hworklist
      apply ih
      have hle : (resolveFinished order now f { r with worklist := rest }).pending ≤
          ({ r with worklist := rest } : Resolution).pending := resolveFinished_pending f _
      simp only [pending, hworklist, List.length_cons] at h hle ⊢
      omega

/-- The fuel of `resolveDependents` is enough: the loop of the source ends with an empty worklist. -/
theorem resolveDependents_worklist (b : Broker) (order : ResolveOrder) (taskID : String) (now : Time) :
    (drain order now (b.tasks.keys.length + 1) { store := b, worklist := [taskID] }).worklist = [] := by
  apply drain_worklist
  have hcard : b.edgeRows.card ≤ b.tasks.keys.length :=
    (Finset.card_le_card (Finset.filter_subset _ _)).trans (List.toFinset_card_le _)
  simp only [pending, List.length_singleton]
  omega

end Resolution

end Termination

end Conveyor
