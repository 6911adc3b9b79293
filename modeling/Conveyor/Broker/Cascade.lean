import Conveyor.Broker.Index
import Conveyor.Lib.Cascade

/-!
# Dependency resolution as a cascade

The rows of the store and the records of the reverse index form a waiting net. Handling one recorded
waiter applies the end of its dependency to one row of the net, and a call of `resolveDependents` is one
run of the worklist over it. What it leaves behind is therefore the same for every iteration order.
-/

namespace Conveyor

open Lib

/-- What dependency resolution reads and writes of a task, its edges apart. -/
@[ext]
structure TaskView where
  queue : String
  group : String
  processAt : Time
  state : TaskState
  lastError : String
  completedAt : Time

/-- The view of a stored row. -/
def TaskRow.view (row : TaskRow) : TaskView :=
  { queue := row.envelope.queue, group := row.group, processAt := row.processAt, state := row.state
    lastError := row.lastError, completedAt := row.completedAt }

/-- The moves of a resolution at one clock reading. -/
def taskLifecycle (now : Time) : Lifecycle TaskView where
  blocked view := view.state == .blocked
  terminal view := terminal view.state
  failed view := failedDependency view.state
  cancel view := { view with state := .canceled, completedAt := now, lastError := cascadeCanceledMessage }
  promote view :=
    { view with
      state :=
        if view.group ≠ "" then .aggregating
        else if view.processAt > now then .scheduled
        else .pending }
  terminal_of_failed _ h := Resolution.terminal_of_failedDependency h
  open_of_blocked view h := by
    rw [beq_iff_eq.mp h]
    rfl
  open_promote view := by
    dsimp only
    split_ifs <;> rfl

/-- What a policy does with an edge whose dependency failed. -/
def DependencyFailurePolicy.onFailure : DependencyFailurePolicy → OnFailure
  | .block => .keep
  | .cascadeCancel => .cancel
  | _ => .release

/-- The rows of the store, and the edges the reverse index records. -/
def Broker.net (b : Broker) : Net String TaskView where
  row t := (b.tasks.lookup t).map TaskRow.view
  edge t d :=
    if t ∈ b.waiters d then
      ((b.tasks.lookup t).bind fun row => row.deps.lookup d).map DependencyFailurePolicy.onFailure
    else none

variable {row : TaskRow}

section View

variable {b : Broker} {t d : String}

/-- A recorded edge of a stored row. -/
theorem Broker.net_edge (hrow : b.tasks.lookup t = some row) (hwaits : t ∈ b.waiters d) :
    b.net.edge t d = (row.deps.lookup d).map DependencyFailurePolicy.onFailure := by
  simp [net, hrow, hwaits]

/-- Only a stored task has an edge. -/
theorem Broker.net_row_of_edge (h : b.net.edge t d ≠ none) : ∃ view, b.net.row t = some view := by
  cases hrow : b.tasks.lookup t with
  | none => simp [Broker.net, hrow] at h
  | some row => exact ⟨row.view, by simp [Broker.net, hrow]⟩

theorem Broker.net_edge_of_notMem (hwaits : t ∉ b.waiters d) : b.net.edge t d = none := by
  simp [net, hwaits]

/-- The records are the edges of the net. -/
theorem Broker.Linked.mem_waiters (h : b.Linked) : t ∈ b.waiters d ↔ b.net.edge t d ≠ none := by
  refine ⟨fun hwaits => ?_, fun hedge => by_contra fun hwaits => hedge (Broker.net_edge_of_notMem hwaits)⟩
  obtain ⟨row, hrow, hd⟩ := h.listed d t hwaits
  obtain ⟨policy, hpolicy⟩ := GoMap.lookup_of_mem hd
  rw [Broker.net_edge hrow hwaits, hpolicy]
  nofun

/-- The edges of a blocked row are all recorded. -/
theorem Broker.net_edge_eq_none (hlinked : b.Linked) (hrow : b.tasks.lookup t = some row)
    (hblocked : row.state = .blocked) : b.net.edge t d = none ↔ d ∉ row.deps := by
  by_cases hd : d ∈ row.deps
  · obtain ⟨policy, hpolicy⟩ := GoMap.lookup_of_mem hd
    rw [net_edge hrow (hlinked.recorded t row hrow hblocked d hd), hpolicy]
    simp [hd]
  · have hwaits : t ∉ b.waiters d := by
      intro hwaits
      obtain ⟨row', hrow', hd'⟩ := hlinked.listed d t hwaits
      cases hrow.symm.trans hrow'
      exact hd hd'
    simp [net_edge_of_notMem hwaits, hd]

/-- Two stores with the same row and records of a task have the same view of it. -/
theorem Broker.net_congr {b' : Broker} (hrow : b'.tasks.lookup t = b.tasks.lookup t)
    (hwaits : ∀ d, t ∈ b'.waiters d ↔ t ∈ b.waiters d) : b'.net.row t = b.net.row t ∧ b'.net.edge t = b.net.edge t := by
  refine ⟨by simp [net, hrow], funext fun d => ?_⟩
  simp [net, hrow, hwaits d]

end View

namespace Resolution

variable {order : ResolveOrder} {now : Time} {f : String} {failed : Bool} {r : Resolution} {d : String}

/-- Handling a recorded waiter of a finished task keeps edges and records together. -/
theorem resolveEdge_linked (h : r.store.Linked) : (resolveEdge order now f failed r d).store.Linked := by
  have houtcome := resolveEdge_outcome order now f failed r d
  generalize resolveEdge order now f failed r d = r' at houtcome ⊢
  cases houtcome with
  | stale hstale => exact h.unindex fun row hrow => .inl (hstale row hrow)
  | blocked => exact h
  | @cascaded row hrow hfailed hedge => exact h.cascade now hrow (MapOrder.mem_visit _ _)
  | @satisfied row policy hrow hedge hpolicy queues =>
    have hdrained := h.satisfy (f := f) hrow
    have hrow' : ((r.store.setRow d (row.satisfied f)).removeDependent f d).tasks.lookup d =
        some (row.satisfied f) := by simp
    rw [Broker.promoteIfReady]
    split
    · exact hdrained
    · rename_i hready
      have hstate : (row.satisfied f).state = .blocked := by
        by_contra hstate
        exact hready (.inl hstate)
      have hdeps : (row.satisfied f).deps.keys = [] := by
        by_contra hdeps
        exact hready (.inr hdeps)
      have hchange : RowChange now d (.resolveDependents "") (row.satisfied f)
        ((row.satisfied f).promoted now) := .promoted rfl hstate hdeps
      exact hdrained.change hrow' hchange

/-- A dependent without edges left is ready exactly when no other edge of it is recorded. -/
theorem satisfied_keys_nil (hlinked : r.store.Linked)
    (hrow : r.store.tasks.lookup d = some row) (hblocked : row.state = .blocked) :
    (row.satisfied f).deps.keys = [] ↔ ∀ x, x ≠ f → r.store.net.edge d x = none := by
  simp only [Broker.net_edge_eq_none hlinked hrow hblocked]
  constructor
  · intro hnil x hx hmem
    have herased := AList.mem_erase.mpr ⟨hx, hmem⟩
    rw [AList.mem_keys, show (row.deps.erase f).keys = [] from hnil] at herased
    cases herased
  · intro hnone
    apply List.eq_nil_iff_forall_not_mem.mpr
    intro x hx
    obtain ⟨hne, hmem⟩ := AList.mem_erase.mp (AList.mem_keys.mpr hx)
    exact hnone x hne hmem

/-- An edge that neither blocks nor cancels on failure is released. -/
theorem onFailure_release {policy : DependencyFailurePolicy}
    (h : policy ≠ .block ∧ policy ≠ .cascadeCancel) : policy.onFailure = .release := by
  cases policy with
  | block => exact absurd rfl h.1
  | cascadeCancel => exact absurd rfl h.2
  | _ => rfl

/-- A dependent released from an edge keeps the others. -/
theorem satisfied_edge (now : Time) (f : String) (hrow : r.store.tasks.lookup d = some row) :
    let store := (((r.store.setRow d (row.satisfied f)).removeDependent f d).promoteIfReady d
      (row.satisfied f) now).1
    store.net.edge d f = none ∧ ∀ x, x ≠ f → store.net.edge d x = r.store.net.edge d x := by
  intro store
  have hwaits : ∀ x, d ∈ store.waiters x ↔ x ≠ f ∧ d ∈ r.store.waiters x := by
    intro x
    rw [Broker.waiters_congr (Broker.promoteIfReady_dependents _ _ _ _),
      Broker.mem_waiters_removeDependent,
      Broker.waiters_congr (Broker.setRow_dependents r.store d (row.satisfied f))]
    simp
  obtain ⟨row', hrow', hdeps⟩ : ∃ row', store.tasks.lookup d = some row' ∧
      row'.deps = row.deps.erase f := by
    simp only [store, Broker.promoteIfReady]
    split
    · exact ⟨row.satisfied f, by simp, rfl⟩
    · exact ⟨(row.satisfied f).promoted now, by simp, rfl⟩
  constructor
  · exact Broker.net_edge_of_notMem fun hmem => ((hwaits f).mp hmem).1 rfl
  · intro x hx
    by_cases hmem : d ∈ r.store.waiters x
    · rw [Broker.net_edge hrow' ((hwaits x).mpr ⟨hx, hmem⟩), Broker.net_edge hrow hmem, hdeps, AList.lookup_erase_ne hx]
    · rw [Broker.net_edge_of_notMem hmem, Broker.net_edge_of_notMem fun hmem' => hmem ((hwaits x).mp hmem').2]

/-- A dependent released from an edge is ready when the net says that the end promotes it. -/
theorem promotes_iff (hlinked : r.store.Linked) (hrow : r.store.tasks.lookup d = some row)
    (hreleases : r.store.net.Releases failed f d) :
    r.store.net.Promotes (taskLifecycle now) failed f d ↔ row.state = .blocked ∧ (row.satisfied f).deps.keys = [] := by
  have hview : (∃ v ∈ r.store.net.row d, (taskLifecycle now).blocked v = true) ↔
      row.state = .blocked := by
    simp [Broker.net, hrow, taskLifecycle, TaskRow.view]
  rw [Net.Promotes, hview]
  constructor
  · rintro ⟨-, hnone, hblocked⟩
    exact ⟨hblocked, (satisfied_keys_nil hlinked hrow hblocked).mpr hnone⟩
  · rintro ⟨hblocked, hnil⟩
    exact ⟨hreleases, (satisfied_keys_nil hlinked hrow hblocked).mp hnil, hblocked⟩

/-- Handling a recorded waiter applies the end of the finished task to its row. -/
theorem resolveEdge_net (order : ResolveOrder) (now : Time) (failed : Bool) (hlinked : r.store.Linked)
    (hwaits : d ∈ r.store.waiters f) :
    (resolveEdge order now f failed r d).store.net = r.store.net.resolveOn (taskLifecycle now) {d} failed f := by
  obtain ⟨row, hrow, hf⟩ := hlinked.listed f d hwaits
  obtain ⟨policy, hpolicy⟩ := GoMap.lookup_of_mem hf
  have hedge : r.store.net.edge d f = some policy.onFailure := by
    rw [Broker.net_edge hrow hwaits, hpolicy, Option.map_some]
  have hself : ((resolveEdge order now f failed r d).store.net.row d,
      (resolveEdge order now f failed r d).store.net.edge d) =
        Net.applied (taskLifecycle now) failed f (r.store.net.row d) (r.store.net.edge d) := by
    have houtcome := resolveEdge_outcome order now f failed r d
    generalize resolveEdge order now f failed r d = r' at houtcome ⊢
    cases houtcome with
    | stale hstale =>
      rw [hstale row hrow] at hpolicy
      cases hpolicy
    | @blocked row₁ hfailed hrow₁ hblock =>
      cases hrow.symm.trans hrow₁
      cases hpolicy.symm.trans hblock
      symm
      apply Net.applied_of_neither
      · rintro ⟨-, hcancel⟩
        rw [hedge] at hcancel
        cases hcancel
      · rintro ⟨other, hother, hrelease⟩
        rw [hedge, hrelease hfailed] at hother
        cases hother
    | @cascaded row₁ hrow₁ hfailed hcascade =>
      cases hrow.symm.trans hrow₁
      cases hpolicy.symm.trans hcascade
      rw [Net.applied_of_cancels ⟨hfailed, hedge⟩]
      refine Prod.ext ?_ (funext fun x => Broker.net_edge_of_notMem fun hmem => ?_)
      · simp [Broker.net, hrow, TaskRow.view, TaskRow.cascaded, taskLifecycle]
      · rw [Broker.waiters_congr (Broker.transition_dependents _ _ _ _ _),
          mem_waiters_removeDependents_self, MapOrder.mem_visit] at hmem
        obtain ⟨row₂, hrow₂, hx⟩ := hlinked.listed x d hmem.2
        cases hrow.symm.trans hrow₂
        exact hmem.1 hx
    | @satisfied row₁ policy₁ hrow₁ hedge₁ hpolicy₁ queues hqueues =>
      cases hrow.symm.trans hrow₁
      cases hpolicy.symm.trans hedge₁
      have hreleases : r.store.net.Releases failed f d :=
        ⟨policy.onFailure, hedge, fun hfailed => onFailure_release (hpolicy₁ hfailed)⟩
      obtain ⟨hgone, hkept⟩ := satisfied_edge now f hrow
      rw [Net.applied_of_releases hreleases]
      refine Prod.ext ?_ (funext fun x => ?_)
      · dsimp only
        simp only [Broker.promoteIfReady]
        split
        · rename_i hstays
          rw [if_neg]
          · simp [Broker.net, hrow, TaskRow.view, TaskRow.satisfied]
          · rw [promotes_iff hlinked hrow hreleases]
            rintro ⟨hblocked, hnil⟩
            exact hstays.elim (fun h => h hblocked) fun h => h hnil
        · rename_i hready
          rw [not_or, not_not, not_not] at hready
          rw [if_pos ((promotes_iff hlinked hrow hreleases).mpr hready)]
          simp [Broker.net, hrow, TaskRow.view, TaskRow.satisfied, TaskRow.promoted, taskLifecycle]
      · dsimp only
        by_cases hx : x = f
        · rw [if_pos hx, hx]
          exact hgone
        · rw [if_neg hx]
          exact hkept x hx
  have hothers : ∀ t, t ≠ d → (resolveEdge order now f failed r d).store.net.row t = r.store.net.row t ∧
      (resolveEdge order now f failed r d).store.net.edge t = r.store.net.edge t := fun t ht =>
    Broker.net_congr (resolveEdge_lookup_ne r ht) (resolveEdge_waiters r ht)
  ext1
  · funext t
    rcases eq_or_ne t d with rfl | ht
    · simp [Net.resolveOn, ← hself]
    · simp [Net.resolveOn, ht, (hothers t ht).1]
  · funext t
    rcases eq_or_ne t d with rfl | ht
    · simp [Net.resolveOn, ← hself]
    · simp [Net.resolveOn, ht, (hothers t ht).2]

/-- What handling a recorded waiter adds to the worklist and to the queues. -/
theorem resolveEdge_reports (order : ResolveOrder) (now : Time) (failed : Bool) (hlinked : r.store.Linked)
    (hwaits : d ∈ r.store.waiters f) :
    (∀ x, x ∈ (resolveEdge order now f failed r d).worklist ↔
      x ∈ r.worklist ∨ (x = d ∧ r.store.net.Cancels failed f d)) ∧
    ∀ queue, queue ∈ (resolveEdge order now f failed r d).queues ↔ queue ∈ r.queues ∨
      (r.store.net.Promotes (taskLifecycle now) failed f d ∧ ∃ view ∈ r.store.net.row d, view.queue = queue) := by
  obtain ⟨row, hrow, hf⟩ := hlinked.listed f d hwaits
  obtain ⟨policy, hpolicy⟩ := GoMap.lookup_of_mem hf
  have hedge : r.store.net.edge d f = some policy.onFailure := by
    rw [Broker.net_edge hrow hwaits, hpolicy, Option.map_some]
  have houtcome := resolveEdge_outcome order now f failed r d
  generalize resolveEdge order now f failed r d = r' at houtcome ⊢
  cases houtcome with
  | stale hstale =>
    rw [hstale row hrow] at hpolicy
    cases hpolicy
  | @blocked row₁ hfailed hrow₁ hblock =>
    cases hrow.symm.trans hrow₁
    cases hpolicy.symm.trans hblock
    simp [Net.Cancels, Net.Promotes, Net.Releases, hedge, hfailed, DependencyFailurePolicy.onFailure]
  | @cascaded row₁ hrow₁ hfailed hcascade =>
    cases hrow.symm.trans hrow₁
    cases hpolicy.symm.trans hcascade
    simp [Net.Cancels, Net.Promotes, Net.Releases, hedge, hfailed, DependencyFailurePolicy.onFailure]
  | @satisfied row₁ policy₁ hrow₁ hedge₁ hpolicy₁ queues hqueues =>
    cases hrow.symm.trans hrow₁
    cases hpolicy.symm.trans hedge₁
    have hrelease : failed = true → policy.onFailure = .release := fun hfailed => onFailure_release (hpolicy₁ hfailed)
    constructor
    · intro x
      refine ⟨.inl, fun h => h.resolve_right ?_⟩
      rintro ⟨-, hfailed, hcancel⟩
      rw [hedge, hrelease hfailed] at hcancel
      cases hcancel
    · intro queue
      rw [hqueues, promotes_iff hlinked hrow ⟨policy.onFailure, hedge, hrelease⟩]
      simp [Broker.net, hrow, TaskRow.view, and_assoc]

/-- The end of `f` was applied to the rows in `T`. -/
structure AppliedTo (now : Time) (f : String) (failed : Bool) (T : Set String) (r r' : Resolution) :
    Prop where
  linked : r'.store.Linked
  net : r'.store.net = r.store.net.resolveOn (taskLifecycle now) T failed f
  worklist : ∀ x, x ∈ r'.worklist ↔ x ∈ r.worklist ∨ (x ∈ T ∧ r.store.net.Cancels failed f x)
  queues : ∀ queue, queue ∈ r'.queues ↔ queue ∈ r.queues ∨
    ∃ t ∈ T, r.store.net.Promotes (taskLifecycle now) failed f t ∧ ∃ view ∈ r.store.net.row t, view.queue = queue

/-- The end can be applied in parts. -/
theorem AppliedTo.trans {T T' : Set String} {r₁ r₂ : Resolution} (h : AppliedTo now f failed T r r₁)
    (h' : AppliedTo now f failed T' r₁ r₂) (hdisjoint : ∀ t ∈ T', t ∉ T) :
    AppliedTo now f failed (T ∪ T') r r₂ where
  linked := h'.linked
  net := by rw [h'.net, h.net, Net.resolveOn_union hdisjoint]
  worklist x := by
    have hsame : x ∈ T' → (r₁.store.net.Cancels failed f x ↔ r.store.net.Cancels failed f x) := by
      intro hx
      rw [h.net]
      exact (Net.resolveOn_of_notMem (hdisjoint x hx)).2.1
    rw [h'.worklist, h.worklist, or_assoc, and_congr_right hsame, ← or_and_right]
    rfl
  queues queue := by
    have hsame : ∀ t ∈ T', r₁.store.net.row t = r.store.net.row t ∧
        (r₁.store.net.Promotes (taskLifecycle now) failed f t ↔
          r.store.net.Promotes (taskLifecycle now) failed f t) := by
      intro t ht
      rw [h.net]
      exact ⟨(Net.resolveOn_of_notMem (hdisjoint t ht)).1, (Net.resolveOn_of_notMem (hdisjoint t ht)).2.2⟩
    rw [h'.queues, h.queues, or_assoc]
    refine or_congr_right ⟨?_, ?_⟩
    · rintro (⟨t, ht, hpromotes, hview⟩ | ⟨t, ht, hpromotes, hview⟩)
      · exact ⟨t, .inl ht, hpromotes, hview⟩
      · exact ⟨t, .inr ht, (hsame t ht).2.mp hpromotes, (hsame t ht).1 ▸ hview⟩
    · rintro ⟨t, ht | ht, hpromotes, hview⟩
      · exact .inl ⟨t, ht, hpromotes, hview⟩
      · exact .inr ⟨t, ht, (hsame t ht).2.mpr hpromotes, (hsame t ht).1 ▸ hview⟩

/-- Handling recorded waiters one after the other applies the end of the finished task to their rows. -/
theorem foldl_resolveEdge_appliedTo (order : ResolveOrder) (now : Time) (failed : Bool) (ds : List String)
    (r : Resolution) (hlinked : r.store.Linked) (hnodup : ds.Nodup) (hwaits : ∀ d ∈ ds, d ∈ r.store.waiters f) :
    AppliedTo now f failed {t | t ∈ ds} r (ds.foldl (resolveEdge order now f failed) r) := by
  induction ds generalizing r with
  | nil =>
    have hempty : {t : String | t ∈ ([] : List String)} = ∅ := by
      ext
      simp
    rw [hempty, List.foldl_nil]
    exact ⟨hlinked, Net.resolveOn_empty.symm, fun x => by simp, fun queue => by simp⟩
  | cons d rest ih =>
    obtain ⟨hd, hnodup⟩ := List.nodup_cons.mp hnodup
    have hne : ∀ t ∈ rest, t ≠ d := fun t ht heq => hd (heq ▸ ht)
    have hmem := hwaits d (.head _)
    obtain ⟨hworklist, hqueues⟩ := resolveEdge_reports order now failed hlinked hmem
    have hfirst : AppliedTo now f failed {d} r (resolveEdge order now f failed r d) :=
      ⟨resolveEdge_linked hlinked, resolveEdge_net order now failed hlinked hmem,
        fun x => (hworklist x).trans (or_congr_right (and_congr_right fun h => by rw [h])),
        fun queue => by simp [hqueues]⟩
    have hrest := ih (resolveEdge order now f failed r d) hfirst.linked hnodup fun t ht =>
      (resolveEdge_waiters r (hne t ht) f).mpr (hwaits t (.tail d ht))
    have hset : {t | t ∈ d :: rest} = {d} ∪ {t | t ∈ rest} := by
      ext t
      simp
    rw [hset]
    exact hfirst.trans hrest hne

/-- One id was taken from the worklist and visited. -/
structure Visited (now : Time) (f : String) (r r' : Resolution) : Prop where
  linked : r'.store.Linked
  net : r'.store.net = r.store.net.visit (taskLifecycle now) f
  seen : r'.seen = r.seen.insert f ()
  worklist : ∀ x, x ∈ r'.worklist ↔
    x ∈ r.worklist ∨ r.store.net.Cancels (r.store.net.failedAt (taskLifecycle now) f) f x
  queues : ∀ queue, queue ∈ r'.queues ↔ queue ∈ r.queues ∨
    ∃ t, r.store.net.Frees (taskLifecycle now) f t ∧ ∃ view ∈ r.store.net.row t, view.queue = queue

variable {f : String} {r : Resolution}

/-- Visiting a finished task applies its end to the net. -/
theorem resolveFinished_visited (order : ResolveOrder) (now : Time) (hlinked : r.store.Linked) (hseen : f ∉ r.seen) :
    Visited now f r (resolveFinished order now f r) := by
  have hended : r.store.net.endedAt (taskLifecycle now) f =
      (r.store.tasks.lookup f).any fun row => terminal row.state := Option.any_map ..
  have hfailed : r.store.net.failedAt (taskLifecycle now) f =
      (r.store.tasks.lookup f).any fun row => failedDependency row.state := Option.any_map ..
  by_cases hterminal : r.store.net.endedAt (taskLifecycle now) f = true
  · obtain ⟨finished, hrow, hstate⟩ := (Option.any_eq_true _ _).mp (hended.symm.trans hterminal)
    rw [hrow, Option.any_some] at hfailed
    rw [resolveFinished, if_neg hseen]
    simp only [show r.store.tasks.lookup f = some finished from hrow, hstate, if_true]
    generalize hds : (order.waiters f).visit (r.store.waiters f) = ds
    have hmem : ∀ t, t ∈ ds ↔ t ∈ r.store.waiters f := hds ▸ MapOrder.mem_visit _ _
    have happlied := foldl_resolveEdge_appliedTo order now (failedDependency finished.state) ds
      { r with seen := r.seen.insert f () } hlinked (hds ▸ MapOrder.nodup_visit _ _)
      fun t ht => (hmem t).mp ht
    -- only recorded waiters have an edge on the task
    have hedge : ∀ t, r.store.net.edge t f ≠ none → t ∈ ds := fun t ht =>
      (hmem t).mpr (by_contra fun hwaits => ht (Broker.net_edge_of_notMem hwaits))
    refine ⟨happlied.linked, ?_, foldl_resolveEdge_seen ds _, fun x => ?_, fun queue => ?_⟩
    · rw [Net.visit, if_pos hterminal, hfailed]
      refine happlied.net.trans (Net.resolveOn_eq_resolve (fun t ht => ?_) fun t ht => ?_)
      · exact hedge t (by rw [ht.2]; rintro ⟨⟩)
      · obtain ⟨policy, hpolicy, -⟩ := ht
        exact hedge t (by rw [hpolicy]; rintro ⟨⟩)
    · rw [hfailed]
      refine (happlied.worklist x).trans (or_congr_right (and_iff_right_of_imp fun hcancels => ?_))
      exact hedge x (by rw [hcancels.2]; rintro ⟨⟩)
    · simp only [Net.Frees, hterminal, true_and, hfailed]
      refine (happlied.queues queue).trans (or_congr_right (exists_congr fun t => and_iff_right_of_imp ?_))
      rintro ⟨⟨⟨policy, hpolicy, -⟩, -⟩, -⟩
      exact hedge t (by rw [hpolicy]; rintro ⟨⟩)
  · -- an id that is not stored as finished is marked and left alone
    have hfalse : r.store.net.failedAt (taskLifecycle now) f = false :=
      Bool.eq_false_iff.mpr fun h => hterminal (Net.endedAt_of_failedAt h)
    have hnext : resolveFinished order now f r = { r with seen := r.seen.insert f () } := by
      rw [resolveFinished, if_neg hseen]
      dsimp only
      split
      · rfl
      · rename_i row hrow
        rw [hended, hrow, Option.any_some] at hterminal
        exact if_neg hterminal
    rw [hnext]
    exact ⟨hlinked, (if_neg hterminal).symm, rfl, fun x => by simp [Net.Cancels, hfalse],
      fun queue => by simp [Net.Frees, hterminal]⟩

/-- The ids visited so far. -/
def seenSet (r : Resolution) : Set String := {x | x ∈ r.seen}

/-- Working off the worklist ends in the last stage of the cascade, with the queues of the promoted tasks. -/
theorem drain_final {s : Net String TaskView} {kind : String → Bool} {E W X : Set String}
    (hsources : Net.Sources (taskLifecycle now) s kind E W) (order : ResolveOrder) (fuel : Nat) (r : Resolution)
    (hlinked : r.store.Linked)
    (hstaged : Net.Staged (taskLifecycle now) s kind E W X r.seenSet r.store.net r.worklist)
    (hqueues : ∀ queue, queue ∈ r.queues ↔ s.Wakes (taskLifecycle now) kind (r.seenSet ∩ E) (·.queue = queue))
    (hdone : (drain order now fuel r).worklist = []) :
    (drain order now fuel r).store.net =
        s.stage (taskLifecycle now) kind {t | s.Reached kind W t} (s.sources kind E W) ∧
      ∀ queue, queue ∈ (drain order now fuel r).queues ↔
        s.Wakes (taskLifecycle now) kind (s.sources kind E W) (·.queue = queue) := by
  have hend : ∀ {r : Resolution} {X : Set String}, r.worklist = [] →
      Net.Staged (taskLifecycle now) s kind E W X r.seenSet r.store.net r.worklist → r.store.net =
        s.stage (taskLifecycle now) kind {t | s.Reached kind W t} (s.sources kind E W) ∧
      r.seenSet ∩ E = s.sources kind E W := fun hnil h => (hnil ▸ h).done
  induction fuel generalizing r X with
  | zero => exact ⟨(hend hdone hstaged).1, (hend hdone hstaged).2 ▸ hqueues⟩
  | succ fuel ih =>
    rw [drain] at hdone ⊢
    cases hworklist : r.worklist with
    | nil =>
      simp only [hworklist] at hdone ⊢
      exact ⟨(hend hworklist hstaged).1, (hend hworklist hstaged).2 ▸ hqueues⟩
    | cons f rest =>
      simp only [hworklist] at hdone ⊢
      rw [hworklist] at hstaged
      by_cases hseen : f ∈ r.seen
      · have hnext : resolveFinished order now f { r with worklist := rest } =
            { r with worklist := rest } := by rw [resolveFinished, if_pos hseen]
        rw [hnext] at hdone ⊢
        exact ih { r with worklist := rest } hlinked (hstaged.skip hseen) hqueues hdone
      · have hvisited := resolveFinished_visited order now (f := f) (r := { r with worklist := rest }) hlinked hseen
        generalize resolveFinished order now f { r with worklist := rest } = next at *
        have hmarked : next.seenSet = insert f r.seenSet := by
          ext x
          simp [seenSet, hvisited.seen]
        have hstage := hstaged.visit hsources hseen hvisited.worklist
        refine ih next hvisited.linked (X := s.canceledBy kind X f) ?_ (fun queue => ?_) hdone
        · rw [hmarked, hvisited.net]
          exact hstage
        · rw [hvisited.queues, hmarked, hstaged.wakes hsources hseen, ← hqueues]

end Resolution

variable {b : Broker}

/-- A call of `resolveDependents` is one cascade from the given task, so its outcome does not depend on the order of
the visits. -/
theorem resolveDependents_final (hlinked : b.Linked) (order : ResolveOrder) (taskID : String) (now : Time) :
    (b.resolveDependents order taskID now).1.net = b.net.cascade (taskLifecycle now) taskID ∧
      ∀ queue, queue ∈ (b.resolveDependents order taskID now).2 ↔ b.net.Wakes (taskLifecycle now)
        (fun _ => b.net.failedAt (taskLifecycle now) taskID) (b.net.endedBy (taskLifecycle now) taskID)
        (·.queue = queue) := by
  have hseen : ({ store := b, worklist := [taskID] } : Resolution).seenSet = ∅ := by
    ext x
    simp [Resolution.seenSet]
  have hstart := Net.Staged.start (taskLifecycle now) b.net (fun _ => b.net.failedAt (taskLifecycle now) taskID)
    {_d | b.net.endedAt (taskLifecycle now) taskID = true} [taskID]
  rw [← hseen] at hstart
  obtain ⟨hnet, hqueues⟩ := Resolution.drain_final
    (.of_seed (fun _ => rfl) (fun _ _ => Broker.net_row_of_edge) taskID) order (b.tasks.keys.length + 1)
    { store := b, worklist := [taskID] } hlinked hstart (fun queue => by simp [hseen, Net.Wakes, Net.Freed])
    (Resolution.resolveDependents_worklist b order taskID now)
  refine ⟨hnet, fun queue => ?_⟩
  rw [Broker.resolveDependents, MapOrder.mem_visit]
  exact hqueues queue

end Conveyor
