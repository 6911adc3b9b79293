import Conveyor.Broker.Cascade

/-!
# Dependency resolution does not depend on iteration order

The net of a store leaves two things open: which edges a row keeps that no record points at, and whether a
row was canceled by this call or already had the fields of one. Both follow from what a resolution can do
with a row. All ends it visits are of one kind: only a failed end puts ids on the worklist, and they have
failed too. So a recorded canceling edge goes in one way only, and the rows are those the net describes.
-/

namespace Conveyor

open Lib

/-- What a resolution that visits ends of one kind makes of a row: it is canceled and waits on nothing, or it
keeps everything but its state and the edges whose records are gone. -/
inductive RowKept (now : Time) (failed : Bool) (b c : Broker) (t : String) (row : TaskRow) : TaskRow → Prop where
  | cascaded (hfailed : failed = true) {d : String} (hwaits : t ∈ b.waiters d)
      (hedge : row.deps.lookup d = some .cascadeCancel) (hnone : ∀ x, t ∉ c.waiters x) :
      RowKept now failed b c t row (row.cascaded now)
  | kept (state : TaskState) (deps : GoMap String DependencyFailurePolicy)
      (hdeps : deps.entries.Sublist row.deps.entries)
      (hkeys : ∀ d, d ∈ deps ↔ d ∈ row.deps ∧ (t ∈ b.waiters d → t ∈ c.waiters d))
      (hcancel : ∀ d, t ∈ b.waiters d → t ∉ c.waiters d → row.deps.lookup d = some .cascadeCancel → failed = false) :
      RowKept now failed b c t row { row with state := state, deps := deps }

/-- A store that a resolution from another one has reached. -/
structure ResolvedTo (now : Time) (failed : Bool) (b c : Broker) : Prop where
  records : ∀ d t, t ∈ c.waiters d → t ∈ b.waiters d
  missing : ∀ t, b.tasks.lookup t = none → c.tasks.lookup t = none
  rows : ∀ t row, b.tasks.lookup t = some row → ∃ row', c.tasks.lookup t = some row' ∧ RowKept now failed b c t row row'

theorem ResolvedTo.refl (now : Time) (failed : Bool) (b : Broker) : ResolvedTo now failed b b where
  records _ _ h := h
  missing _ h := h
  rows t row hrow := ⟨row, hrow, .kept row.state row.deps (List.Sublist.refl _) (fun d => by simp)
    fun d hmem hnot => absurd hmem hnot⟩

variable {t : String}

/-- A row depends on the later store through its own records only. -/
theorem RowKept.congr {now : Time} {failed : Bool} {b c c' : Broker} {row row' : TaskRow}
    (h : RowKept now failed b c t row row') (hwaits : ∀ d, t ∈ c'.waiters d ↔ t ∈ c.waiters d) :
    RowKept now failed b c' t row row' := by
  cases h with
  | cascaded hfailed hmem hedge hnone => exact .cascaded hfailed hmem hedge fun x hx => hnone x ((hwaits x).mp hx)
  | kept state deps hdeps hkeys hcancel =>
    refine .kept state deps hdeps (fun d => ?_) fun d hmem hnot => hcancel d hmem fun hx => hnot ((hwaits d).mpr hx)
    rw [hkeys, hwaits]

namespace Resolution

variable {order : ResolveOrder} {now : Time} {f : String} {failed : Bool} {b : Broker} {r : Resolution} {d : String}

/-- What is left of an edge map reads as before. -/
theorem lookup_of_sublist {deps deps' : GoMap String DependencyFailurePolicy} (h : deps'.entries.Sublist deps.entries)
    {policy : DependencyFailurePolicy} (hedge : deps'.lookup d = some policy) : deps.lookup d = some policy :=
  AList.mem_lookup_iff.mpr (h.subset (AList.mem_lookup_iff.mp hedge))

/-- The records of a dependent whose row was satisfied. -/
theorem mem_waiters_satisfied (row : TaskRow) (x : String) :
    d ∈ (((r.store.setRow d (row.satisfied f)).removeDependent f d).promoteIfReady d
      (row.satisfied f) now).1.waiters x ↔ x ≠ f ∧ d ∈ r.store.waiters x := by
  rw [Broker.waiters_congr (Broker.promoteIfReady_dependents _ _ _ _), Broker.mem_waiters_removeDependent,
    Broker.waiters_congr (Broker.setRow_dependents r.store d (row.satisfied f))]
  simp

/-- Handling one recorded waiter of an end of the given kind changes its row as a resolution does. -/
theorem resolveEdge_rowKept (order : ResolveOrder) (h : ResolvedTo now failed b r.store) (hlinked : r.store.Linked)
    (hwaits : d ∈ r.store.waiters f) {row : TaskRow} (hrow : b.tasks.lookup d = some row) :
    ∃ row', (resolveEdge order now f failed r d).store.tasks.lookup d = some row' ∧
      RowKept now failed b (resolveEdge order now f failed r d).store d row row' := by
  obtain ⟨current, hcurrent, hkept⟩ := h.rows d row hrow
  cases hkept with
  | cascaded hfailed hmem hedge hnone => exact absurd hwaits (hnone f)
  | kept state deps hdeps hkeys hcancel =>
    obtain ⟨row₀, hrow₀, hf⟩ := hlinked.listed f d hwaits
    cases hrow₀.symm.trans hcurrent
    have houtcome := resolveEdge_outcome order now f failed r d
    generalize resolveEdge order now f failed r d = r' at houtcome ⊢
    cases houtcome with
    | stale hstale =>
      obtain ⟨policy, hpolicy⟩ := GoMap.lookup_of_mem hf
      rw [hstale _ hcurrent] at hpolicy
      cases hpolicy
    | blocked => exact ⟨_, hcurrent, .kept state deps hdeps hkeys hcancel⟩
    | @cascaded row₁ hrow₁ hfailed hcascade =>
      cases hcurrent.symm.trans hrow₁
      refine ⟨row.cascaded now, ?_, .cascaded hfailed (h.records f d hwaits) (lookup_of_sublist hdeps hcascade)
        fun x hx => ?_⟩
      · rw [Broker.transition_tasks, AList.lookup_insert]
        rfl
      rw [Broker.waiters_congr (Broker.transition_dependents _ _ _ _ _), mem_waiters_removeDependents_self,
        MapOrder.mem_visit] at hx
      obtain ⟨row₂, hrow₂, hmem⟩ := hlinked.listed x d hx.2
      cases hcurrent.symm.trans hrow₂
      exact hx.1 hmem
    | @satisfied row₁ policy hrow₁ hedge hpolicy queues hqueues =>
      cases hcurrent.symm.trans hrow₁
      obtain ⟨state', hstored⟩ : ∃ state', ((((r.store.setRow d
          ({ row with state := state, deps := deps }.satisfied f)).removeDependent f d).promoteIfReady d
            ({ row with state := state, deps := deps }.satisfied f) now).1).tasks.lookup d =
          some { row with state := state', deps := deps.erase f } := by
        simp only [Broker.promoteIfReady]
        split
        · exact ⟨state, by simp [TaskRow.satisfied]⟩
        · exact ⟨_, by simp only [Broker.transition_tasks, AList.lookup_insert, TaskRow.promoted]; rfl⟩
      refine ⟨_, hstored, .kept state' (deps.erase f) ((List.kerase_sublist f deps.entries).trans hdeps)
        (fun x => ?_) fun x hmem hnot hx => ?_⟩
      · rw [AList.mem_erase, hkeys, mem_waiters_satisfied]
        constructor
        · rintro ⟨hne, hmem, hkept⟩
          exact ⟨hmem, fun hb => ⟨hne, hkept hb⟩⟩
        · rintro ⟨hmem, hkept⟩
          have hne : x ≠ f := by
            rintro rfl
            exact (hkept (h.records x d hwaits)).1 rfl
          exact ⟨hne, hmem, fun hb => (hkept hb).2⟩
      · rw [mem_waiters_satisfied, not_and] at hnot
        rcases eq_or_ne x f with rfl | hxf
        · have hsame := Option.some.inj ((lookup_of_sublist hdeps hedge).symm.trans hx)
          by_contra hfailed
          exact (hpolicy (by simpa using hfailed)).2 hsame
        · exact hcancel x hmem (hnot hxf) hx

/-- Handling one recorded waiter of an end of the given kind is part of a resolution. -/
theorem resolveEdge_resolvedTo (order : ResolveOrder) (h : ResolvedTo now failed b r.store)
    (hlinked : r.store.Linked) (hwaits : d ∈ r.store.waiters f) :
    ResolvedTo now failed b (resolveEdge order now f failed r d).store where
  records x t ht := h.records x t (waiters_of_resolveEdge d ht)
  missing t hmissing := by
    have hstored := h.missing t hmissing
    have hne : t ≠ d := by
      rintro rfl
      obtain ⟨row, hrow, -⟩ := hlinked.listed f t hwaits
      rw [hstored] at hrow
      cases hrow
    rw [resolveEdge_lookup_ne r hne, hstored]
  rows t row hrow := by
    rcases eq_or_ne t d with rfl | hne
    · exact resolveEdge_rowKept order h hlinked hwaits hrow
    · obtain ⟨row', hrow', hkept⟩ := h.rows t row hrow
      exact ⟨row', (resolveEdge_lookup_ne r hne).trans hrow', hkept.congr (resolveEdge_waiters r hne)⟩

/-- If the task is stored as ended, it ended in the given way. -/
def EndsAs (b : Broker) (t : String) (failed : Bool) : Prop :=
  ∀ row, b.tasks.lookup t = some row → terminal row.state = true → failedDependency row.state = failed

/-- Handling one waiter changes the way no task ended. -/
theorem resolveEdge_endsAs (order : ResolveOrder) {g : String} (h : EndsAs r.store g failed) :
    EndsAs (resolveEdge order now f failed r d).store g failed := by
  intro row hrow hterminal
  rcases eq_or_ne g d with rfl | hne
  · have houtcome := resolveEdge_outcome order now f failed r g
    generalize resolveEdge order now f failed r g = r' at houtcome hrow
    cases houtcome with
    | stale => exact h row (by simpa using hrow) hterminal
    | blocked => exact h row hrow hterminal
    | cascaded _ hfailed =>
      simp only [Broker.transition_tasks, AList.lookup_insert, Option.some.injEq] at hrow
      subst hrow
      exact hfailed.symm
    | @satisfied row₀ policy hrow₀ =>
      simp only [Broker.promoteIfReady] at hrow
      split at hrow
      · simp only [Broker.removeDependent_tasks, Broker.setRow_tasks, AList.lookup_insert, Option.some.injEq] at hrow
        subst hrow
        exact h row₀ hrow₀ hterminal
      · simp only [Broker.transition_tasks, AList.lookup_insert, Option.some.injEq] at hrow
        subst hrow
        simp only [TaskRow.promoted] at hterminal
        split_ifs at hterminal <;> cases hterminal
  · exact h row ((resolveEdge_lookup_ne r hne).symm.trans hrow) hterminal

/-- The ids a failed end puts on the worklist have failed. -/
theorem resolveEdge_queued (order : ResolveOrder) (h : ∀ g ∈ r.worklist, EndsAs r.store g failed) :
    ∀ g ∈ (resolveEdge order now f failed r d).worklist,
      EndsAs (resolveEdge order now f failed r d).store g failed := by
  intro g hg
  by_cases hold : g ∈ r.worklist
  · exact resolveEdge_endsAs order (h g hold)
  · have houtcome := resolveEdge_outcome order now f failed r d
    generalize resolveEdge order now f failed r d = r' at houtcome hg ⊢
    cases houtcome with
    | cascaded _ hfailed =>
      obtain rfl : g = d := by
        rcases List.mem_append.mp hg with hg | hg
        · exact absurd hg hold
        · exact List.mem_singleton.mp hg
      intro row hrow _
      simp only [Broker.transition_tasks, AList.lookup_insert, Option.some.injEq] at hrow
      subst hrow
      exact hfailed.symm
    | _ => exact absurd hg hold

/-- A resolution under way from `b` that visits ends of one kind. -/
structure UnderWay (now : Time) (failed : Bool) (b : Broker) (r : Resolution) : Prop where
  linked : r.store.Linked
  resolved : ResolvedTo now failed b r.store
  queued : ∀ g ∈ r.worklist, EndsAs r.store g failed

/-- Handling the recorded waiters of an end of the given kind. -/
theorem UnderWay.edges (order : ResolveOrder) (ds : List String) (h : UnderWay now failed b r) (hnodup : ds.Nodup)
    (hwaits : ∀ d ∈ ds, d ∈ r.store.waiters f) :
    UnderWay now failed b (ds.foldl (resolveEdge order now f failed) r) := by
  induction ds generalizing r with
  | nil => exact h
  | cons d rest ih =>
    obtain ⟨hd, hnodup⟩ := List.nodup_cons.mp hnodup
    have hmem := hwaits d (.head _)
    refine ih ⟨resolveEdge_linked h.linked, resolveEdge_resolvedTo order h.resolved h.linked hmem,
      resolveEdge_queued order h.queued⟩ hnodup fun t ht => ?_
    have hne : t ≠ d := fun heq => hd (heq ▸ ht)
    exact (resolveEdge_waiters r hne f).mpr (hwaits t (.tail d ht))

/-- Visiting an id of the given kind. -/
theorem UnderWay.finish (order : ResolveOrder) (h : UnderWay now failed b r) (hends : EndsAs r.store f failed) :
    UnderWay now failed b (resolveFinished order now f r) := by
  rw [resolveFinished]
  split
  · exact h
  · dsimp only
    cases hrow : r.store.tasks.lookup f with
    | none => exact ⟨h.linked, h.resolved, h.queued⟩
    | some finished =>
      dsimp only
      split_ifs with hterminal
      · rw [hends finished hrow hterminal]
        exact UnderWay.edges (r := { r with seen := r.seen.insert f () }) order _ ⟨h.linked, h.resolved, h.queued⟩
          (MapOrder.nodup_visit _ _) fun d hd => (MapOrder.mem_visit _ _ d).mp hd
      · exact ⟨h.linked, h.resolved, h.queued⟩

/-- Working off the worklist. -/
theorem UnderWay.drain (order : ResolveOrder) (fuel : Nat) (h : UnderWay now failed b r) :
    UnderWay now failed b (Resolution.drain order now fuel r) := by
  induction fuel generalizing r with
  | zero => exact h
  | succ fuel ih =>
    rw [Resolution.drain]
    split
    · exact h
    · rename_i finishedID rest hworklist
      refine ih (UnderWay.finish order ⟨h.linked, h.resolved, fun g hg => ?_⟩ ?_)
      · exact h.queued g (hworklist ▸ .tail _ hg)
      · exact h.queued finishedID (hworklist ▸ (.head _))

end Resolution

/-- Whether a stored task failed. -/
def Broker.failed (b : Broker) (t : String) : Bool := (b.tasks.lookup t).any fun row => failedDependency row.state

/-- A call of `resolveDependents` visits ends of the kind of the given task. -/
theorem resolveDependents_resolvedTo {b : Broker} (hlinked : b.Linked) (order : ResolveOrder) (taskID : String)
    (now : Time) :
    (b.resolveDependents order taskID now).1.Linked ∧
      ResolvedTo now (b.failed taskID) b (b.resolveDependents order taskID now).1 := by
  have hstart : Resolution.UnderWay now (b.failed taskID) b { store := b, worklist := [taskID] } := by
    refine ⟨hlinked, .refl now _ b, fun g hg row hrow _ => ?_⟩
    obtain rfl := List.mem_singleton.mp hg
    simp [Broker.failed, show b.tasks.lookup g = some row from hrow]
  have hend := hstart.drain order (b.tasks.keys.length + 1)
  exact ⟨hend.linked, hend.resolved⟩

section Confluence

variable {b c₁ c₂ : Broker} {now : Time} {failed : Bool}

/-- Two resolutions that leave the same net leave the same row. -/
theorem RowKept.unique {row row₁ row₂ : TaskRow} (h₁ : RowKept now failed b c₁ t row row₁)
    (h₂ : RowKept now failed b c₂ t row row₂) (hwaits : ∀ d, t ∈ c₁.waiters d ↔ t ∈ c₂.waiters d)
    (hstate : row₁.state = row₂.state) : row₁ = row₂ := by
  cases h₁ with
  | cascaded hfailed hmem hedge hnone =>
    cases h₂ with
    | cascaded => rfl
    | kept state deps hdeps hkeys hcancel =>
      have hopen := hcancel _ hmem (fun hx => hnone _ ((hwaits _).mpr hx)) hedge
      rw [hfailed] at hopen
      cases hopen
  | kept state₁ deps₁ hdeps₁ hkeys₁ hcancel₁ =>
    cases h₂ with
    | cascaded hfailed hmem hedge hnone =>
      have hopen := hcancel₁ _ hmem (fun hx => hnone _ ((hwaits _).mp hx)) hedge
      rw [hfailed] at hopen
      cases hopen
    | kept state₂ deps₂ hdeps₂ hkeys₂ hcancel₂ =>
      cases hstate
      have hsame := GoMap.eq_of_sublist hdeps₁ hdeps₂ fun d => by rw [hkeys₁, hkeys₂, hwaits]
      rw [hsame]

/-- Stores that two resolutions reach with the same net have the same rows. -/
theorem ResolvedTo.lookup_eq (h₁ : ResolvedTo now failed b c₁) (h₂ : ResolvedTo now failed b c₂)
    (hwaits : ∀ d t, t ∈ c₁.waiters d ↔ t ∈ c₂.waiters d) (hnet : c₁.net = c₂.net) (t : String) :
    c₁.tasks.lookup t = c₂.tasks.lookup t := by
  cases hrow : b.tasks.lookup t with
  | none => rw [h₁.missing t hrow, h₂.missing t hrow]
  | some row =>
    obtain ⟨row₁, hrow₁, hkept₁⟩ := h₁.rows t row hrow
    obtain ⟨row₂, hrow₂, hkept₂⟩ := h₂.rows t row hrow
    have hview : some row₁.view = some row₂.view := by
      have hrows := congrArg (fun net => net.row t) hnet
      simpa [Broker.net, hrow₁, hrow₂] using hrows
    have hstate := congrArg TaskView.state (Option.some.inj hview)
    rw [hrow₁, hrow₂, hkept₁.unique hkept₂ (fun d => hwaits d t) hstate]

/-- The entries of the reverse index are determined by their members. -/
theorem Broker.Linked.dependents_eq (h₁ : c₁.Linked) (h₂ : c₂.Linked)
    (hwaits : ∀ d t, t ∈ c₁.waiters d ↔ t ∈ c₂.waiters d) (d : String) :
    (c₁.dependents.lookup d).map (fun waiters => {t | t ∈ waiters}) =
      (c₂.dependents.lookup d).map (fun waiters => {t | t ∈ waiters}) := by
  have hsome : ∀ {c : Broker} {waiters : GoSet String}, c.Linked → c.dependents.lookup d = some waiters →
      c.waiters d = waiters ∧ ∃ t, t ∈ waiters := by
    intro c waiters hlinked hentry
    obtain ⟨t, ht⟩ := List.exists_mem_of_ne_nil _ (hlinked.nonempty d waiters hentry)
    exact ⟨by rw [Broker.waiters, hentry]; rfl, t, AList.mem_keys.mpr ht⟩
  have hnone : ∀ {c : Broker} {t : String}, c.dependents.lookup d = none → t ∉ c.waiters d := by
    intro c t hentry
    simp [Broker.waiters, hentry]
  cases hentry₁ : c₁.dependents.lookup d with
  | none =>
    cases hentry₂ : c₂.dependents.lookup d with
    | none => rfl
    | some waiters =>
      obtain ⟨hwaiters, t, ht⟩ := hsome h₂ hentry₂
      exact absurd ((hwaits d t).mpr (hwaiters ▸ ht)) (hnone hentry₁)
  | some waiters₁ =>
    obtain ⟨hwaiters₁, t, ht⟩ := hsome h₁ hentry₁
    cases hentry₂ : c₂.dependents.lookup d with
    | none => exact absurd ((hwaits d t).mp (hwaiters₁ ▸ ht)) (hnone hentry₂)
    | some waiters₂ =>
      obtain ⟨hwaiters₂, -⟩ := hsome h₂ hentry₂
      refine congrArg some (Set.ext fun x => ?_)
      have hmem := hwaits d x
      rwa [hwaiters₁, hwaiters₂] at hmem

end Confluence

/-- In every reachable store, whatever the dependencies, a resolution ends with an empty worklist, and the rows,
the reverse index and the queues it leaves are the same for all iteration orders. -/
theorem resolveDependents_confluent (invocations : List Invocation) (taskID : String) (now : Time)
    (order₁ order₂ : ResolveOrder) :
    let b := Broker.empty.run invocations
    let resolved₁ := b.resolveDependents order₁ taskID now
    let resolved₂ := b.resolveDependents order₂ taskID now
    (Resolution.drain order₁ now (b.tasks.keys.length + 1) { store := b, worklist := [taskID] }).worklist = [] ∧
      (∀ t, resolved₁.1.tasks.lookup t = resolved₂.1.tasks.lookup t) ∧
      (∀ d, (resolved₁.1.dependents.lookup d).map (fun waiters => {t | t ∈ waiters}) =
        (resolved₂.1.dependents.lookup d).map (fun waiters => {t | t ∈ waiters})) ∧
      ∀ queue, queue ∈ resolved₁.2 ↔ queue ∈ resolved₂.2 := by
  intro b resolved₁ resolved₂
  have hlinked : b.Linked := (run_linked invocations).1
  obtain ⟨hnet₁, hqueues₁⟩ := resolveDependents_final hlinked order₁ taskID now
  obtain ⟨hnet₂, hqueues₂⟩ := resolveDependents_final hlinked order₂ taskID now
  have hnet : resolved₁.1.net = resolved₂.1.net := hnet₁.trans hnet₂.symm
  obtain ⟨hlinked₁, hresolved₁⟩ := resolveDependents_resolvedTo hlinked order₁ taskID now
  obtain ⟨hlinked₂, hresolved₂⟩ := resolveDependents_resolvedTo hlinked order₂ taskID now
  have hwaits : ∀ d t, t ∈ resolved₁.1.waiters d ↔ t ∈ resolved₂.1.waiters d := by
    intro d t
    rw [hlinked₁.mem_waiters, hlinked₂.mem_waiters, hnet]
  refine ⟨Resolution.resolveDependents_worklist b order₁ taskID now, hresolved₁.lookup_eq hresolved₂ hwaits hnet,
    hlinked₁.dependents_eq hlinked₂ hwaits, fun queue => ?_⟩
  rw [hqueues₁, hqueues₂]

end Conveyor
