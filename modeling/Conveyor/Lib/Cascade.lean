import Mathlib.Data.Set.Insert
import Mathlib.Data.Option.Basic
import Mathlib.Tactic.Tauto

/-!
# Cascades over a waiting net

A net has rows, and edges by which a row waits on another. When a row ends, each edge on it is kept,
lets its row go, or cancels its row, which then ends too and goes on a worklist. What a run of the worklist
leaves behind does not depend on the order of its visits: a row is hit if a canceling edge of it waits on a
failed source, the sources are the seeds and the rows that were hit, and the rest follows from the sources and
from how each of them counts when it is visited. `Staged` says this of every stage of a run.
-/

namespace Conveyor.Lib

/-- What the failure of the row an edge waits on does to the edge. -/
inductive OnFailure where
  | keep
  | cancel
  | release
  deriving DecidableEq

/-- What the cascade knows of a row: whether it is blocked, has ended, and has failed, and the moves it
makes. A failed row has ended, and a blocked or promoted one has not. -/
structure Lifecycle (R : Type) where
  blocked : R → Bool
  terminal : R → Bool
  failed : R → Bool
  cancel : R → R
  promote : R → R
  terminal_of_failed : ∀ r, failed r = true → terminal r = true
  open_of_blocked : ∀ r, blocked r = true → terminal r = false
  open_promote : ∀ r, terminal (promote r) = false

theorem Lifecycle.failed_eq_false {R : Type} (L : Lifecycle R) {r : R} (h : L.terminal r = false) : L.failed r = false :=
  Bool.eq_false_iff.mpr fun hfailed => Bool.false_ne_true (h.symm.trans (L.terminal_of_failed r hfailed))

/-- Rows, and the edges by which the first row waits on the second. -/
@[ext]
structure Net (I R : Type) where
  row : I → Option R
  edge : I → I → Option OnFailure

namespace Net

open scoped Classical

variable {I R : Type} (L : Lifecycle R)

/-- The end of `f` lets `t` go. -/
def Releases (s : Net I R) (failed : Bool) (f t : I) : Prop :=
  ∃ policy, s.edge t f = some policy ∧ (failed = true → policy = .release)

/-- The end of `f` cancels `t`. -/
def Cancels (s : Net I R) (failed : Bool) (f t : I) : Prop :=
  failed = true ∧ s.edge t f = some .cancel

/-- The end of `f` lets go of the last edge of the blocked row `t`. -/
def Promotes (s : Net I R) (failed : Bool) (f t : I) : Prop :=
  s.Releases failed f t ∧ (∀ d, d ≠ f → s.edge t d = none) ∧ ∃ r ∈ s.row t, L.blocked r = true

/-- What the end of `f` makes of one row and its edges. -/
noncomputable def applied (failed : Bool) (f : I) (row : Option R) (edge : I → Option OnFailure) :
    Option R × (I → Option OnFailure) :=
  if failed = true ∧ edge f = some .cancel then (row.map L.cancel, fun _ => none)
  else if ∃ policy, edge f = some policy ∧ (failed = true → policy = .release) then
    (if (∀ d, d ≠ f → edge d = none) ∧ ∃ r ∈ row, L.blocked r = true then row.map L.promote else row,
      fun d => if d = f then none else edge d)
  else (row, edge)

/-- The net after the end of `f` was applied to the rows in `T`. -/
noncomputable def resolveOn (s : Net I R) (T : Set I) (failed : Bool) (f : I) : Net I R where
  row t := if t ∈ T then (applied L failed f (s.row t) (s.edge t)).1 else s.row t
  edge t := if t ∈ T then (applied L failed f (s.row t) (s.edge t)).2 else s.edge t

/-- The net after the end of `f` was applied to every row. -/
noncomputable def resolve (s : Net I R) (failed : Bool) (f : I) : Net I R := s.resolveOn L Set.univ failed f

/-- Whether the row is there and has failed. -/
def failedAt (s : Net I R) (f : I) : Bool := (s.row f).any L.failed

/-- Whether the row is there and has ended. -/
def endedAt (s : Net I R) (f : I) : Bool := (s.row f).any L.terminal

/-- The net after a visit of `f`, which applies its end if it has ended. -/
noncomputable def visit (s : Net I R) (f : I) : Net I R :=
  if s.endedAt L f = true then s.resolve L (s.failedAt L f) f else s

/-- A visit of `f` promotes `t`. -/
def Frees (s : Net I R) (f t : I) : Prop := s.endedAt L f = true ∧ s.Promotes L (s.failedAt L f) f t

section Parts

variable {L} {s : Net I R} {failed : Bool} {f : I}

variable {t : I}

/-- A row that the end of `f` cancels. -/
theorem applied_of_cancels (h : s.Cancels failed f t) :
    applied L failed f (s.row t) (s.edge t) = ((s.row t).map L.cancel, fun _ => none) := by
  rw [applied]
  exact if_pos h

/-- A row whose edge the end of `f` removes. -/
theorem applied_of_releases (h : s.Releases failed f t) :
    applied L failed f (s.row t) (s.edge t) =
      (if s.Promotes L failed f t then (s.row t).map L.promote else s.row t,
        fun d => if d = f then none else s.edge t d) := by
  have hcancels : ¬(failed = true ∧ s.edge t f = some .cancel) := by
    rintro ⟨hfailed, hedge⟩
    obtain ⟨policy, hpolicy, hrelease⟩ := h
    rw [hedge, hrelease hfailed] at hpolicy
    cases hpolicy
  have hpromotes : s.Promotes L failed f t ↔
      (∀ d, d ≠ f → s.edge t d = none) ∧ ∃ r ∈ s.row t, L.blocked r = true := and_iff_right h
  rw [applied, if_neg hcancels]
  simp only [hpromotes]
  exact if_pos h

/-- A row that the end of `f` neither cancels nor lets go. -/
theorem applied_of_neither (hcancels : ¬ s.Cancels failed f t) (hreleases : ¬ s.Releases failed f t) :
    applied L failed f (s.row t) (s.edge t) = (s.row t, s.edge t) := by
  rw [applied]
  exact (if_neg hcancels).trans (if_neg hreleases)

variable {T : Set I}

/-- The end of a row can be applied to the rows that wait on it in parts. -/
theorem resolveOn_union {T' : Set I} (h : ∀ t ∈ T', t ∉ T) :
    (s.resolveOn L T failed f).resolveOn L T' failed f = s.resolveOn L (T ∪ T') failed f := by
  ext1
  · funext t
    by_cases hT' : t ∈ T'
    · simp [resolveOn, hT', h t hT']
    · simp [resolveOn, hT']
  · funext t
    by_cases hT' : t ∈ T'
    · simp [resolveOn, hT', h t hT']
    · simp [resolveOn, hT']

/-- A row the end was not applied to is canceled and promoted as before. -/
theorem resolveOn_of_notMem (h : t ∉ T) :
    (s.resolveOn L T failed f).row t = s.row t ∧
      ((s.resolveOn L T failed f).Cancels failed f t ↔ s.Cancels failed f t) ∧
      ((s.resolveOn L T failed f).Promotes L failed f t ↔ s.Promotes L failed f t) := by
  simp [resolveOn, Cancels, Promotes, Releases, h]

/-- Applying the end of a row to all that it cancels or releases applies it to every row. -/
theorem resolveOn_eq_resolve (hcancels : ∀ t, s.Cancels failed f t → t ∈ T)
    (hreleases : ∀ t, s.Releases failed f t → t ∈ T) : s.resolveOn L T failed f = s.resolve L failed f := by
  have hnone : ∀ t, t ∉ T → applied L failed f (s.row t) (s.edge t) = (s.row t, s.edge t) :=
    fun t ht => applied_of_neither (fun h => ht (hcancels t h)) fun h => ht (hreleases t h)
  ext1
  · funext t
    by_cases ht : t ∈ T
    · simp [resolve, resolveOn, ht]
    · simp [resolve, resolveOn, ht, hnone t ht]
  · funext t
    by_cases ht : t ∈ T
    · simp [resolve, resolveOn, ht]
    · simp [resolve, resolveOn, ht, hnone t ht]

@[simp] theorem resolveOn_empty : s.resolveOn L ∅ failed f = s := by
  ext1 <;> simp [resolveOn]

end Parts

section Steps

/-- The net with the rows in `T` canceled. -/
noncomputable def cancelOn (s : Net I R) (T : Set I) : Net I R where
  row t := if t ∈ T then (s.row t).map L.cancel else s.row t
  edge t d := if t ∈ T then none else s.edge t d

/-- The net without the edges of the rows in `T` on `f`. -/
noncomputable def dropOn (s : Net I R) (f : I) (T : Set I) : Net I R where
  row := s.row
  edge t d := if d = f ∧ t ∈ T then none else s.edge t d

/-- A blocked row without edges. -/
def Ready (s : Net I R) (t : I) : Prop := (∃ r ∈ s.row t, L.blocked r = true) ∧ ∀ d, s.edge t d = none

/-- The net with the ready rows in `T` promoted. -/
noncomputable def promoteOn (s : Net I R) (T : Set I) : Net I R where
  row t := if t ∈ T ∧ s.Ready L t then (s.row t).map L.promote else s.row t
  edge := s.edge

variable {L} {s : Net I R} {T T' : Set I}

@[simp] theorem cancelOn_empty : s.cancelOn L ∅ = s := by
  ext1 <;> simp [cancelOn]

@[simp] theorem promoteOn_empty : s.promoteOn L ∅ = s := by
  ext1 <;> simp [promoteOn]

/-- Rows can be canceled in parts. -/
theorem cancelOn_union (h : ∀ t ∈ T', t ∉ T) : (s.cancelOn L T).cancelOn L T' = s.cancelOn L (T ∪ T') := by
  ext1 <;> funext t <;> by_cases hT' : t ∈ T' <;> simp [cancelOn, hT', h t]

/-- A row outside `T` is as ready as before. -/
theorem promoteOn_of_notMem {t : I} (h : t ∉ T) :
    (s.promoteOn L T).row t = s.row t ∧ ((s.promoteOn L T).Ready L t ↔ s.Ready L t) := by
  simp [Ready, promoteOn, h]

/-- Rows can be promoted in parts. -/
theorem promoteOn_union (h : ∀ t ∈ T', t ∉ T) : (s.promoteOn L T).promoteOn L T' = s.promoteOn L (T ∪ T') := by
  ext1
  · funext t
    by_cases hT' : t ∈ T'
    · obtain ⟨hrow, hready⟩ := promoteOn_of_notMem (L := L) (s := s) (h t hT')
      change (if t ∈ T' ∧ (s.promoteOn L T).Ready L t then _ else _) = _
      simp only [hready, hrow]
      simp [promoteOn, hT']
    · simp [promoteOn, hT']
  · rfl

/-- The end of `f` can be applied in steps: cancel rows, drop the edges that it lets go, promote what is ready then. -/
theorem resolve_steps {failed : Bool} {f : I} {C S : Set I} (hC : ∀ t, t ∈ C ↔ s.Cancels failed f t)
    (hS : ∀ t, t ∈ S ↔ s.Releases failed f t) :
    ((s.cancelOn L C).dropOn f S).promoteOn L S = s.resolve L failed f ∧
      ∀ t ∈ S, ((s.cancelOn L C).dropOn f S).row t = s.row t ∧
        (((s.cancelOn L C).dropOn f S).Ready L t ↔ s.Promotes L failed f t) := by
  have hdisjoint : ∀ t ∈ S, t ∉ C := by
    intro t ht ht'
    obtain ⟨policy, hpolicy, hrelease⟩ := (hS t).mp ht
    obtain ⟨hfailed, hcancel⟩ := (hC t).mp ht'
    rw [hpolicy, hrelease hfailed] at hcancel
    nomatch hcancel
  have hready : ∀ t ∈ S, ((s.cancelOn L C).dropOn f S).row t = s.row t ∧
      (((s.cancelOn L C).dropOn f S).Ready L t ↔ s.Promotes L failed f t) := by
    intro t ht
    have hrow : ((s.cancelOn L C).dropOn f S).row t = s.row t := if_neg (hdisjoint t ht)
    refine ⟨hrow, ?_⟩
    rw [Ready, Promotes, hrow, and_iff_right ((hS t).mp ht), and_comm]
    simp [dropOn, cancelOn, ht, hdisjoint t ht]
  have hpoint : ∀ t, applied L failed f (s.row t) (s.edge t) =
      ((((s.cancelOn L C).dropOn f S).promoteOn L S).row t, ((s.cancelOn L C).dropOn f S).edge t) := by
    intro t
    by_cases hreleases : t ∈ S
    · obtain ⟨hrow, hiff⟩ := hready t hreleases
      rw [applied_of_releases ((hS t).mp hreleases)]
      refine Prod.ext ?_ (funext fun d => ?_)
      · simp only [promoteOn, hreleases, hiff, hrow, true_and]
      · simp [dropOn, cancelOn, hreleases, hdisjoint t hreleases]
    · by_cases hcancels : t ∈ C
      · rw [applied_of_cancels ((hC t).mp hcancels)]
        simp [promoteOn, dropOn, cancelOn, hreleases, hcancels]
      · rw [applied_of_neither (mt (hC t).mpr hcancels) (mt (hS t).mpr hreleases)]
        simp [promoteOn, dropOn, cancelOn, hreleases, hcancels]
  refine ⟨Net.ext (funext fun t => ?_) (funext fun t => ?_), hready⟩
  · simp [resolve, resolveOn, hpoint t]
  · simp [resolve, resolveOn, hpoint t, promoteOn]

end Steps

variable {worklist : List I}

section Outcome

variable (s : Net I R) (kind : I → Bool) (W : Set I)

/-- The rows a cascade from the seeds in `W` hits: those with a canceling edge on a failed source. `kind`
says which sources count as failed. -/
inductive Reached : I → Prop where
  | first {d t : I} (hd : d ∈ W) (h : s.Cancels (kind d) d t) : Reached t
  | next {d t : I} (hd : Reached d) (h : s.Cancels (kind d) d t) : Reached t

/-- All edges of the blocked row go with the ends of the rows in `P`, and there is one. -/
def Freed (P : Set I) (t : I) : Prop :=
  (∃ r ∈ s.row t, L.blocked r = true) ∧ (∃ d ∈ P, s.Releases (kind d) d t) ∧
    ∀ d, s.edge t d ≠ none → d ∈ P ∧ s.Releases (kind d) d t

/-- The net when the rows in `X` were hit and the ends of the rows in `P` were applied. -/
noncomputable def stage (X P : Set I) : Net I R where
  row t :=
    if t ∈ X then (s.row t).map L.cancel
    else if s.Freed L kind P t then (s.row t).map L.promote
    else s.row t
  edge t d := if t ∈ X ∨ (d ∈ P ∧ s.Releases (kind d) d t) then none else s.edge t d

/-- Some freed row satisfies `Q`. -/
def Wakes (P : Set I) (Q : R → Prop) : Prop := ∃ t, s.Freed L kind P t ∧ ∃ r ∈ s.row t, Q r

/-- The rows hit when the end of `d` is applied. -/
def canceledBy (X : Set I) (d : I) : Set I := X ∪ {t | s.Cancels (kind d) d t}

variable {L s kind W} {X P : Set I} {d t : I}

/-- A row with an edge that was not visited is not freed. -/
theorem not_freed (hd : d ∉ P) (hedge : s.edge t d ≠ none) : ¬ s.Freed L kind P t := fun h => hd (h.2.2 d hedge).1

/-- An edge that was not visited is still there, unless its row is canceled. -/
theorem stage_edge (ht : t ∉ X) (hd : d ∉ P) : (s.stage L kind X P).edge t d = s.edge t d := by
  simp [stage, ht, hd]

/-- An edge that is left is as it was: its row was not hit, and no end let go of it. -/
theorem stage_edge_left (h : (s.stage L kind X P).edge t d ≠ none) :
    t ∉ X ∧ ¬ (d ∈ P ∧ s.Releases (kind d) d t) ∧ (s.stage L kind X P).edge t d = s.edge t d := by
  have hleft : ¬ (t ∈ X ∨ (d ∈ P ∧ s.Releases (kind d) d t)) := fun hgone => h (if_pos hgone)
  exact ⟨fun hX => hleft (.inl hX), fun hreleases => hleft (.inr hreleases), if_neg hleft⟩

/-- A row with an edge that was not visited is as it was, unless it is canceled. -/
theorem stage_row (ht : t ∉ X) (hd : d ∉ P) (hedge : s.edge t d ≠ none) : (s.stage L kind X P).row t = s.row t := by
  simp [stage, ht, not_freed hd hedge]

/-- Of a row that loses its edge on `d`, the other edges decide whether it is freed. -/
theorem freed_insert (hreleases : s.Releases (kind d) d t) :
    s.Freed L kind (insert d P) t ↔ (∃ r ∈ s.row t, L.blocked r = true) ∧ ∀ x, x ≠ d → s.edge t x = none ∨
      (x ∈ P ∧ s.Releases (kind x) x t) := by
  constructor
  · rintro ⟨hblocked, -, hall⟩
    refine ⟨hblocked, fun x hx => ?_⟩
    by_cases hedge : s.edge t x = none
    · exact .inl hedge
    · obtain ⟨hmem, hx'⟩ := hall x hedge
      exact .inr ⟨hmem.resolve_left hx, hx'⟩
  · rintro ⟨hblocked, hall⟩
    refine ⟨hblocked, ⟨d, Set.mem_insert d P, hreleases⟩, fun x hedge => ?_⟩
    rcases eq_or_ne x d with rfl | hx
    · exact ⟨Set.mem_insert x P, hreleases⟩
    · obtain ⟨hmem, hx'⟩ := (hall x hx).resolve_left hedge
      exact ⟨Set.mem_insert_of_mem d hmem, hx'⟩

/-- A row that the end of `d` does not let go is freed by the others or not at all. -/
theorem freed_insert_of_not (hreleases : ¬ s.Releases (kind d) d t) :
    s.Freed L kind (insert d P) t ↔ s.Freed L kind P t := by
  have hother : ∀ x, s.Releases (kind x) x t → (x ∈ insert d P ↔ x ∈ P) := by
    intro x hx
    refine ⟨fun hmem => hmem.resolve_left ?_, Set.mem_insert_of_mem d⟩
    rintro rfl
    exact hreleases hx
  constructor
  · rintro ⟨hblocked, ⟨x, hmem, hx⟩, hall⟩
    refine ⟨hblocked, ⟨x, (hother x hx).mp hmem, hx⟩, fun y hedge => ?_⟩
    obtain ⟨hmem', hy⟩ := hall y hedge
    exact ⟨(hother y hy).mp hmem', hy⟩
  · rintro ⟨hblocked, ⟨x, hmem, hx⟩, hall⟩
    refine ⟨hblocked, ⟨x, Set.mem_insert_of_mem d hmem, hx⟩, fun y hedge => ?_⟩
    exact ⟨Set.mem_insert_of_mem d (hall y hedge).1, (hall y hedge).2⟩

/-- The other edges of a row that is not canceled are all gone when each was visited and let go. -/
theorem stage_edges_none (ht : t ∉ X) :
    (∀ x, x ≠ d → (s.stage L kind X P).edge t x = none) ↔
      ∀ x, x ≠ d → s.edge t x = none ∨ (x ∈ P ∧ s.Releases (kind x) x t) := by
  refine forall_congr' fun x => imp_congr_right fun _ => ?_
  simp only [stage, ht, false_or]
  split
  · rename_i hgone
    exact ⟨fun _ => .inr hgone, fun _ => rfl⟩
  · rename_i hkept
    exact ⟨.inl, fun h => h.resolve_right hkept⟩

/-- The rows the end of `d` promotes are those it frees. -/
theorem stage_promotes (hd : d ∉ P) :
    (s.stage L kind X P).Promotes L (kind d) d t ↔ t ∉ X ∧ s.Releases (kind d) d t ∧ s.Freed L kind (insert d P) t := by
  by_cases hX : t ∈ X
  · simp [Promotes, Releases, stage, hX]
  · have hedge : (s.stage L kind X P).edge t d = s.edge t d := stage_edge hX hd
    have hsame : (s.stage L kind X P).Releases (kind d) d t ↔
        s.Releases (kind d) d t := by rw [Releases, Releases, hedge]
    rw [Promotes, hsame, stage_edges_none hX]
    by_cases hreleases : s.Releases (kind d) d t
    · have hrow : (s.stage L kind X P).row t = s.row t := by
        obtain ⟨policy, hpolicy, -⟩ := id hreleases
        exact stage_row hX hd (by rw [hpolicy]; nofun)
      rw [hrow, freed_insert hreleases]
      tauto
    · tauto

/-- Applying one more end cancels over its canceling edges and frees what it releases. -/
theorem stage_resolve (hd : d ∉ P) :
    (s.stage L kind X P).resolve L (kind d) d = s.stage L kind (s.canceledBy kind X d) (insert d P) := by
  have hpoint : ∀ t, applied L (kind d) d ((s.stage L kind X P).row t)
      ((s.stage L kind X P).edge t) =
        ((s.stage L kind (s.canceledBy kind X d) (insert d P)).row t,
          (s.stage L kind (s.canceledBy kind X d) (insert d P)).edge t) := by
    intro t
    by_cases hX : t ∈ X
    · -- a canceled row has no edge left
      have hnone : (s.stage L kind X P).edge t = fun _ => none := by simp [stage, hX]
      rw [applied_of_neither (by simp [Cancels, hnone]) (by simp [Releases, hnone]), hnone]
      simp [stage, canceledBy, hX]
    · have hedge : (s.stage L kind X P).edge t d = s.edge t d := stage_edge hX hd
      by_cases hcancels : s.Cancels (kind d) d t
      · have hrow : (s.stage L kind X P).row t = s.row t :=
          stage_row hX hd (by rw [hcancels.2]; nofun)
        rw [applied_of_cancels (by simpa [Cancels, hedge] using hcancels), hrow]
        simp [stage, canceledBy, hcancels]
      · have hnot : t ∉ s.canceledBy kind X d := by simp [canceledBy, hX, hcancels]
        by_cases hreleases : s.Releases (kind d) d t
        · have hrow : (s.stage L kind X P).row t = s.row t := by
            obtain ⟨policy, hpolicy, -⟩ := hreleases
            exact stage_row hX hd (by rw [hpolicy]; nofun)
          have hpromotes : (s.stage L kind X P).Promotes L (kind d) d t ↔
              s.Freed L kind (insert d P) t := by
            rw [stage_promotes hd]
            exact ⟨fun h => h.2.2, fun h => ⟨hX, hreleases, h⟩⟩
          rw [applied_of_releases (by simpa [Releases, hedge] using hreleases)]
          refine Prod.ext ?_ (funext fun x => ?_)
          · simp only [hpromotes, hrow]
            simp [stage, hnot]
          · rcases eq_or_ne x d with rfl | hx
            · simp [stage, hreleases]
            · simp [stage, hX, hnot, hx]
        · rw [applied_of_neither (by simpa [Cancels, hedge] using hcancels)
            (by simpa [Releases, hedge] using hreleases)]
          refine Prod.ext ?_ (funext fun x => ?_)
          · simp [stage, hX, hnot, freed_insert_of_not hreleases]
          · rcases eq_or_ne x d with rfl | hx
            · simp [stage, hX, hnot, hreleases]
            · simp [stage, hX, hnot, hx]
  ext1
  · funext t
    simp [resolve, resolveOn, hpoint t]
  · funext t
    simp [resolve, resolveOn, hpoint t]


/-- A hit row is never freed: the edge it is hit over goes with it only. -/
theorem not_freed_of_reached (h : s.Reached kind W t) : ¬ s.Freed L kind P t := by
  intro hfreed
  obtain ⟨d, hcancels⟩ : ∃ d, s.Cancels (kind d) d t := by
    cases h with
    | first _ h => exact ⟨_, h⟩
    | next _ h => exact ⟨_, h⟩
  have hedge : s.edge t d ≠ none := by
    rw [hcancels.2]
    nofun
  obtain ⟨policy, hpolicy, hrelease⟩ := (hfreed.2.2 d hedge).2
  rw [hcancels.2, hrelease hcancels.1] at hpolicy
  cases hpolicy

/-- What is freed stays freed. -/
theorem Freed.mono {P' : Set I} (h : s.Freed L kind P t) (hsub : P ⊆ P') : s.Freed L kind P' t := by
  obtain ⟨hblocked, ⟨d, hd, hreleases⟩, hall⟩ := h
  exact ⟨hblocked, ⟨d, hsub hd, hreleases⟩, fun x hx => ⟨hsub (hall x hx).1, (hall x hx).2⟩⟩

/-- A failed row has ended. -/
theorem endedAt_of_failedAt (h : s.failedAt L d = true) : s.endedAt L d = true := by
  obtain ⟨r, hrow, hfailed⟩ := (Option.any_eq_true _ _).mp h
  exact (Option.any_eq_true _ _).mpr ⟨r, hrow, L.terminal_of_failed r hfailed⟩

/-- A row that was not hit has ended, and failed, as before: one that was freed was open and still is. -/
theorem stage_endedAt (ht : t ∉ X) : (s.stage L kind X P).endedAt L t = s.endedAt L t ∧
    (s.stage L kind X P).failedAt L t = s.failedAt L t := by
  by_cases hfreed : s.Freed L kind P t
  · obtain ⟨r, hr, hblocked⟩ := id hfreed.1
    have hrow : s.row t = some r := hr
    have hopen := L.open_of_blocked r hblocked
    simp [endedAt, failedAt, stage, ht, hfreed, hrow, hopen, L.open_promote, L.failed_eq_false hopen,
      L.failed_eq_false (L.open_promote r)]
  · simp [endedAt, failedAt, stage, ht, hfreed]

/-- How the sources count when they are visited: a seed as its row, a row that was hit as its canceled form. `E` says
which sources have ended; the others are passed over. -/
structure Sources (L : Lifecycle R) (s : Net I R) (kind : I → Bool) (E W : Set I) : Prop where
  seed : ∀ d ∈ W, s.failedAt L d = kind d ∧ (s.endedAt L d = true ↔ d ∈ E)
  hit : ∀ d, s.Reached kind W d → ((s.row d).map L.cancel).any L.failed = kind d ∧
    (((s.row d).map L.cancel).any L.terminal = true ↔ d ∈ E)

variable {E S : Set I}

/-- A run of the worklist between two visits: what was visited or waits to be is a seed or was hit, and
what a visited row cancels was hit. -/
structure Between (s : Net I R) (kind : I → Bool) (W X S : Set I) (worklist : List I) : Prop where
  queued : ∀ d ∈ worklist, d ∈ W ∨ d ∈ X
  visited : ∀ d ∈ S, d ∈ W ∨ d ∈ X
  covered : ∀ d, d ∈ W ∨ d ∈ X → d ∈ S ∨ d ∈ worklist
  reached : ∀ t ∈ X, s.Reached kind W t
  closed : ∀ d ∈ S, ∀ t, s.Cancels (kind d) d t → t ∈ X

/-- Visiting one more row; a row that has not ended cancels nothing. -/
theorem Between.visit {rest : List I} (h : Between s kind W X S (d :: rest))
    (hX : ∀ x, s.Cancels (kind d) d x → x ∉ X → x ∈ worklist) (hrest : ∀ x ∈ rest, x ∈ worklist)
    (hworklist : ∀ x ∈ worklist, x ∈ rest ∨ x ∈ X ∨ s.Cancels (kind d) d x) :
    Between s kind W (s.canceledBy kind X d) (insert d S) worklist where
  queued x hx := by
    rcases hworklist x hx with hrest | hX | hcancels
    · exact (h.queued x (.tail d hrest)).imp id .inl
    · exact .inr (.inl hX)
    · exact .inr (.inr hcancels)
  visited x hx := by
    rcases hx with rfl | hx
    · exact (h.queued x (.head _)).imp id .inl
    · exact (h.visited x hx).imp id .inl
  covered x hx := by
    have hold : x ∈ W ∨ x ∈ X → x ∈ insert d S ∨ x ∈ worklist := by
      intro hx
      rcases h.covered x hx with hS | hqueued
      · exact .inl (.inr hS)
      · rcases List.mem_cons.mp hqueued with rfl | hmem
        · exact .inl (.inl rfl)
        · exact .inr (hrest x hmem)
    rcases hx with hW | hmem | hcancels
    · exact hold (.inl hW)
    · exact hold (.inr hmem)
    · by_cases hmem : x ∈ X
      · exact hold (.inr hmem)
      · exact .inr (hX x hcancels hmem)
  reached t ht := by
    rcases ht with hmem | hcancels
    · exact h.reached t hmem
    · rcases h.queued d (.head _) with hW | hdX
      · exact .first hW hcancels
      · exact .next (h.reached d hdX) hcancels
  closed x hx t hcancels := by
    rcases hx with rfl | hx
    · exact .inr hcancels
    · exact .inl (h.closed x hx t hcancels)

/-- With nothing left to visit, exactly the reached rows were hit, and they and the seeds were visited. -/
theorem Between.done (h : Between s kind W X S []) : X = {t | s.Reached kind W t} ∧ S = W ∪ X := by
  have hS : S = W ∪ X := by
    ext d
    exact ⟨h.visited d, fun hd => (h.covered d hd).resolve_right List.not_mem_nil⟩
  refine ⟨Set.Subset.antisymm h.reached fun t ht => ?_, hS⟩
  -- a reached row is canceled by a seed or by a row that was reached before it
  induction ht with
  | @first d t hd hcancels => exact h.closed d (hS ▸ .inl hd) t hcancels
  | @next d t hd hcancels ih => exact h.closed d (hS ▸ .inr ih) t hcancels

/-- The sources of a cascade that have ended. -/
def sources (s : Net I R) (kind : I → Bool) (E W : Set I) : Set I :=
  {d | (d ∈ W ∨ s.Reached kind W d) ∧ d ∈ E}

/-- A run of the worklist between two visits, with the ends of the visited rows applied. -/
structure Staged (L : Lifecycle R) (s : Net I R) (kind : I → Bool) (E W X S : Set I) (s₁ : Net I R)
    (worklist : List I) : Prop extends Between s kind W X S worklist where
  net : s₁ = s.stage L kind X (S ∩ E)

variable {s₁ : Net I R} {rest : List I}

section Next

variable (h : Staged L s kind E W X S s₁ (d :: rest)) (hsources : Sources L s kind E W)

include h

theorem Staged.skip (hseen : d ∈ S) : Staged L s kind E W X S s₁ rest := by
  refine ⟨⟨fun x hx => h.queued x (.tail d hx), h.visited, fun x hx => ?_, h.reached, h.closed⟩, h.net⟩
  rcases h.covered x hx with hS | hqueued
  · exact .inl hS
  · rcases List.mem_cons.mp hqueued with rfl | hqueued
    · exact .inl hseen
    · exact .inr hqueued

include hsources

/-- How the source counts that is visited next. -/
theorem Staged.source : s₁.failedAt L d = kind d ∧ (s₁.endedAt L d = true ↔ d ∈ E) := by
  rw [h.net]
  by_cases hX : d ∈ X
  · have hrow : (s.stage L kind X (S ∩ E)).row d = (s.row d).map L.cancel := if_pos hX
    rw [failedAt, endedAt, hrow]
    exact hsources.hit d (h.reached d hX)
  · obtain ⟨hended, hfailed⟩ := stage_endedAt hX
    rw [hended, hfailed]
    exact hsources.seed d ((h.queued d (.head _)).resolve_right hX)

/-- A visit of the next source. -/
theorem Staged.visit (hseen : d ∉ S)
    (hworklist : ∀ x, x ∈ worklist ↔ x ∈ rest ∨ s₁.Cancels (s₁.failedAt L d) d x) :
    Staged L s kind E W (s.canceledBy kind X d) (insert d S) (s₁.visit L d) worklist := by
  obtain ⟨hkind, hended⟩ := h.source hsources
  have hd : d ∉ S ∩ E := fun hmem => hseen hmem.1
  rw [hkind] at hworklist
  refine ⟨h.toBetween.visit (fun x hcancels hX => (hworklist x).mpr (.inr ⟨hcancels.1, ?_⟩))
    (fun x hx => (hworklist x).mpr (.inl hx)) fun x hx => ?_, ?_⟩
  · rw [h.net, stage_edge hX hd, hcancels.2]
  · by_cases hX : x ∈ X
    · exact .inr (.inl hX)
    · refine ((hworklist x).mp hx).imp id fun hcancels => .inr ⟨hcancels.1, ?_⟩
      rw [← stage_edge hX hd, ← h.net, hcancels.2]
  · rw [Net.visit]
    split
    · rename_i hend
      rw [hkind, h.net, stage_resolve hd, Set.insert_inter_of_mem (hended.mp hend)]
    · -- a source that has not ended is passed over, and cancels nothing
      rename_i hopen
      have hfalse : kind d = false := hkind ▸ Bool.eq_false_iff.mpr fun hfailed => hopen (endedAt_of_failedAt hfailed)
      have hsame : s.canceledBy kind X d = X := by simp [canceledBy, Cancels, hfalse]
      rw [hsame, Set.insert_inter_of_notMem fun hE => hopen (hended.mpr hE)]
      exact h.net

/-- What a visit promotes is freed by it, and stays freed. -/
theorem Staged.frees (hseen : d ∉ S) :
    (s₁.Frees L d t ↔ s.Freed L kind (insert d S ∩ E) t ∧ ¬ s.Freed L kind (S ∩ E) t) ∧
      (s.Freed L kind (insert d S ∩ E) t → s.Freed L kind (s.sources kind E W) t) := by
  obtain ⟨hkind, hended⟩ := h.source hsources
  have hd : d ∉ S ∩ E := fun hmem => hseen hmem.1
  have hsub : insert d S ∩ E ⊆ s.sources kind E W := by
    rintro x ⟨rfl | hS, hx⟩
    · exact ⟨(h.queued x (.head _)).imp id (h.reached x), hx⟩
    · exact ⟨(h.visited x hS).imp id (h.reached x), hx⟩
  refine ⟨?_, fun hfreed => hfreed.mono hsub⟩
  by_cases hE : d ∈ E
  · rw [Frees, and_iff_right (hended.mpr hE), hkind, h.net, stage_promotes hd, Set.insert_inter_of_mem hE]
    constructor
    · rintro ⟨-, ⟨policy, hpolicy, -⟩, hfreed⟩
      exact ⟨hfreed, not_freed hd (by rw [hpolicy]; nofun)⟩
    · rintro ⟨hfreed, hnot⟩
      refine ⟨fun hX => not_freed_of_reached (h.reached t hX) hfreed, ?_, hfreed⟩
      by_contra hreleases
      exact hnot ((freed_insert_of_not hreleases).mp hfreed)
  · rw [Set.insert_inter_of_notMem hE]
    exact iff_of_false (fun hfrees => hE (hended.mp hfrees.1)) fun hnew => hnew.2 hnew.1

/-- The rows woken so far, after a visit of the next source. -/
theorem Staged.wakes (hseen : d ∉ S) (Q : R → Prop) : s.Wakes L kind (insert d S ∩ E) Q ↔
      s.Wakes L kind (S ∩ E) Q ∨ ∃ t, s₁.Frees L d t ∧ ∃ r ∈ s₁.row t, Q r := by
  have hfrees := fun t => (h.frees (t := t) hsources hseen).1
  have hrow : ∀ t, s₁.Frees L d t → s₁.row t = s.row t := by
    intro t ht
    obtain ⟨hfreed, hnot⟩ := (hfrees t).mp ht
    have hX : t ∉ X := fun hX => not_freed_of_reached (h.reached t hX) hfreed
    simp [h.net, stage, hX, hnot]
  constructor
  · rintro ⟨t, hfreed, hr⟩
    by_cases hold : s.Freed L kind (S ∩ E) t
    · exact .inl ⟨t, hold, hr⟩
    · have ht := (hfrees t).mpr ⟨hfreed, hold⟩
      exact .inr ⟨t, ht, hrow t ht ▸ hr⟩
  · rintro (⟨t, hold, hr⟩ | ⟨t, ht, hr⟩)
    · exact ⟨t, hold.mono (Set.inter_subset_inter_left E (Set.subset_insert d S)), hr⟩
    · exact ⟨t, ((hfrees t).mp ht).1, hrow t ht ▸ hr⟩

end Next

/-- With nothing left to visit, the reached rows were hit and the ends of all sources were applied. -/
theorem Staged.done (h : Staged L s kind E W X S s₁ []) :
    s₁ = s.stage L kind {t | s.Reached kind W t} (s.sources kind E W) ∧ S ∩ E = s.sources kind E W := by
  obtain ⟨hX, hS⟩ := h.toBetween.done
  have hfinal : S ∩ E = s.sources kind E W := by
    rw [hS, hX]
    rfl
  rw [← hfinal, ← hX]
  exact ⟨h.net, rfl⟩

/-- Nothing is hit or applied before the first visit. -/
theorem stage_empty : s.stage L kind ∅ ∅ = s := by
  ext1
  · funext t
    simp [stage, Freed]
  · funext t d
    simp [stage]

/-- A run of the worklist begins before the first visit. -/
theorem Staged.start (L : Lifecycle R) (s : Net I R) (kind : I → Bool) (E : Set I) (seeds : List I) :
    Staged L s kind E {d | d ∈ seeds} ∅ ∅ s seeds :=
  ⟨⟨fun d hd => .inl hd, fun d hd => hd.elim, fun d hd => .inr (hd.resolve_right id), fun d hd => hd.elim,
    fun d hd => hd.elim⟩, by rw [Set.empty_inter, stage_empty]⟩

/-- The row is waited on only over edges that its failure keeps. -/
def Drained (s : Net I R) (L : Lifecycle R) (d : I) : Prop :=
  ∀ t, s.edge t d ≠ none → s.edge t d = some .keep ∧ s.failedAt L d = true

/-- The rows a cascade from `f` hits, all of them as failed as `f`. -/
def hitBy (s : Net I R) (L : Lifecycle R) (f : I) : Set I := {t | s.Reached (fun _ => s.failedAt L f) {d | d ∈ [f]} t}

/-- The rows whose ends a cascade from `f` applies. -/
def endedBy (s : Net I R) (L : Lifecycle R) (f : I) : Set I :=
  s.sources (fun _ => s.failedAt L f) {_d | s.endedAt L f = true} {d | d ∈ [f]}

/-- The net after a cascade from `f`. -/
noncomputable def cascade (s : Net I R) (L : Lifecycle R) (f : I) : Net I R :=
  s.stage L (fun _ => s.failedAt L f) (s.hitBy L f) (s.endedBy L f)

/-- Only a failed seed hits rows, and they are there. -/
theorem Reached.of_seed {failed : Bool} (hrows : ∀ t d, s.edge t d ≠ none → ∃ r, s.row t = some r)
    (h : s.Reached (fun _ => failed) W t) : failed = true ∧ ∃ r, s.row t = some r := by
  cases h with
  | first _ hcancels => exact ⟨hcancels.1, hrows t _ (by rw [hcancels.2]; nofun)⟩
  | next _ hcancels => exact ⟨hcancels.1, hrows t _ (by rw [hcancels.2]; nofun)⟩

section Seed

variable (hcancel : ∀ r, L.failed (L.cancel r) = true) (hrows : ∀ t d, s.edge t d ≠ none → ∃ r, s.row t = some r) {f : I}

include hcancel hrows

/-- Where canceling makes every row a failed one, all sources of a cascade from one seed count as the seed: one that has
not failed hits nothing. -/
theorem Sources.of_seed (f : I) :
    Sources L s (fun _ => s.failedAt L f) {_d | s.endedAt L f = true} {d | d ∈ [f]} := by
  refine ⟨fun d hd => ?_, fun d hd => ?_⟩
  · obtain rfl := List.mem_singleton.mp hd
    exact ⟨rfl, .rfl⟩
  · obtain ⟨hfailed, r, hr⟩ := hd.of_seed hrows
    have hended : s.endedAt L f = true := endedAt_of_failedAt hfailed
    simp [hr, hcancel, hfailed, hended, L.terminal_of_failed]

omit hrows in
/-- A row that has ended stays so. -/
theorem endedAt_stage (h : s.endedAt L t = true) : (s.stage L kind X P).endedAt L t = true := by
  by_cases ht : t ∈ X
  · obtain ⟨r, hrow, -⟩ := (Option.any_eq_true _ _).mp h
    simp [endedAt, stage, ht, hrow, L.terminal_of_failed _ (hcancel r)]
  · exact (stage_endedAt ht).1.trans h

/-- The seed and the rows it hits have failed afterwards if the seed had. -/
theorem cascade_failedAt (hfailed : s.failedAt L f = true)
    (hsource : d = f ∨ d ∈ s.hitBy L f) : (s.cascade L f).failedAt L d = true := by
  by_cases hhit : d ∈ s.hitBy L f
  · obtain ⟨-, r, hr⟩ := hhit.of_seed hrows
    have hrow : (s.cascade L f).row d = (s.row d).map L.cancel := if_pos hhit
    simp [failedAt, hrow, hr, hcancel]
  · obtain rfl := hsource.resolve_right hhit
    exact (stage_endedAt hhit).2.trans hfailed

/-- A cascade from a row that has ended drains it and the rows it hits, and undoes no draining. -/
theorem drained_cascade (hended : s.endedAt L f = true) (hd : (s.cascade L f).endedAt L d = true)
    (h : d ≠ f → s.endedAt L d = true → s.Drained L d) : (s.cascade L f).Drained L d := by
  intro t hedge
  obtain ⟨hhit, hkept, hsame⟩ := stage_edge_left hedge
  rw [cascade] at hedge ⊢
  rw [hsame] at hedge ⊢
  by_cases hsource : d = f ∨ d ∈ s.hitBy L f
  · obtain ⟨policy, hpolicy⟩ := Option.ne_none_iff_exists'.mp hedge
    have hreleases : ¬ s.Releases (s.failedAt L f) d t := fun h =>
      hkept ⟨⟨hsource.imp_left List.mem_singleton.mpr, hended⟩, h⟩
    have hfailed : s.failedAt L f = true := by
      by_contra hopen
      exact hreleases ⟨policy, hpolicy, fun hfailed => absurd hfailed hopen⟩
    cases policy with
    | keep => exact ⟨hpolicy, cascade_failedAt hcancel hrows hfailed hsource⟩
    | cancel =>
      refine absurd ?_ hhit
      rcases hsource with rfl | hreached
      · exact .first (.head _) ⟨hfailed, hpolicy⟩
      · exact .next hreached ⟨hfailed, hpolicy⟩
    | release => exact absurd ⟨_, hpolicy, fun _ => rfl⟩ hreleases
  · rw [not_or] at hsource
    obtain ⟨hended, hfailed⟩ := @stage_endedAt _ _ L s (fun _ => s.failedAt L f) (s.hitBy L f) (s.endedBy L f) d hsource.2
    exact hfailed ▸ h hsource.1 (hended.symm.trans hd) t hedge

end Seed

end Outcome

end Net

end Conveyor.Lib
