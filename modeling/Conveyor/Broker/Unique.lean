import Conveyor.Broker.Exec

/-!
# Unique keys

The claim on a key is checked when a task is committed. Every later change keeps a task's key and
expiry and makes no task incomplete that was not, with one exception: making an archived task due
revives it without looking at who holds its key by then.
-/

namespace Conveyor

open Lib

/-- At most one stored task holds each non-empty key at the given time. -/
def Broker.UniqueAt (b : Broker) (now : Time) : Prop :=
  ∀ key t t' row row', key ≠ "" → b.tasks.lookup t = some row → b.tasks.lookup t' = some row' →
    holdsClaim row key now = true → holdsClaim row' key now = true → t = t'

/-- The clock readings of a run up to the present never go back. -/
def ClockMonotone (invocations : List Invocation) (now : Time) : Prop :=
  (invocations.map Invocation.now ++ [now]).Pairwise (· ≤ ·)

/-- An archived task with a key that has not lapsed is made due only while no task holds the key. -/
def RevivesFreeKey (b : Broker) (i : Invocation) : Prop :=
  ∀ t row, i.call = .runTaskNow t → b.tasks.lookup t = some row → row.state = .archived →
    row.uniqueKey ≠ "" → (isZero row.uniqueExpiresAt || decide (row.uniqueExpiresAt > i.now)) = true →
    b.uniqueKeyClaimed row.uniqueKey i.now = false

section Claims

variable {now : Time} {call : Call} {seeds : List String} {t key : String}

variable {row : TaskRow}

/-- What holding a claim means. -/
theorem holdsClaim_iff :
    holdsClaim row key now = true ↔ row.uniqueKey = key ∧ incomplete row.state = true ∧
      (isZero row.uniqueExpiresAt || decide (row.uniqueExpiresAt > now)) = true := by
  simp only [holdsClaim, Bool.and_eq_true, beq_iff_eq, and_assoc]

variable {later : Time}

/-- A claim held later was held earlier. -/
theorem holdsClaim_of_le (hle : now ≤ later) (h : holdsClaim row key later = true) : holdsClaim row key now = true := by
  rw [holdsClaim_iff] at h ⊢
  refine ⟨h.1, h.2.1, ?_⟩
  have hexpiry := h.2.2
  simp only [Bool.or_eq_true, decide_eq_true_eq] at hexpiry ⊢
  exact hexpiry.imp_right (lt_of_le_of_lt hle)

variable {b : Broker}

/-- Uniqueness at one time implies it at every later one. -/
theorem Broker.UniqueAt.mono (h : b.UniqueAt now) (hle : now ≤ later) : b.UniqueAt later :=
  fun key t t' row row' hkey hrow hrow' hheld hheld' =>
    h key t t' row row' hkey hrow hrow' (holdsClaim_of_le hle hheld) (holdsClaim_of_le hle hheld')

/-- A row change gives no row a claim it did not hold, except when it revives an archived task. -/
theorem RowChange.holdsClaim {row' : TaskRow} (h : RowChange now t call row row')
    (hkey : key ≠ "") (hheld : Conveyor.holdsClaim row' key now = true) :
    Conveyor.holdsClaim row key now = true ∨
      (call = .runTaskNow t ∧ row.state = .archived ∧ row.uniqueKey = key ∧
        (isZero row.uniqueExpiresAt || decide (row.uniqueExpiresAt > now)) = true) := by
  rw [holdsClaim_iff] at hheld
  obtain ⟨hname, hincomplete, hexpiry⟩ := hheld
  rw [holdsClaim_iff]
  cases h with
  | leased h =>
    refine .inl ⟨hname, ?_, hexpiry⟩
    rcases leasable_state h with hs | hs <;> simp [incomplete, hs]
  | groupLeased h => exact .inl ⟨hname, by simp [incomplete, groupLeasable_state h], hexpiry⟩
  | extended h => exact .inl ⟨hname, hincomplete, hexpiry⟩
  | progressed h => exact .inl ⟨hname, hincomplete, hexpiry⟩
  | unclaimed h => exact absurd hname.symm hkey
  | failed h => exact .inl ⟨hname, by simp [incomplete, h.1], hexpiry⟩
  | released h => exact .inl ⟨hname, by simp [incomplete, h.1], hexpiry⟩
  | reaped h =>
    rw [TaskRow.reaped] at hname hexpiry
    refine .inl ⟨?_, by simp [incomplete, reapable_state h], ?_⟩
    · split at hname <;> exact hname
    · split at hexpiry <;> exact hexpiry
  | due h => exact .inl ⟨hname, by simp [incomplete, promotable_state h], hexpiry⟩
  | promoted hcall hblocked hdeps => exact .inl ⟨hname, by simp [incomplete, hblocked], hexpiry⟩
  | ranNow h =>
    by_cases harchived : row.state = .archived
    · exact .inr ⟨rfl, harchived, hname, hexpiry⟩
    · refine .inl ⟨hname, ?_, hexpiry⟩
      revert h harchived
      cases row.state <;> simp [runnable, incomplete]
  | rescheduled h =>
    refine .inl ⟨hname, ?_, hexpiry⟩
    revert h
    cases row.state <;> simp [reschedulable, incomplete]
  | _ => cases hincomplete

/-- One step keeps keys unique, unless it revives an archived task whose key is held. -/
theorem StoreStep.uniqueAt {base c c' : Broker} (hstep : StoreStep now call seeds base c c')
    (hfree : ∀ t row, call = .runTaskNow t → c.tasks.lookup t = some row → row.state = .archived →
      row.uniqueKey ≠ "" → (isZero row.uniqueExpiresAt || decide (row.uniqueExpiresAt > now)) = true →
      c.uniqueKeyClaimed row.uniqueKey now = false)
    (hc : c.UniqueAt now) : c'.UniqueAt now := by
  intro key t t' row row' hkey hrow hrow' hheld hheld'
  -- a claim of the new store was there before, or the key was free
  have hsource : ∀ t row, c'.tasks.lookup t = some row → holdsClaim row key now = true →
      (∃ old, c.tasks.lookup t = some old ∧ holdsClaim old key now = true) ∨ c.uniqueKeyClaimed key now = false := by
    intro t row hrow hheld
    have hview := hstep.row t
    rw [hrow] at hview
    generalize hstored : c.tasks.lookup t = stored at hview
    cases hview with
    | same => exact .inl ⟨row, rfl, hheld⟩
    | @created task _ _ hunclaimed =>
      have hname : task.options.uniqueKey = key := (holdsClaim_iff.mp hheld).1
      exact .inr (hname ▸ hunclaimed (hname.symm ▸ hkey))
    | @changed old _ hchange =>
      rcases hchange.holdsClaim hkey hheld with hold | ⟨hcall, harchived, hname, hexpiry⟩
      · exact .inl ⟨old, rfl, hold⟩
      · exact .inr (hname ▸ hfree t old hcall hstored harchived (hname.symm ▸ hkey) hexpiry)
    | @satisfied f finished old => exact .inl ⟨old, rfl, hheld⟩
    | cascaded =>
      have hincomplete := (holdsClaim_iff.mp hheld).2.1
      cases hincomplete
  by_contra hne
  -- only one row changed, so a key that was free is not held twice now
  have hclaimed : c.uniqueKeyClaimed key now ≠ false := by
    obtain ⟨t₀, _, _, -, -, hframe⟩ := hstep.frame
    intro hfree'
    have hold : ∃ s old, c.tasks.lookup s = some old ∧ holdsClaim old key now = true := by
      by_cases ht : t = t₀
      · exact ⟨t', row', ((hframe t').trans (if_neg fun h => hne (ht.trans h.symm))) ▸ hrow', hheld'⟩
      · exact ⟨t, row, ((hframe t).trans (if_neg ht)) ▸ hrow, hheld⟩
    rw [(Broker.uniqueKeyClaimed_iff c key now).mpr hold] at hfree'
    cases hfree'
  obtain ⟨old, hold, hclaim⟩ := (hsource t row hrow hheld).resolve_right hclaimed
  obtain ⟨old', hold', hclaim'⟩ := (hsource t' row' hrow' hheld').resolve_right hclaimed
  exact hne (hc key t t' old old' hkey hold hold' hclaim hclaim')

/-- One operation keeps keys unique, unless it revives an archived task whose key is held. -/
theorem after_uniqueAt {i : Invocation} (hfree : RevivesFreeKey b i)
    (h : b.UniqueAt i.now) : (b.after i).UniqueAt i.now := by
  by_cases hsingle : i.call.single = true
  · have hstep := exec_step b i hsingle
    generalize b.after i = b' at hstep ⊢
    cases hstep with
    | refl => exact h
    | single hstep => exact hstep.uniqueAt hfree h
  · refine after_induction h fun c c' hstep hc => hstep.uniqueAt ?_ hc
    intro t row hcall
    simp [hcall, Call.single] at hsingle

/-- Along a run with a monotone clock that revives only tasks with free keys, keys stay unique. -/
theorem run_uniqueAt (invocations : List Invocation) (b : Broker) {start : Time}
    (h : b.UniqueAt start) (hclock : (start :: invocations.map Invocation.now ++ [now]).Pairwise (· ≤ ·))
    (hfree : b.StepsMeet RevivesFreeKey invocations) : (b.run invocations).UniqueAt now := by
  induction invocations generalizing b start with
  | nil =>
    exact h.mono (by simpa using hclock)
  | cons i rest ih =>
    rw [List.map_cons, List.cons_append, List.pairwise_cons] at hclock
    have hstart := h.mono (hclock.1 i.now (.head _))
    exact ih (b.after i) (after_uniqueAt hfree.1 hstart) hclock.2 hfree.2

end Claims

/-- Unique keys, in every run with a monotone clock whose run-nows revive only tasks with free keys. -/
theorem unique_keys (invocations : List Invocation) (now : Time) (hclock : ClockMonotone invocations now)
    (hfree : Broker.empty.StepsMeet RevivesFreeKey invocations) : (Broker.empty.run invocations).UniqueAt now := by
  have hempty : ∀ start, Broker.empty.UniqueAt start := by
    intro start key t t' row row' _ hrow
    cases hrow
  cases invocations with
  | nil => exact hempty now
  | cons i rest =>
    exact run_uniqueAt rest _ (after_uniqueAt hfree.1 (hempty i.now)) hclock hfree.2

/-- A key is claimed, its holder archived, and made due again while the key is free. -/
def revivedRun : List Invocation :=
  [⟨1, .enqueue { id := "a", queue := "q", options := { uniqueKey := "k" } }, {}⟩,
   ⟨2, .archiveTask "a", {}⟩,
   ⟨3, .runTaskNow "a", {}⟩,
   ⟨4, .enqueue { id := "b", queue := "q", options := { uniqueKey := "k" } }, {}⟩]

/-- The key is free when its holder is revived, the second task is refused, and one holder is left. -/
theorem unique_keys_revived :
    ClockMonotone revivedRun 5 ∧ Broker.empty.StepsMeet RevivesFreeKey revivedRun ∧
    ((Broker.empty.run (revivedRun.take 3)).exec
      ⟨4, .enqueue { id := "b", queue := "q", options := { uniqueKey := "k" } }, {}⟩).2 = .error .duplicateTask ∧
    (Broker.empty.run revivedRun).UniqueAt 5 := by
  have hclock : ClockMonotone revivedRun 5 := by
    unfold ClockMonotone
    decide
  have hfree : Broker.empty.StepsMeet RevivesFreeKey revivedRun := by
    refine ⟨fun _ _ hcall => ?_, fun _ _ hcall => ?_, fun t row hcall hrow _ _ _ => ?_, fun _ _ hcall => ?_, trivial⟩
    · cases hcall
    · cases hcall
    · cases hcall
      have hkey : ((Broker.empty.run (revivedRun.take 2)).tasks.lookup "a").map TaskRow.uniqueKey =
          some "k" := by decide
      rw [show (Broker.empty.run (revivedRun.take 2)).tasks.lookup "a" = some row from hrow,
        Option.map_some, Option.some.injEq] at hkey
      rw [hkey]
      decide
    · cases hcall
  exact ⟨hclock, hfree, by decide, unique_keys revivedRun 5 hclock hfree⟩

/-- The holder of a key is archived, another task claims the key, and the first is made due again. -/
def doubleClaimRun : List Invocation :=
  [⟨1, .enqueue { id := "a", queue := "q", options := { uniqueKey := "k" } }, {}⟩,
   ⟨2, .archiveTask "a", {}⟩,
   ⟨3, .enqueue { id := "b", queue := "q", options := { uniqueKey := "k" } }, {}⟩,
   ⟨4, .runTaskNow "a", {}⟩]

/-- Two incomplete tasks then hold the key. -/
theorem unique_keys_double_claim : ClockMonotone doubleClaimRun 4 ∧ ¬ (Broker.empty.run doubleClaimRun).UniqueAt 4 := by
  constructor
  · unfold ClockMonotone
    decide
  · intro hunique
    have ha : ((Broker.empty.run doubleClaimRun).tasks.lookup "a").map (holdsClaim · "k" 4) = some true := by decide
    have hb : ((Broker.empty.run doubleClaimRun).tasks.lookup "b").map (holdsClaim · "k" 4) = some true := by decide
    obtain ⟨row, hrow, hheld⟩ := Option.map_eq_some_iff.mp ha
    obtain ⟨row', hrow', hheld'⟩ := Option.map_eq_some_iff.mp hb
    exact absurd (hunique "k" "a" "b" row row' (by decide) hrow hrow' hheld hheld') (by decide)

end Conveyor
