import Conveyor.Broker.Exec

/-!
# Completion stamps

A row is stamped with the clock reading of the operation that ended its task, and the stamp is cleared when the
task is revived. A stored task is therefore in a terminal state exactly if it is stamped, as long as the clock
never reads the zero time.
-/

namespace Conveyor

open Lib

/-- The completion time of a terminal row is one of the given clock readings; any other row has none. -/
def TaskRow.Stamped (readings : List Time) (row : TaskRow) : Prop :=
  if terminal row.state = true then row.completedAt ∈ readings else row.completedAt = 0

section Stamped

variable {readings : List Time} {now : Time} {row row' : TaskRow}

theorem TaskRow.Stamped.of_ended (hstate : terminal row'.state = true) (hstamp : row'.completedAt = now)
    (hnow : now ∈ readings) : row'.Stamped readings := by
  rw [Stamped, if_pos hstate, hstamp]
  exact hnow

theorem TaskRow.Stamped.of_open (h : row.Stamped readings) (hopen : terminal row.state = false)
    (hopen' : terminal row'.state = false) (hkept : row'.completedAt = row.completedAt) : row'.Stamped readings := by
  rw [Stamped, hopen, if_neg Bool.false_ne_true] at h
  rw [Stamped, hopen', if_neg Bool.false_ne_true, hkept, h]

/-- Every change stamps the row with its clock reading, clears the stamp, or leaves both the stamp and whether the
row is terminal. -/
theorem TaskRow.Stamped.change {t : String} {call : Call} (h : row.Stamped readings)
    (hchange : RowChange now t call row row') (hnow : now ∈ readings) : row'.Stamped readings := by
  cases hchange with
  | leased hleasable =>
    exact h.of_open (by rcases leasable_state hleasable with hstate | hstate <;> rw [hstate] <;> rfl) rfl rfl
  | groupLeased hleasable => exact h.of_open (by rw [groupLeasable_state hleasable]; rfl) rfl rfl
  | extended | progressed | unclaimed => exact h
  | acked | batchAcked | archived | discarded | expiredOut | canceled | deadLettered => exact .of_ended rfl rfl hnow
  | failed hheld | released hheld => exact h.of_open (by rw [hheld.1]; rfl) rfl rfl
  | reaped hreapable =>
    rw [TaskRow.reaped]
    split
    · exact .of_ended rfl rfl hnow
    · exact h.of_open (by rw [reapable_state hreapable]; rfl) rfl rfl
  | due hpromotable => exact h.of_open (by rw [promotable_state hpromotable]; rfl) rfl rfl
  | promoted hcall hstate hdeps =>
    refine h.of_open (by rw [hstate]; rfl) ?_ rfl
    rw [TaskRow.promoted]
    split_ifs <;> rfl
  | ranNow => rfl
  | rescheduled hallowed =>
    refine h.of_open ?_ ?_ rfl
    · cases hstate : row.state <;> simp_all [reschedulable, terminal]
    · rw [TaskRow.rescheduled]
      split_ifs <;> rfl

/-- A new row is stamped if it is committed canceled. -/
theorem stagedTask_stamped (b : Broker) (task : TaskEnvelope) (hnow : now ∈ readings) :
    (b.stagedTask task now).row.Stamped readings := by
  simp only [TaskRow.Stamped, Broker.stagedTask, Broker.initialRow, Broker.initialState]
  split_ifs <;> simp_all [terminal]

end Stamped

/-- After every run whose clock readings are not the zero time, a stored task has a completion time exactly if it
is in a terminal state; and if the clock is monotone, that time is no later than the next reading. -/
theorem completedAt_ne_zero_iff_terminal (invocations : List Invocation) (hclock : ∀ i ∈ invocations, i.now ≠ 0)
    (t : String) (row : TaskRow) (hrow : (Broker.empty.run invocations).tasks.lookup t = some row) :
    (row.completedAt ≠ 0 ↔ terminal row.state = true) ∧ ∀ now,
      (invocations.map Invocation.now ++ [now]).Pairwise (· ≤ ·) → terminal row.state = true → row.completedAt ≤
      now := by
  have hstamped : ∀ t row, (Broker.empty.run invocations).tasks.lookup t = some row →
      row.Stamped (invocations.map Invocation.now) := by
    apply Broker.run_induction (P := fun b => ∀ t row, b.tasks.lookup t = some row →
      row.Stamped (invocations.map Invocation.now))
    · intro t row hrow
      cases hrow
    · intro b i hi hb
      have hnow : i.now ∈ invocations.map Invocation.now := List.mem_map_of_mem hi
      exact after_rows hb (fun task _ => stagedTask_stamped b task hnow)
        (fun _ _ _ hchange hstamped => hstamped.change hchange hnow) (fun _ _ _ hstamped => hstamped)
        (fun _ _ _ => .of_ended rfl rfl hnow)
  have hrowStamped := hstamped t row hrow
  rw [TaskRow.Stamped] at hrowStamped
  cases hstate : terminal row.state with
  | false =>
    rw [hstate, if_neg Bool.false_ne_true] at hrowStamped
    exact ⟨iff_of_false (not_not.mpr hrowStamped) Bool.false_ne_true, nofun⟩
  | true =>
    rw [hstate, if_pos rfl] at hrowStamped
    refine ⟨iff_of_true ?_ rfl, fun now hmonotone _ => ?_⟩
    · obtain ⟨i, hi, hreading⟩ := List.mem_map.mp hrowStamped
      exact hreading ▸ hclock i hi
    · exact (List.pairwise_append.mp hmonotone).2.2 _ hrowStamped now (.head _)

/-- A task archived by hand and run again, and one canceled because it failed. -/
def revivalRun : List Invocation :=
  [⟨1, .enqueue { id := "a", queue := "q" }, {}⟩, ⟨2, .archiveTask "a", {}⟩,
   ⟨3, .enqueue { id := "b", queue := "q", options := { dependsOn := [⟨"a", .cascadeCancel⟩] } }, {}⟩,
   ⟨4, .runTaskNow "a", {}⟩]

/-- The stamp of the revived task is cleared, and the canceled task keeps the one it was committed with. -/
theorem completedAt_ne_zero_iff_terminal_revived :
    ∃ row row', (Broker.empty.run revivalRun).tasks.lookup "a" = some row ∧ row.completedAt = 0 ∧
      terminal row.state = false ∧ (Broker.empty.run revivalRun).tasks.lookup "b" = some row' ∧
      row'.completedAt ≠ 0 ∧ row'.completedAt ≤ 5 := by
  obtain ⟨row, hrow⟩ : ∃ row, (Broker.empty.run revivalRun).tasks.lookup "a" = some row := ⟨_, rfl⟩
  obtain ⟨row', hrow'⟩ : ∃ row, (Broker.empty.run revivalRun).tasks.lookup "b" = some row := ⟨_, rfl⟩
  obtain ⟨hiff, -⟩ := completedAt_ne_zero_iff_terminal revivalRun (by decide) "a" row hrow
  obtain ⟨hiff', hle⟩ := completedAt_ne_zero_iff_terminal revivalRun (by decide) "b" row' hrow'
  have hopen : terminal row.state = false := by cases hrow; rfl
  have hended : terminal row'.state = true := by cases hrow'; rfl
  have hcleared := not_not.mp fun hstamp => Bool.false_ne_true (hopen.symm.trans (hiff.mp hstamp))
  exact ⟨row, row', hrow, hcleared, hopen, hrow', hiff'.mpr hended, hle 5 (by decide) hended⟩

end Conveyor
