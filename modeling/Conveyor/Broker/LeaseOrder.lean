import Conveyor.Broker.Fencing
import Mathlib.Data.Prod.Lex
import Mathlib.Data.String.Basic

/-!
# Which tasks a lease takes

A lease sorts the due tasks of its queue and takes the first of them. The comparison subtracts the priorities in
32 bits, so it orders two tasks as their priorities do only while the difference fits; the priorities of tasks
that a cron entry produces are not checked.
-/

namespace Conveyor

open Lib

/-- Dispatch order: by priority descending, then by due time, then by id. -/
def dueKey (row : TaskRow) : Int ×ₗ Int ×ₗ String :=
  toLex (-row.priority.toInt, toLex (row.processAt, row.envelope.id))

/-- A comparison of two values is negative exactly if the first is smaller. -/
theorem compareBy_neg_iff {A : Type} [LT A] [DecidableRel (fun x y : A => x < y)] [DecidableEq A] {x : A} (y : A)
    (hirrefl : ¬ x < x) : compareBy x y < 0 ↔ x < y := by
  unfold compareBy
  rcases eq_or_ne x y with rfl | heq
  · simp [hirrefl]
  · by_cases hlt : x < y <;> simp [heq, hlt]

/-- While the difference of the priorities fits into 32 bits, rows are compared as their keys are. -/
theorem compareDue_neg_iff {a other : TaskRow} (hlt : a.priority.toInt - other.priority.toInt < 2 ^ 31)
    (hgt : other.priority.toInt - a.priority.toInt < 2 ^ 31) : compareDue a other < 0 ↔ dueKey a < dueKey other := by
  rw [dueKey, dueKey, Prod.Lex.toLex_lt_toLex, Prod.Lex.toLex_lt_toLex, compareDue]
  by_cases hpriority : a.priority = other.priority
  · rw [if_neg (not_not.mpr hpriority)]
    by_cases htime : a.processAt = other.processAt
    · rw [if_neg (not_not.mpr htime), compareBy_neg_iff _ (lt_irrefl _)]
      simp [hpriority, htime]
    · rw [if_pos htime, compareBy_neg_iff _ (Int.lt_irrefl _)]
      simp [hpriority, htime]
  · have hne : a.priority.toInt ≠ other.priority.toInt := fun heq => hpriority (Int32.toInt_inj.mp heq)
    have hfits : (other.priority.toInt - a.priority.toInt).bmod (2 ^ 32) = other.priority.toInt - a.priority.toInt :=
      Int.bmod_eq_of_le (by omega) (by omega)
    rw [if_pos hpriority, Int32.toInt_sub, hfits]
    dsimp only
    constructor
    · intro hneg
      exact .inl (by omega)
    · intro hkey
      have hle := hkey.imp_right And.left
      omega

/-- A priority that exceeds another by `2 ^ 31` or more compares as the smaller one. -/
theorem compareDue_neg_of_far {a other : TaskRow} (hfar : 2 ^ 31 ≤ other.priority.toInt - a.priority.toInt) :
    compareDue a other < 0 := by
  have hne : a.priority ≠ other.priority := by
    intro heq
    rw [heq, Int.sub_self] at hfar
    omega
  have hlow := a.priority.le_toInt
  have hhigh := other.priority.toInt_lt
  rw [compareDue, if_pos hne, Int32.toInt_sub, Int.bmod_def]
  omega

/-- The row may be leased and stands under the id. -/
def Broker.Due (b : Broker) (queue : String) (now : Time) (t : String) (row : TaskRow) : Prop :=
  b.tasks.lookup t = some row ∧ Broker.leasable queue now row = true

/-- The priorities of the queue's due tasks differ by less than `2 ^ 31`. -/
def Broker.PrioritiesNear (b : Broker) (queue : String) (now : Time) : Prop :=
  ∀ t row t' row', b.Due queue now t row → b.Due queue now t' row' → row.priority.toInt - row'.priority.toInt < 2 ^ 31

/-- The lease takes the first of the queue's due tasks in dispatch order, returns them in this order, makes them active
under its lease id and leaves every other row. -/
def Broker.LeasesFirst (b : Broker) (now : Time) (order : MapOrder String) (queue : String) (limit : Int)
    (ttl : Duration) (leaseID : String) : Prop :=
  let leased := b.lease now order queue limit ttl leaseID
  ∃ due : List (String × TaskRow),
    (∀ t row, (t, row) ∈ due ↔ b.Due queue now t row) ∧
    due.Pairwise (fun x y => dueKey x.2 < dueKey y.2) ∧
    leased.2 = (due.take limit.toNat).map (fun entry => overlay (entry.2.leased now ttl leaseID)) ∧
    ∀ t, leased.1.tasks.lookup t =
      if t ∈ (due.take limit.toNat).map Prod.fst then (b.tasks.lookup t).map fun row => row.leased now ttl leaseID
      else b.tasks.lookup t

section

variable {b : Broker} {now : Time} {order : MapOrder String} {queue : String} {limit : Int} {ttl : Duration}
  {leaseID : String}

theorem lease_eq (hlimit : 1 ≤ limit) : b.lease now order queue limit ttl leaseID =
    let chosen := (sortFunc (fun x y : String × TaskRow => compareDue x.2 y.2)
      (b.rowsWhere order (Broker.leasable queue now))).take limit.toNat
    (b.claim now ttl leaseID chosen, chosen.map fun entry => overlay (entry.2.leased now ttl leaseID)) :=
  if_neg (not_le.mpr hlimit)

/-- While the priorities are near to each other the comparison orders the due rows by their keys. -/
theorem leasesFirst_of_near (hkeyed : b.Keyed) (hlimit : 1 ≤ limit) (hnear : b.PrioritiesNear queue now) :
    b.LeasesFirst now order queue limit ttl leaseID := by
  let due := sortFunc (fun x y : String × TaskRow => compareDue x.2 y.2) (b.rowsWhere order (Broker.leasable queue now))
  have hmem : ∀ entry, entry ∈ due ↔ b.Due queue now entry.1 entry.2 :=
    fun entry => (mem_sortFunc _ _ entry).trans mem_rowsWhere
  have hnodup : (due.map Prod.fst).Nodup := ((sortFunc_perm _ _).map Prod.fst).nodup_iff.mpr (rowsWhere_nodup b order _)
  have hsorted : due.Pairwise fun x y => dueKey x.2 ≤ dueKey y.2 := by
    apply sortFunc_pairwise fun entry : String × TaskRow => dueKey entry.2
    intro x hx y hy
    have hxdue := mem_rowsWhere.mp hx
    have hydue := mem_rowsWhere.mp hy
    exact compareDue_neg_iff (hnear _ _ _ _ hxdue hydue) (hnear _ _ _ _ hydue hxdue)
  refine ⟨due, fun t row => hmem (t, row), ?_, by rw [lease_eq hlimit], fun t => ?_⟩
  · -- rows under different ids have different keys
    refine (hsorted.and (List.pairwise_map.mp hnodup)).imp_of_mem fun hx hy ⟨hle, hne⟩ => ?_
    refine lt_of_le_of_ne hle fun heq => hne ?_
    rw [← hkeyed _ _ ((hmem _).mp hx).1, ← hkeyed _ _ ((hmem _).mp hy).1]
    exact congrArg (fun key => (ofLex (ofLex key).2).2) heq
  · rw [lease_eq hlimit]
    have htaken : ((due.take limit.toNat).map Prod.fst).Nodup := ((List.take_sublist _ _).map Prod.fst).nodup hnodup
    split
    · rename_i ht
      obtain ⟨entry, hentry, rfl⟩ := List.mem_map.mp ht
      rw [claim_lookup _ b htaken hentry, ((hmem entry).mp (List.mem_of_mem_take hentry)).1, Option.map_some]
    · rename_i ht
      exact claim_lookup_of_not_mem _ b ht

/-- A lease that takes the first due tasks returns first the one with the smallest key. -/
theorem leasesFirst_head (hkeyed : b.Keyed) (hlimit : 1 ≤ limit) (h : b.LeasesFirst now order queue limit ttl leaseID)
    {t : String} {row : TaskRow} (hdue : b.Due queue now t row) :
    ∃ first firstRow, b.Due queue now first firstRow ∧
      (∀ t row, b.Due queue now t row → dueKey firstRow ≤ dueKey row) ∧
      (b.lease now order queue limit ttl leaseID).2.head?.map TaskEnvelope.id = some first := by
  obtain ⟨due, hmem, hsorted, hreply, -⟩ := h
  cases due with
  | nil => exact absurd ((hmem t row).mpr hdue) List.not_mem_nil
  | cons entry rest =>
    have hfirst := (hmem entry.1 entry.2).mp (.head _)
    refine ⟨entry.1, entry.2, hfirst, fun other otherRow hother => ?_, ?_⟩
    · rcases List.mem_cons.mp ((hmem other otherRow).mpr hother) with heq | hrest
      · rw [← heq]
      · exact (List.rel_of_pairwise_cons hsorted hrest).le
    · obtain ⟨n, hn⟩ : ∃ n, limit.toNat = n + 1 := ⟨limit.toNat - 1, by omega⟩
      rw [hreply, hn]
      exact congrArg some (hkeyed entry.1 entry.2 hfirst.1)

/-- A task of a priority too far below the one due first overtakes it if the loop visits the two first. -/
theorem lease_overtaken (hkeyed : b.Keyed) (hlimit : 1 ≤ limit) {first low : String} {firstRow lowRow : TaskRow}
    (hfirst : b.Due queue now first firstRow) (hlow : b.Due queue now low lowRow)
    (hfar : 2 ^ 31 ≤ firstRow.priority.toInt - lowRow.priority.toInt) :
    (b.lease now (.startingWith [first, low]) queue limit ttl leaseID).2.head?.map TaskEnvelope.id ≠ some first := by
  have hne : first ≠ low := by
    rintro rfl
    have hsame := Option.some.inj (hfirst.1.symm.trans hlow.1)
    rw [hsame] at hfar
    omega
  have hnodup : [first, low].Nodup := by simpa using hne
  have hstored : ∀ t ∈ [first, low], t ∈ b.tasks := by
    simp only [List.forall_mem_cons, ← AList.lookup_isSome, hfirst.1, hlow.1]
    exact ⟨rfl, rfl, List.forall_mem_nil _⟩
  obtain ⟨rest, hrows⟩ : ∃ rest, b.rowsWhere (.startingWith [first, low]) (Broker.leasable queue now) =
      (first, firstRow) :: (low, lowRow) :: rest := by
    rw [Broker.rowsWhere, MapOrder.visit_startingWith hnodup hstored]
    simp [hfirst.1, hfirst.2, hlow.1, hlow.2]
  have hswapped := sortFunc_swaps (fun x y : String × TaskRow => compareDue x.2 y.2) (a := (first, firstRow))
    (b := (low, lowRow)) (compareDue_neg_of_far hfar) rest
  have hids := ((sortFunc_perm (fun x y : String × TaskRow => compareDue x.2 y.2) _).map Prod.fst).nodup_iff.mpr
    (rowsWhere_nodup b (.startingWith [first, low]) (Broker.leasable queue now))
  have hmem : ∀ entry, entry ∈ sortFunc (fun x y : String × TaskRow => compareDue x.2 y.2)
      ((first, firstRow) :: (low, lowRow) :: rest) → b.tasks.lookup entry.1 = some entry.2 :=
    fun entry hentry => (mem_rowsWhere.mp (hrows ▸ (mem_sortFunc _ _ entry).mp hentry)).1
  obtain ⟨n, hn⟩ : ∃ n, limit.toNat = n + 1 := ⟨limit.toNat - 1, by omega⟩
  rw [lease_eq hlimit, hn, hrows]
  rw [hrows] at hids
  cases hsorted : sortFunc (fun x y : String × TaskRow => compareDue x.2 y.2)
      ((first, firstRow) :: (low, lowRow) :: rest) with
  | nil =>
    rw [hsorted] at hswapped
    cases hswapped
  | cons head tail =>
    rw [hsorted] at hswapped hids hmem
    -- the overtaken task stands behind the head of the sorted list
    have htail : (first, firstRow) ∈ tail := by
      cases hswapped with
      | cons _ hlater => exact hlater.subset (.tail _ (.head _))
      | cons_cons _ hlater => exact hlater.subset (.head _)
    rw [List.map_cons, List.nodup_cons] at hids
    intro hhead
    have hid : head.1 = first := (hkeyed head.1 head.2 (hmem head (.head _))).symm.trans (Option.some.inj hhead)
    exact hids.1 (hid ▸ List.mem_map_of_mem htail)

/-- Priorities that are too far from each other mislead the lease in some iteration order. -/
theorem near_of_leasesFirst (hkeyed : b.Keyed) (hlimit : 1 ≤ limit)
    (h : ∀ order, b.LeasesFirst now order queue limit ttl leaseID) : b.PrioritiesNear queue now := by
  intro t row t' row' hdue hdue'
  obtain ⟨first, firstRow, hfirst, hleast, -⟩ := leasesFirst_head hkeyed hlimit (h .listed) hdue
  by_contra hfar
  have hpriority : ∀ {row : TaskRow}, dueKey firstRow ≤ dueKey row → row.priority.toInt ≤ firstRow.priority.toInt := by
    intro row hle
    have hle := (Prod.Lex.toLex_le_toLex.mp hle).imp_right And.left
    dsimp only at hle
    omega
  have hfarther : 2 ^ 31 ≤ firstRow.priority.toInt - row'.priority.toInt := by
    have := hpriority (hleast t row hdue)
    omega
  obtain ⟨other, otherRow, hother, hleast', hhead⟩ := leasesFirst_head hkeyed hlimit
    (h (.startingWith [first, t'])) hdue
  have hkey : dueKey otherRow = dueKey firstRow :=
    le_antisymm (hleast' first firstRow hfirst) (hleast other otherRow hother)
  have hsame : other = first := by
    rw [← hkeyed _ _ hother.1, ← hkeyed _ _ hfirst.1]
    exact congrArg (fun key => (ofLex (ofLex key).2).2) hkey
  rw [hsame] at hhead
  exact lease_overtaken hkeyed hlimit hfirst hdue' hfarther hhead

end

/-- In every reachable store, a lease takes the first of the queue's due tasks in dispatch order, whatever the iteration
order, exactly if the priorities of the due tasks differ by less than `2 ^ 31`. -/
theorem lease_takes_first (invocations : List Invocation) (now : Time) (queue : String) (limit : Int) (ttl : Duration)
    (leaseID : String) (hlimit : 1 ≤ limit) :
    (∀ order, (Broker.empty.run invocations).LeasesFirst now order queue limit ttl leaseID) ↔
      (Broker.empty.run invocations).PrioritiesNear queue now :=
  ⟨near_of_leasesFirst (run_keyed invocations) hlimit,
    fun hnear _ => leasesFirst_of_near (run_keyed invocations) hlimit hnear⟩

/-- Two due tasks of the given priorities. -/
def prioritized (first second : Int32) : List Invocation :=
  [⟨1, .enqueue { id := "a", queue := "q", options := { priority := first } }, {}⟩,
   ⟨1, .enqueue { id := "b", queue := "q", options := { priority := second } }, {}⟩]

/-- The task of the higher priority is taken, and it is the first due task. -/
theorem lease_takes_first_of_two :
    ((Broker.empty.run (prioritized 1 9)).lease 2 .listed "q" 1 5 "L").2.map TaskEnvelope.id = ["b"] ∧
    ∀ order, (Broker.empty.run (prioritized 1 9)).LeasesFirst 2 order "q" 1 5 "L" := by
  have hbounds : ∀ entry ∈ (Broker.empty.run (prioritized 1 9)).tasks.entries,
      0 ≤ entry.2.priority.toInt ∧ entry.2.priority.toInt ≤ 9 := by decide
  refine ⟨by decide, (lease_takes_first (prioritized 1 9) 2 "q" 1 5 "L" (by decide)).mpr ?_⟩
  intro t row t' row' hdue hdue'
  have hrange := hbounds _ (AList.mem_lookup_iff.mp hdue.1)
  have hrange' := hbounds _ (AList.mem_lookup_iff.mp hdue'.1)
  dsimp only at hrange hrange'
  omega

/-- The difference of the priorities overflows, and the task of the lower one is taken. -/
theorem lease_takes_lower_priority :
    ((Broker.empty.run (prioritized 2147483647 (-2))).lease 2 .listed "q" 1 5 "L").2.map
      (fun task => (task.id, task.options.priority)) = [("b", -2)] := by
  decide

end Conveyor
