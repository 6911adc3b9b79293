import Mathlib.Algebra.Order.BigOperators.Group.Finset
import Mathlib.Algebra.BigOperators.Ring.Finset
import Mathlib.Tactic.Linarith
import Mathlib.Tactic.Ring

/-!
# Smooth weighted round-robin

Every member has a weight and an accumulator. A step adds the weights of the eligible members to their
accumulators, picks one of them whose accumulator is then the highest, and takes the eligible weight from it.
The sum of the accumulators stays what it was. However the eligible members change, the sum over any `k` of `n`
members stays within `k (n - k)` times the whole weight; if all members are eligible all the time, the picks are
proportional to the weights.
-/

namespace Conveyor.Lib.RoundRobin

variable {I : Type} [DecidableEq I] {w a a' : I → ℤ} {U S : Finset I} {m : I}

/-- One step, with the eligible members and the picked one. -/
structure Step (w : I → ℤ) (S : Finset I) (m : I) (a a' : I → ℤ) : Prop where
  mem : m ∈ S
  highest : ∀ i ∈ S, a i + w i ≤ a m + w m
  next : ∀ i, a' i = a i + (if i ∈ S then w i else 0) - if i = m then ∑ j ∈ S, w j else 0

/-- What a step adds to the sum over some members. -/
theorem Step.sum_eq (h : Step w S m a a') (T : Finset I) :
    ∑ i ∈ T, a' i = ∑ i ∈ T, a i + ∑ i ∈ T ∩ S, w i - if m ∈ T then ∑ j ∈ S, w j else 0 := by
  simp only [h.next, Finset.sum_sub_distrib, Finset.sum_add_distrib, Finset.sum_ite_mem, Finset.sum_ite_eq']

/-- The accumulators sum up to zero, and the sum over any `k` of the `n` members is at most `k (n - k)` times the
whole weight. -/
structure Balanced (U : Finset I) (w a : I → ℤ) : Prop where
  total : ∑ i ∈ U, a i = 0
  bound : ∀ T ⊆ U, ∑ i ∈ T, a i ≤ T.card * (U.card - T.card) * ∑ i ∈ U, w i

variable {i : I}

/-- If the picked member is outside a set and some eligible one is inside, the set is bounded by its neighbours: with
the picked member, and without the eligible one. -/
theorem Balanced.outside (h : Balanced U w a) (hstep : Step w S m a a') (hpos : ∀ i ∈ U, 0 ≤ w i) (hS : S ⊆ U)
    {T : Finset I} (hT : T ⊆ U) (hm : m ∉ T) (hi : i ∈ T ∩ S) :
    ∑ j ∈ T, a j + ∑ j ∈ T ∩ S, w j ≤ T.card * (U.card - T.card) * ∑ j ∈ U, w j := by
  obtain ⟨hiT, hiS⟩ := Finset.mem_inter.mp hi
  have hmU := hS hstep.mem
  have hwith := h.bound (insert m T) (Finset.insert_subset hmU hT)
  have hwithout := h.bound (T.erase i) ((Finset.erase_subset i T).trans hT)
  rw [Finset.sum_insert hm, Finset.card_insert_of_notMem hm, Nat.cast_succ] at hwith
  have hcard : ((T.erase i).card : ℤ) = T.card - 1 := by
    rw [Finset.card_erase_of_mem hiT, Nat.cast_pred (Finset.card_pos.mpr ⟨i, hiT⟩)]
  rw [hcard] at hwithout
  have hsum := eq_sub_of_add_eq (Finset.sum_erase_add T a hiT)
  rw [hsum] at hwithout
  -- the weight inside is at most the whole weight less that of the picked member
  have hinside : ∑ j ∈ T ∩ S, w j + w m ≤ ∑ j ∈ U, w j := by
    rw [add_comm, ← Finset.sum_insert fun hmem => hm (Finset.mem_inter.mp hmem).1]
    refine Finset.sum_le_sum_of_subset_of_nonneg ?_ fun j hj _ => hpos j hj
    exact Finset.insert_subset hmU (Finset.inter_subset_left.trans hT)
  have hhighest := hstep.highest i hiS
  have hwi := hpos i (hT hiT)
  have hwm := hpos m hmU
  nlinarith

/-- A step keeps the bounds, whatever members are eligible. -/
theorem Balanced.step (h : Balanced U w a) (hstep : Step w S m a a') (hpos : ∀ i ∈ U, 0 ≤ w i) (hS : S ⊆ U) :
    Balanced U w a' := by
  refine ⟨?_, fun T hT => ?_⟩
  · rw [hstep.sum_eq, if_pos (hS hstep.mem), Finset.inter_eq_right.mpr hS, h.total]
    omega
  · rw [hstep.sum_eq]
    by_cases hm : m ∈ T
    · have hless : ∑ i ∈ T ∩ S, w i ≤ ∑ i ∈ S, w i :=
        Finset.sum_le_sum_of_subset_of_nonneg Finset.inter_subset_right fun i hi _ => hpos i (hS hi)
      rw [if_pos hm]
      linarith [h.bound T hT]
    · rw [if_neg hm, sub_zero]
      rcases (T ∩ S).eq_empty_or_nonempty with hempty | ⟨i, hi⟩
      · rw [hempty, Finset.sum_empty, add_zero]
        exact h.bound T hT
      · exact h.outside hstep hpos hS hT hm hi

/-- Every accumulator is within `n - 1` times the whole weight. -/
theorem Balanced.abs_acc_le (h : Balanced U w a) (hi : i ∈ U) : |a i| ≤ (U.card - 1) * ∑ j ∈ U, w j := by
  have hone := h.bound {i} (Finset.singleton_subset_iff.mpr hi)
  have hrest := h.bound (U.erase i) (Finset.erase_subset i U)
  have hsum : ∑ j ∈ U.erase i, a j = -a i := by
    have hall := Finset.sum_erase_add U a hi
    rw [h.total] at hall
    omega
  have hcard : ((U.erase i).card : ℤ) = U.card - 1 := by
    rw [Finset.card_erase_of_mem hi, Nat.cast_pred (Finset.card_pos.mpr ⟨i, hi⟩)]
  rw [Finset.sum_singleton, Finset.card_singleton, Nat.cast_one, one_mul] at hone
  rw [hsum, hcard, sub_sub_cancel, mul_one] at hrest
  exact abs_le.mpr ⟨by omega, hone⟩

/-- If all members are eligible, no accumulator falls to the whole weight below zero: the picked member's was
positive. -/
theorem Step.neg_lt (hstep : Step w U m a a') (htotal : ∑ i ∈ U, a i = 0) (hpos : ∀ i ∈ U, 0 ≤ w i)
    (hweight : 0 < ∑ i ∈ U, w i) (hlow : ∀ i ∈ U, -∑ j ∈ U, w j < a i) (hi : i ∈ U) : -∑ j ∈ U, w j < a' i := by
  rw [hstep.next, if_pos hi]
  rcases eq_or_ne i m with rfl | him
  · rw [if_pos rfl]
    have hraised : 0 < a i + w i := by
      by_contra hnot
      have hsum := Finset.sum_nonpos fun j hj => (hstep.highest j hj).trans (not_lt.mp hnot)
      rw [Finset.sum_add_distrib, htotal] at hsum
      omega
    omega
  · rw [if_neg him]
    have hlower := hlow i hi
    have hwi := hpos i hi
    omega

omit [DecidableEq I] in
/-- After a number of steps that gives every member a whole number `q i` of turns, each was picked so often. -/
theorem picks_eq {k : ℕ} {q : I → ℤ} {picks : I → ℕ} (hweight : 0 < ∑ i ∈ U, w i)
    (hacc : ∀ i ∈ U, a i = k * w i - picks i * ∑ j ∈ U, w j) (hlow : ∀ i ∈ U, -∑ j ∈ U, w j < a i)
    (hcount : ∑ i ∈ U, picks i = k) (hblock : ∀ i ∈ U, k * w i = q i * ∑ j ∈ U, w j) :
    ∀ i ∈ U, (picks i : ℤ) = q i ∧ a i = 0 := by
  have hle : ∀ i ∈ U, (picks i : ℤ) ≤ q i := by
    intro i hi
    have hlower := hlow i hi
    rw [hacc i hi, hblock i hi] at hlower
    by_contra hmore
    nlinarith
  have hsums : ∑ i ∈ U, (picks i : ℤ) = ∑ i ∈ U, q i := by
    refine mul_right_cancel₀ hweight.ne' ?_
    rw [← Nat.cast_sum, hcount, Finset.sum_mul, ← Finset.sum_congr rfl hblock, Finset.mul_sum]
  intro i hi
  have heq := (Finset.sum_eq_sum_iff_of_le hle).mp hsums i hi
  refine ⟨heq, ?_⟩
  rw [hacc i hi, heq, hblock i hi, sub_self]

/-- The first of `n` members whose accumulator is the highest once the weights are added. -/
def firstHighest (n : ℕ) (w a : ℕ → ℤ) : Option ℕ :=
  (List.range n).find? fun i => decide (∀ j < n, a j + w j ≤ a i + w i)

/-- The accumulators of `n` members after a step in which all are eligible and the first of the highest is picked. -/
def turn (n : ℕ) (w a : ℕ → ℤ) (i : ℕ) : ℤ :=
  a i + w i - if firstHighest n w a = some i then ∑ j ∈ Finset.range n, w j else 0

/-- A step that picks the first of the highest members is a turn. -/
theorem Step.eq_turn {n m : ℕ} {w a a' : ℕ → ℤ} (h : Step w (Finset.range n) m a a')
    (hfirst : ∀ j < m, a j + w j < a m + w m) (hw : ∀ i, n ≤ i → w i = 0) : a' = turn n w a := by
  have hpick : firstHighest n w a = some m := by
    rw [firstHighest, List.find?_range_eq_some]
    refine ⟨decide_eq_true fun j hj => h.highest j (Finset.mem_range.mpr hj), ?_, fun j hj => ?_⟩
    · exact List.mem_range.mpr (Finset.mem_range.mp h.mem)
    · simp only [Bool.not_eq_true', decide_eq_false_iff_not]
      exact fun hall => (hfirst j hj).not_ge (hall m (Finset.mem_range.mp h.mem))
  funext i
  rw [h.next, turn, hpick]
  by_cases hi : i < n
  · simp [hi, eq_comm]
  · simp [hi, hw i (not_lt.mp hi), eq_comm]

/-- Every other entry of a list, from the first or from the second one on. -/
def alternate {A : Type} : Bool → List A → List A
  | _, [] => []
  | true, a :: rest => a :: alternate false rest
  | false, _ :: rest => alternate true rest

variable {A : Type}

theorem alternate_sublist (first : Bool) (entries : List A) : (alternate first entries).Sublist entries := by
  induction entries generalizing first with
  | nil => exact .refl _
  | cons a rest ih =>
    cases first with
    | true => exact (ih false).cons_cons a
    | false => exact (ih true).cons a

theorem alternate_append (first : Bool) (entries more : List A) :
    alternate first (entries ++ more) =
      alternate first entries ++ alternate (first ^^ decide (entries.length % 2 = 1)) more := by
  induction entries generalizing first with
  | nil => simp [alternate]
  | cons a rest ih =>
    rw [List.cons_append]
    rcases Nat.mod_two_eq_zero_or_one rest.length with h | h <;>
      cases first <;> simp [alternate, ih, h, Nat.add_mod]

/-- Both halves of a list together. -/
theorem count_alternate [BEq A] (a : A) (entries : List A) :
    (alternate true entries).count a + (alternate false entries).count a = entries.count a := by
  induction entries with
  | nil => rfl
  | cons b rest ih => rw [alternate, alternate, List.count_cons, List.count_cons, ← ih]; omega

/-- A list of odd length that is repeated gives every other entry all of its own entries. -/
theorem count_alternate_twice [BEq A] (a : A) {entries : List A} (hodd : entries.length % 2 = 1) (more : List A) :
    (alternate false (entries ++ (entries ++ more))).count a = entries.count a + (alternate false more).count a := by
  have hhalves := count_alternate a entries
  simp only [alternate_append, hodd, decide_true, Bool.false_xor, Bool.true_xor, Bool.not_true, List.count_append]
  omega

/-- A list of even length gives every other entry the same half each time it is repeated. -/
theorem alternate_even (first : Bool) {entries : List A} (heven : entries.length % 2 = 0) (more : List A) :
    alternate first (entries ++ more) = alternate first entries ++ alternate first more := by
  rw [alternate_append, heven]
  simp

end Conveyor.Lib.RoundRobin
