import Mathlib.Algebra.Ring.Int.Defs
import Mathlib.Algebra.BigOperators.Group.List.Basic
import Mathlib.Algebra.Order.BigOperators.Group.List

/-!
# Messages in transit

Messages that may be delivered in any order form a bag, kept as a list. A delivery takes the message
at some position out of it. What is counted or weighed over a bag does not depend on the order.
-/

namespace Conveyor.Lib

variable {A : Type}

/-- Take the message at a position out of a bag. -/
def takeAt (bag : List A) (index : Nat) : Option (A × List A) :=
  bag[index]?.map fun a => (a, bag.eraseIdx index)

variable {bag : List A} {index : Nat} {a : A}

/-- The message taken out and the rest make up the bag. -/
theorem takeAt_perm {rest : List A} (h : takeAt bag index = some (a, rest)) : bag.Perm (a :: rest) := by
  obtain ⟨b, hb, heq⟩ := Option.map_eq_some_iff.mp h
  obtain ⟨hlt, rfl⟩ := List.getElem?_eq_some_iff.mp hb
  cases heq
  exact (List.getElem_cons_eraseIdx_perm hlt).symm

/-- The messages that stay are messages of the bag. -/
theorem mem_of_takeAt {rest : List A} (h : takeAt bag index = some (a, rest)) {b : A} (hb : b ∈ rest) : b ∈ bag :=
  (takeAt_perm h).mem_iff.mpr (.tail a hb)

/-- The message taken out is a message of the bag. -/
theorem taken_mem {rest : List A} (h : takeAt bag index = some (a, rest)) : a ∈ bag :=
  (takeAt_perm h).mem_iff.mpr (.head _)

/-- One if the condition holds. -/
def indicator (p : Prop) [Decidable p] : Int := if p then 1 else 0

theorem indicator_nonneg (p : Prop) [Decidable p] : 0 ≤ indicator p := by
  unfold indicator
  split <;> omega

variable {p : Prop}

theorem indicator_pos_iff [Decidable p] : 0 < indicator p ↔ p := by
  unfold indicator
  split <;> simp_all

@[simp] theorem indicator_true [Decidable p] (h : p) : indicator p = 1 := if_pos h

@[simp] theorem indicator_false [Decidable p] (h : ¬p) : indicator p = 0 := if_neg h

/-- The total weight of a bag. -/
def weigh (weight : A → Int) (bag : List A) : Int := (bag.map weight).sum

@[simp] theorem weigh_nil (weight : A → Int) : weigh weight [] = 0 := rfl

@[simp] theorem weigh_cons (weight : A → Int) (a : A) (bag : List A) :
    weigh weight (a :: bag) = weight a + weigh weight bag := by simp [weigh]

@[simp] theorem weigh_append (weight : A → Int) (bag more : List A) :
    weigh weight (bag ++ more) = weigh weight bag + weigh weight more := by simp [weigh]

/-- Taking a message out of a bag takes its weight out. -/
theorem weigh_takeAt {rest : List A} (h : takeAt bag index = some (a, rest))
    (weight : A → Int) : weigh weight bag = weight a + weigh weight rest := by
  rw [← weigh_cons]
  exact ((takeAt_perm h).map weight).sum_eq

variable {B : Type}

/-- Weighing the messages some of which are sorted out. -/
theorem weigh_filterMap (f : A → Option B) (weight : B → Int) (bag : List A) :
    weigh weight (bag.filterMap f) = weigh (fun a => ((f a).map weight).getD 0) bag := by
  induction bag with
  | nil => rfl
  | cons a rest ih => cases h : f a <;> simp [h, ih]

/-- Weighing what the messages are mapped to. -/
theorem weigh_map (f : A → B) (weight : B → Int) (bag : List A) :
    weigh weight (bag.map f) = weigh (fun a => weight (f a)) bag := by
  simp [weigh, Function.comp_def]

/-- Changing one entry of a list shows in no view that the change keeps. -/
theorem map_modify_of_view {f : A → B} {change : A → A} (h : ∀ a, f (change a) = f a)
    (index : Nat) (entries : List A) : (entries.modify index change).map f = entries.map f := by
  induction entries generalizing index with
  | nil => cases index <;> rfl
  | cons a rest ih =>
    cases index with
    | zero => simp [h]
    | succ n => simp [ih]

theorem weigh_add (weight weight' : A → Int) (bag : List A) :
    weigh (fun a => weight a + weight' a) bag = weigh weight bag + weigh weight' bag := List.sum_map_add

/-- Two totals can be taken in either order. -/
theorem weigh_swap (weight : A → B → Int) (bag : List A) (other : List B) :
    weigh (fun a => weigh (weight a) other) bag = weigh (fun b => weigh (weight · b) bag) other := by
  induction bag with
  | nil => simp [weigh]
  | cons a rest ih =>
    simp only [weigh_cons, ih, weigh_add]

variable {weight : A → Int}

theorem weigh_mono {weight' : A → Int} (h : ∀ a ∈ bag, weight a ≤ weight' a) : weigh weight bag ≤ weigh weight' bag :=
  List.sum_le_sum h

theorem weigh_congr {weight' : A → Int} (h : ∀ a ∈ bag, weight a = weight' a) : weigh weight bag = weigh weight' bag :=
  congrArg List.sum (List.map_congr_left h)

/-- A bag of weightless messages weighs nothing. -/
theorem weigh_eq_zero (h : ∀ a ∈ bag, weight a = 0) : weigh weight bag = 0 :=
  List.sum_eq_zero (List.forall_mem_map.mpr h)

/-- A bag of messages without negative weights has none either. -/
theorem weigh_nonneg (bag : List A) (h : ∀ a ∈ bag, 0 ≤ weight a) : 0 ≤ weigh weight bag :=
  List.sum_nonneg (List.forall_mem_map.mpr h)

/-- A message weighs at most as much as its bag when no weight is negative. -/
theorem le_weigh_of_mem (hweight : ∀ a, 0 ≤ weight a) (ha : a ∈ bag) : weight a ≤ weigh weight bag := by
  obtain ⟨before, after, rfl⟩ := List.append_of_mem ha
  have hbefore := weigh_nonneg before fun b _ => hweight b
  have hafter := weigh_nonneg after fun b _ => hweight b
  simp only [weigh_append, weigh_cons]
  omega

/-- Two messages of weight one in a bag that weighs at most one are the same. -/
theorem eq_of_weigh_le_one (hweight : ∀ a, 0 ≤ weight a) (hle : weigh weight bag ≤ 1)
    {b : A} (ha : a ∈ bag) (hb : b ∈ bag) (hwa : weight a = 1) (hwb : weight b = 1) : a = b := by
  obtain ⟨before, after, rfl⟩ := List.append_of_mem ha
  rw [weigh_append, weigh_cons, hwa] at hle
  have hbefore := weigh_nonneg before fun b _ => hweight b
  have hafter := weigh_nonneg after fun b _ => hweight b
  rcases List.mem_append.mp hb with hin | hin
  · have := le_weigh_of_mem hweight hin
    omega
  · rcases List.mem_cons.mp hin with rfl | hin
    · rfl
    · have := le_weigh_of_mem hweight hin
      omega

/-- A bag with weight holds a message with weight. -/
theorem exists_mem_of_weigh_pos (h : 0 < weigh weight bag) : ∃ a ∈ bag, 0 < weight a := by
  induction bag with
  | nil => cases h
  | cons a rest ih =>
    rw [weigh_cons] at h
    by_cases ha : 0 < weight a
    · exact ⟨a, .head _, ha⟩
    · obtain ⟨b, hb, hpos⟩ := ih (by omega)
      exact ⟨b, .tail a hb, hpos⟩

end Conveyor.Lib
