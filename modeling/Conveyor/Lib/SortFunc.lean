import Mathlib.Data.List.Sort

/-!
# Sorting a slice by a three-way comparison

The standard library sorts short slices by insertion from left to right, moving an element left
while the comparison against its left neighbour is negative. Longer slices use another algorithm
with the same documented result, so for a consistent comparison that separates distinct elements
the two agree; `sortFunc` is the insertion sort.
-/

namespace Conveyor.Lib

variable {A : Type}

/-- Sort by a comparison whose negative results mean "comes before". -/
def sortFunc (cmp : A → A → Int) (values : List A) : List A :=
  (values.reverse.insertionSort (fun a b => ¬ cmp a b < 0)).reverse

/-- Sorting only rearranges, whatever the comparison does. -/
theorem sortFunc_perm (cmp : A → A → Int) (values : List A) : (sortFunc cmp values).Perm values :=
  (List.reverse_perm _).trans
    ((List.perm_insertionSort _ _).trans (List.reverse_perm values))

/-- The elements of the sorted slice. -/
theorem mem_sortFunc (cmp : A → A → Int) (values : List A) (a : A) :
    a ∈ sortFunc cmp values ↔ a ∈ values := (sortFunc_perm cmp values).mem_iff

/-- A comparison that orders the given elements by a key sorts them by it. -/
theorem sortFunc_pairwise {K : Type} [LinearOrder K] (key : A → K) {cmp : A → A → Int} {values : List A}
    (hcmp : ∀ a ∈ values, ∀ b ∈ values, cmp a b < 0 ↔ key a < key b) :
    (sortFunc cmp values).Pairwise fun a b => key a ≤ key b := by
  have hagree : ∀ a ∈ values.reverse, ∀ b ∈ values.reverse, ¬ cmp a b < 0 ↔ key (id b) ≤ key (id a) := by
    intro a ha b hb
    rw [hcmp a (List.mem_reverse.mp ha) b (List.mem_reverse.mp hb), not_lt, id, id]
  have hsorted := List.map_insertionSort (fun a b => ¬ cmp a b < 0) (fun a b => key b ≤ key a) id values.reverse hagree
  rw [List.map_id, List.map_id] at hsorted
  rw [sortFunc, hsorted, List.pairwise_reverse]
  have : Std.Total fun a b : A => key b ≤ key a := ⟨fun a b => le_total (key b) (key a)⟩
  have : IsTrans A fun a b => key b ≤ key a := ⟨fun a b c hab hbc => hbc.trans hab⟩
  exact List.pairwise_insertionSort _ _

/-- An element that compares before its left neighbour at the start of the slice ends left of it, whatever the
comparison says of the other elements. -/
theorem sortFunc_swaps (cmp : A → A → Int) {a b : A} (hcmp : cmp b a < 0) (rest : List A) :
    [b, a].Sublist (sortFunc cmp (a :: b :: rest)) := by
  have hpair : [a, b] = [b, a].insertionSort (fun a b => ¬ cmp a b < 0) := by
    simp [List.insertionSort, hcmp]
  have hkept : ∀ later : List A, [a, b].Sublist ((later ++ [b, a]).insertionSort fun a b => ¬ cmp a b < 0) := by
    intro later
    induction later with
    | nil => rw [hpair, List.nil_append]
    | cons c later ih => exact ih.trans (List.sublist_orderedInsert _ _)
  have hsorted := (hkept rest.reverse).reverse
  rwa [show rest.reverse ++ [b, a] = (a :: b :: rest).reverse by simp] at hsorted

/-- Sorting the images under a comparison that reads through the map. -/
theorem sortFunc_map {B : Type} (g : A → B) {cmp : A → A → Int} {cmp' : B → B → Int}
    (hcmp : ∀ a b, cmp' (g a) (g b) = cmp a b) (values : List A) :
    sortFunc cmp' (values.map g) = (sortFunc cmp values).map g := by
  have hsorted := List.map_insertionSort (fun a b => ¬ cmp a b < 0) (fun a b => ¬ cmp' a b < 0) g values.reverse
    fun a _ b _ => by rw [hcmp]
  rw [sortFunc, sortFunc, List.map_reverse, hsorted, List.map_reverse]

end Conveyor.Lib
