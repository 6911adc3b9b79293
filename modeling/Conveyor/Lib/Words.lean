import Mathlib.Algebra.Ring.Int.Defs
import Mathlib.Algebra.Order.BigOperators.Group.List
import Mathlib.Algebra.Order.Group.Int

/-!
# Sums in fixed-width arithmetic

A sum, a difference or a whole column of machine integers is that of the integers as long as it fits.
-/

namespace Conveyor.Lib

theorem toInt_add_of_fits {a b : Int32} (hlow : -2 ^ 31 ≤ a.toInt + b.toInt) (hhigh : a.toInt + b.toInt < 2 ^ 31) :
    (a + b).toInt = a.toInt + b.toInt := by
  rw [Int32.toInt_add]
  refine Int.bmod_eq_of_le ?_ ?_ <;> omega

theorem toInt_sub_of_fits {a b : Int32} (hlow : -2 ^ 31 ≤ a.toInt - b.toInt) (hhigh : a.toInt - b.toInt < 2 ^ 31) :
    (a - b).toInt = a.toInt - b.toInt := by
  rw [Int32.toInt_sub]
  refine Int.bmod_eq_of_le ?_ ?_ <;> omega

section Columns

variable {A : Type} (l : List A)

/-- Numbers that are not negative add up in 32 bits as long as their sum fits. -/
theorem toInt_foldl_add32 (f : A → Int32) (hnonneg : ∀ a ∈ l, 0 ≤ (f a).toInt) {total : Int32}
    (htotal : 0 ≤ total.toInt) (hfits : total.toInt + (l.map fun a => (f a).toInt).sum < 2 ^ 31) :
    (l.foldl (fun total a => total + f a) total).toInt = total.toInt + (l.map fun a => (f a).toInt).sum := by
  induction l generalizing total with
  | nil => simp
  | cons a rest ih =>
    obtain ⟨hfirst, hrest⟩ := List.forall_mem_cons.mp hnonneg
    have hsum := List.sum_nonneg (List.forall_mem_map.mpr hrest)
    rw [List.map_cons, List.sum_cons] at hfits ⊢
    have hadd : (total + f a).toInt = total.toInt + (f a).toInt := toInt_add_of_fits (by omega) (by omega)
    rw [List.foldl_cons, ih hrest (by omega) (by omega), hadd, add_assoc]

end Columns

end Conveyor.Lib
