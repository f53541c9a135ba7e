/- Unit: Mptsd/Lib/Arc
   digest: Arcs of a linear order closed to a circle, with one end or the other left out. -/

import Mathlib.Order.Interval.Set.LinearOrder
import Mathlib.Tactic

set_option autoImplicit false
set_option relaxedAutoImplicit false

namespace Mptsd.Lib.Arc

variable {α : Type*} [LinearOrder α]

/-- From `a` on up to `b`, past the top of the order when `b` comes before `a`: the start belongs
to it, the end does not. -/
def arcCO (a b : α) : Set α := if a ≤ b then Set.Ico a b else (Set.Ico b a)ᶜ

/-- The same arc with its end and without its start. -/
def arcOC (a b : α) : Set α := if a ≤ b then Set.Ioc a b else (Set.Ioc b a)ᶜ

variable {a b x : α}

theorem mem_arcCO_of_le (le : a ≤ b) : x ∈ arcCO a b ↔ a ≤ x ∧ x < b := by
  rw [arcCO, if_pos le, Set.mem_Ico]

private theorem mem_arcCO_of_lt (lt : b < a) : x ∈ arcCO a b ↔ a ≤ x ∨ x < b := by
  rw [arcCO, if_neg (not_le.mpr lt), Set.mem_compl_iff, Set.mem_Ico, not_and_or, not_le, not_lt,
    or_comm]

theorem mem_arcOC_of_lt (lt : b < a) : x ∈ arcOC a b ↔ a < x ∨ x ≤ b := by
  rw [arcOC, if_neg (not_le.mpr lt), Set.mem_compl_iff, Set.mem_Ioc, not_and_or, not_le, not_lt,
    or_comm]

instance (a b : α) : DecidablePred (· ∈ arcCO a b) := fun _ =>
  if le : a ≤ b then decidable_of_iff _ (mem_arcCO_of_le le).symm
  else decidable_of_iff _ (mem_arcCO_of_lt (not_le.mp le)).symm

private theorem arcCO_swap (ne : a ≠ b) : arcCO b a = (arcCO a b)ᶜ := by
  rcases lt_or_gt_of_ne ne with lt | gt
  · rw [arcCO, arcCO, if_neg (not_le.mpr lt), if_pos lt.le]
  · rw [arcCO, arcCO, if_pos gt.le, if_neg (not_le.mpr gt), compl_compl]

private theorem arcOC_swap (ne : a ≠ b) : arcOC b a = (arcOC a b)ᶜ := by
  rcases lt_or_gt_of_ne ne with lt | gt
  · rw [arcOC, arcOC, if_neg (not_le.mpr lt), if_pos lt.le]
  · rw [arcOC, arcOC, if_pos gt.le, if_neg (not_le.mpr gt), compl_compl]

/-- Every point of the circle is in exactly one of them. -/
theorem xor_mem_arcCO (ne : a ≠ b) (x : α) : Xor (x ∈ arcCO a b) (x ∈ arcCO b a) := by
  rw [arcCO_swap ne, Set.mem_compl_iff]
  exact xor_not_right.mpr Iff.rfl

private theorem mem_Ioc_iff_mem_Ico (lt : a < b) (x : α) :
    (x ∈ Set.Ioc a b ↔ x ∈ Set.Ico a b) ↔ x ≠ a ∧ x ≠ b := by
  rw [Set.mem_Ioc, Set.mem_Ico]
  constructor
  · intro same
    constructor
    · rintro rfl
      exact absurd (same.mpr ⟨le_rfl, lt⟩).1 (lt_irrefl x)
    · rintro rfl
      exact absurd (same.mp ⟨lt, le_rfl⟩).2 (lt_irrefl x)
  · rintro ⟨first, last⟩
    exact and_congr ⟨le_of_lt, fun le => lt_of_le_of_ne le first.symm⟩
      ⟨fun le => lt_of_le_of_ne le last, le_of_lt⟩

/-- Which end is left out shows at the ends only. -/
theorem mem_arcOC_iff_mem_arcCO (ne : a ≠ b) (x : α) :
    (x ∈ arcOC a b ↔ x ∈ arcCO a b) ↔ x ≠ a ∧ x ≠ b := by
  rcases lt_or_gt_of_ne ne with lt | gt
  · rw [arcOC, arcCO, if_pos lt.le, if_pos lt.le]
    exact mem_Ioc_iff_mem_Ico lt x
  · rw [arcOC_swap ne.symm, arcCO_swap ne.symm, Set.mem_compl_iff, Set.mem_compl_iff,
      not_iff_not, arcOC, arcCO, if_pos gt.le, if_pos gt.le, and_comm]
    exact mem_Ioc_iff_mem_Ico gt x

end Mptsd.Lib.Arc
