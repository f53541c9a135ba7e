/- Unit: Mptsd/Lib/Sheet
   digest: Items written into strictly increasing places of a sheet that was blank. -/

import Mathlib.Data.List.Basic
import Mathlib.Tactic

set_option autoImplicit false
set_option relaxedAutoImplicit false

namespace Mptsd.Lib.Sheet

variable {α : Type*}

/-- `sheet` holds exactly `items`, each at its own place below `upto`, and blanks elsewhere. -/
structure Laid (blank : α) (items : List (ℕ × α)) (upto : ℕ) (sheet : List α) : Prop where
  below : ∀ x ∈ items, x.1 < upto
  increasing : (items.map Prod.fst).Pairwise (· < ·)
  placed : ∀ x ∈ items, sheet[x.1]? = some x.2
  untouched : ∀ k, k < sheet.length → (∀ x ∈ items, x.1 ≠ k) → sheet[k]? = some blank
  kept : ∀ p : α → Bool, p blank = false → sheet.filter p = (items.map Prod.snd).filter p

theorem laid_blank (blank : α) (size : ℕ) :
    Laid blank [] 0 (List.replicate size blank) where
  below := by simp
  increasing := by simp
  placed := by simp
  untouched := by
    intro k inside _
    simp_all
  kept := by
    intro p hidden
    simp [hidden]

variable {blank : α} {items : List (ℕ × α)} {upto : ℕ} {sheet : List α}

private theorem Laid.drop_blank (h : Laid blank items upto sheet) {s : ℕ} (behind : upto ≤ s) :
    sheet.drop s = List.replicate (sheet.length - s) blank := by
  apply List.eq_replicate_iff.mpr
  refine ⟨List.length_drop, ?_⟩
  intro a member
  obtain ⟨j, inside, rfl⟩ := List.mem_iff_getElem.mp member
  rw [List.length_drop] at inside
  have blank_there := h.untouched (s + j) (by omega) (by
    intro x hx
    have := h.below x hx
    omega)
  rw [List.getElem_drop]
  simpa [List.getElem?_eq_getElem (show s + j < sheet.length by omega)] using blank_there

theorem Laid.mono (h : Laid blank items upto sheet) {upto' : ℕ} (le : upto ≤ upto') :
    Laid blank items upto' sheet :=
  { h with below := fun x member => (h.below x member).trans_le le }

/-- Writing behind every earlier item adds that item and disturbs nothing else. -/
theorem Laid.put (h : Laid blank items upto sheet) {s : ℕ} (a : α) (behind : upto ≤ s)
    (inside : s < sheet.length) :
    Laid blank (items ++ [(s, a)]) (s + 1) (sheet.set s a) where
  below := by
    intro x hx
    rcases List.mem_append.mp hx with hx | hx
    · have := h.below x hx
      omega
    · obtain rfl := List.mem_singleton.mp hx
      exact Nat.lt_succ_self _
  increasing := by
    rw [List.map_append, List.pairwise_append]
    refine ⟨h.increasing, by simp, ?_⟩
    intro k hk j hj
    obtain ⟨x, hx, rfl⟩ := List.mem_map.mp hk
    have := h.below x hx
    simp only [List.map_cons, List.map_nil, List.mem_singleton] at hj
    omega
  placed := by
    intro x hx
    rcases List.mem_append.mp hx with hx | hx
    · have := h.below x hx
      rw [List.getElem?_set_ne (by omega)]
      exact h.placed x hx
    · obtain rfl := List.mem_singleton.mp hx
      simp [inside]
  untouched := by
    intro k hk free
    have ne : s ≠ k := free (s, a) (by simp)
    rw [List.getElem?_set_ne ne]
    exact h.untouched k (by simpa using hk) (fun x hx => free x (by simp [hx]))
  kept := by
    intro p hidden
    have rest : (sheet.drop s).filter p = [] := by
      simp [h.drop_blank behind, hidden]
    have after : (sheet.drop (s + 1)).filter p = [] := by
      simp [h.drop_blank (show upto ≤ s + 1 by omega), hidden]
    have before : (sheet.take s).filter p = (items.map Prod.snd).filter p := by
      have whole := h.kept p hidden
      rw [← List.take_append_drop s sheet, List.filter_append, rest, List.append_nil] at whole
      exact whole
    rw [List.set_eq_take_append_cons_drop, if_pos inside, List.filter_append, before,
      List.filter_cons, after, List.map_append, List.filter_append]
    simp [List.filter_cons]

end Mptsd.Lib.Sheet
