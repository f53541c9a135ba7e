/- Unit: Mptsd/Lib/Ledger
   source: none
   digest: A ledger of the addresses handed out so far: each is owned once, or was freed once. -/

import Mathlib.Data.List.Nodup
import Mathlib.Data.List.Range
import Mathlib.Data.List.Perm.Basic
import Mathlib.Tactic.Tauto

set_option autoImplicit false
set_option relaxedAutoImplicit false

namespace Mptsd.Lib.Ledger

/-- Every address below `next` stands exactly once in one of the two lists, and no other does. -/
structure Balanced (owned freed : List ℕ) (next : ℕ) : Prop where
  perm : (owned ++ freed).Perm (List.range next)

variable {owned owned' moved freed : List ℕ} {next a : ℕ}

namespace Balanced

theorem nil : Balanced [] [] 0 := ⟨List.Perm.refl _⟩

private theorem nodup (h : Balanced owned freed next) : (owned ++ freed).Nodup :=
  h.perm.nodup_iff.mpr List.nodup_range

theorem nodup_freed (h : Balanced owned freed next) : freed.Nodup :=
  (List.nodup_append.mp h.nodup).2.1

theorem nodup_owned (h : Balanced owned freed next) : owned.Nodup :=
  (List.nodup_append.mp h.nodup).1

private theorem mem_iff (h : Balanced owned freed next) : a ∈ owned ∨ a ∈ freed ↔ a < next := by
  rw [← List.mem_append, h.perm.mem_iff, List.mem_range]

private theorem not_freed (h : Balanced owned freed next) (member : a ∈ owned) : a ∉ freed := by
  intro gone
  exact (List.nodup_append.mp h.nodup).2.2 a member a gone rfl

theorem mem_owned_iff (h : Balanced owned freed next) : a ∈ owned ↔ a < next ∧ a ∉ freed := by
  constructor
  · intro member
    exact ⟨h.mem_iff.mp (Or.inl member), h.not_freed member⟩
  · rintro ⟨below, kept⟩
    exact (h.mem_iff.mpr below).resolve_right kept

theorem count_owned (h : Balanced owned freed next) (below : a < next) (kept : a ∉ freed) :
    owned.count a = 1 :=
  List.count_eq_one_of_mem h.nodup_owned (h.mem_owned_iff.mpr ⟨below, kept⟩)

theorem congr (h : Balanced owned freed next) (same : owned'.Perm owned) :
    Balanced owned' freed next :=
  ⟨(same.append_right freed).trans h.perm⟩

/-- The next `n` addresses are handed out. -/
theorem alloc (h : Balanced owned freed next) (n : ℕ) :
    Balanced (List.range' next n ++ owned) freed (next + n) := by
  refine ⟨?_⟩
  have split : List.range (next + n) = List.range next ++ List.range' next n := by
    rw [List.range_eq_range', List.range_eq_range', ← List.range'_append_1, Nat.zero_add]
  rw [split, List.append_assoc]
  exact List.perm_append_comm.trans (h.perm.append_right _)

/-- A part of what is owned is freed. -/
theorem free (h : Balanced (moved ++ owned) freed next) : Balanced owned (freed ++ moved) next := by
  refine ⟨List.Perm.trans ?_ h.perm⟩
  rw [← List.append_assoc]
  exact List.perm_append_comm.trans (by rw [List.append_assoc])

end Balanced

end Mptsd.Lib.Ledger
