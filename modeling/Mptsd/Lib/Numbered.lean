/- Unit: Mptsd/Lib/Numbered
   source: none
   digest: Items that get a number modulo `m` before it is known whether they are kept: the numbers
   of the kept ones advance by one exactly when what was lost in between is a multiple of `m`. -/

import Mptsd.Lib.Counter

set_option autoImplicit false
set_option relaxedAutoImplicit false

namespace Mptsd.Lib.Numbered

open Mptsd.Lib.Counter (Cyclic cyclicRun)

variable {α : Type*}

/-- How many items have been numbered, and those that were kept with their place among all. -/
structure Notes (α : Type*) where
  numbered : ℕ
  kept : List (α × ℕ)

namespace Notes

def start : Notes α := ⟨0, []⟩

/-- The items of `data` are numbered; those of `stored` are kept. -/
def hand (n : Notes α) (data stored : List α) : Notes α where
  numbered := n.numbered + data.length
  kept := n.kept ++ stored.zipIdx n.numbered

end Notes

/-- Every kept item shows the low part of its place, counted from `first`. -/
structure Shown (value : α → ℕ) (m first : ℕ) (n : Notes α) : Prop where
  values : ∀ x ∈ n.kept, value x.1 = (first + x.2) % m
  increasing : (n.kept.map Prod.snd).Pairwise (· < ·)
  below : ∀ x ∈ n.kept, x.2 < n.numbered

variable {value : α → ℕ} {m first : ℕ} {n : Notes α} {data stored : List α}

theorem shown_start : Shown value m first (Notes.start : Notes α) :=
  ⟨List.forall_mem_nil _, List.Pairwise.nil, List.forall_mem_nil _⟩

theorem Shown.hand (h : Shown value m first n)
    (shows : data.map value = cyclicRun m (first + n.numbered) data.length)
    (whole : stored = data ∨ stored = []) : Shown value m first (n.hand data stored) := by
  rcases whole with rfl | rfl
  · refine ⟨?_, ?_, ?_⟩
    · intro x member
      rcases List.mem_append.mp member with old | new
      · exact h.values x old
      · obtain ⟨low, inside, item⟩ := List.mem_zipIdx new
        have place := congrArg (fun l => l[x.2 - n.numbered]?) shows
        simp only [List.getElem?_map, cyclicRun] at place
        rw [List.getElem?_eq_getElem (by omega), List.getElem?_eq_getElem (by simp; omega)] at place
        simp only [Option.map_some, List.getElem_range, Option.some.injEq] at place
        rw [item, place]
        congr 1
        omega
    · rw [Notes.hand, List.map_append, List.zipIdx_map_snd, List.pairwise_append]
      refine ⟨h.increasing, List.pairwise_lt_range', ?_⟩
      intro a old b new
      obtain ⟨x, member, rfl⟩ := List.mem_map.mp old
      have := h.below x member
      rw [List.mem_range'_1] at new
      omega
    · intro x member
      rcases List.mem_append.mp member with old | new
      · exact Nat.lt_of_lt_of_le (h.below x old) (Nat.le_add_right _ _)
      · obtain ⟨-, inside, -⟩ := List.mem_zipIdx new
        simpa [Notes.hand] using inside
  · have same : (n.hand data []).kept = n.kept := by simp [Notes.hand]
    refine ⟨?_, ?_, ?_⟩
    · rw [same]
      exact h.values
    · rw [same]
      exact h.increasing
    · rw [same]
      exact fun x member => Nat.lt_of_lt_of_le (h.below x member) (Nat.le_add_right _ _)

/-- The kept items advance by one exactly when every gap between them is a multiple of `m`. -/
theorem Shown.cyclic_iff (h : Shown value m first n) :
    Cyclic m (n.kept.map fun x => value x.1) ↔
      n.kept.IsChain fun a b => m ∣ b.2 - a.2 - 1 := by
  rw [Cyclic]
  rw [List.isChain_map, List.isChain_iff_forall_rel_of_append_cons_cons,
    List.isChain_iff_forall_rel_of_append_cons_cons]
  refine forall₄_congr fun a b l₁ l₂ => forall_congr' fun split => ?_
  have memberA : a ∈ n.kept := by simp [split]
  have memberB : b ∈ n.kept := by simp [split]
  have less : a.2 < b.2 := by
    have increasing := h.increasing
    rw [split, List.map_append, List.pairwise_append] at increasing
    exact (List.pairwise_cons.mp increasing.2.1).1 b.2 (by simp)
  rw [h.values a memberA, h.values b memberB, Nat.mod_add_mod]
  obtain ⟨gap, place⟩ := Nat.exists_eq_add_of_lt less
  rw [place, show a.2 + gap + 1 - a.2 - 1 = gap by omega,
    show first + (a.2 + gap + 1) = gap + (first + a.2 + 1) by omega]
  constructor
  · intro same
    exact Nat.modEq_zero_iff_dvd.mp (Nat.ModEq.add_right_cancel' (first + a.2 + 1)
      (by rw [Nat.zero_add]; exact same))
  · intro divides
    exact Nat.ModEq.trans (Nat.ModEq.add_right _ (Nat.modEq_zero_iff_dvd.mpr divides))
      (by rw [Nat.zero_add])

end Mptsd.Lib.Numbered
