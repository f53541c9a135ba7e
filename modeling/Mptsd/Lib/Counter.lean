/- Unit: Mptsd/Lib/Counter
   digest: Sequences of counters that advance by one modulo `m`. -/

import Mathlib.Data.List.Chain
import Mathlib.Data.List.Range
import Mathlib.Tactic

set_option autoImplicit false
set_option relaxedAutoImplicit false

namespace Mptsd.Lib.Counter

/-- Every counter is the successor, modulo `m`, of the one before it. -/
def Cyclic (m : ℕ) (l : List ℕ) : Prop := l.IsChain (fun a b => b = (a + 1) % m)

/-- The `n` counters that follow from `start`. -/
def cyclicRun (m start n : ℕ) : List ℕ := (List.range n).map (fun j => (start + j) % m)

@[simp] theorem cyclicRun_zero (m start : ℕ) : cyclicRun m start 0 = [] := rfl

@[simp] theorem length_cyclicRun (m start n : ℕ) : (cyclicRun m start n).length = n := by
  simp [cyclicRun]

theorem cyclicRun_add (m start a b : ℕ) :
    cyclicRun m start (a + b) = cyclicRun m start a ++ cyclicRun m (start + a) b := by
  simp [cyclicRun, List.range_add, Function.comp_def, Nat.add_assoc]

theorem cyclicRun_succ (m start n : ℕ) :
    cyclicRun m start (n + 1) = start % m :: cyclicRun m (start + 1) n := by
  rw [Nat.add_comm, cyclicRun_add]
  rfl

theorem cyclicRun_mod (m start n : ℕ) : cyclicRun m (start % m) n = cyclicRun m start n := by
  simp [cyclicRun]

theorem cyclic_cyclicRun (m start n : ℕ) : Cyclic m (cyclicRun m start n) := by
  induction n with
  | zero => exact List.isChain_nil
  | succ n ih =>
      rw [cyclicRun_add]
      cases n with
      | zero => simp [cyclicRun, Cyclic]
      | succ n =>
          rw [cyclicRun_add, Cyclic, List.append_assoc]
          rw [cyclicRun_add] at ih
          simp only [Cyclic, cyclicRun, List.range_one, List.map_cons, List.map_nil] at ih ⊢
          rw [List.cons_append, List.nil_append, List.isChain_split]
          refine ⟨ih, ?_⟩
          simp [Nat.add_assoc]

/-- In a full round every value comes once. -/
theorem perm_cyclicRun (m start : ℕ) : (cyclicRun m start m).Perm (List.range m) := by
  have distinct : (cyclicRun m start m).Nodup := by
    apply List.Nodup.map_on _ List.nodup_range
    intro i hi j hj same
    have left := List.mem_range.mp hi
    have right := List.mem_range.mp hj
    have close : i ≡ j [MOD m] := Nat.ModEq.add_left_cancel' start same
    rwa [Nat.ModEq, Nat.mod_eq_of_lt left, Nat.mod_eq_of_lt right] at close
  have inside : cyclicRun m start m ⊆ List.range m := by
    intro x member
    obtain ⟨j, hj, rfl⟩ := List.mem_map.mp member
    have below := List.mem_range.mp hj
    exact List.mem_range.mpr (Nat.mod_lt _ (by omega))
  exact (List.subperm_of_subset distinct inside).perm_of_length_le (by simp)

theorem Cyclic.left {m : ℕ} {a b : List ℕ} (h : Cyclic m (a ++ b)) : Cyclic m a :=
  List.IsChain.left_of_append h

end Mptsd.Lib.Counter
