/- Unit: Mptsd/Lib/Periodic
   digest: A timer that is looked at now and then, and how often it goes off. -/

import Mathlib.Data.List.Chain
import Mathlib.Tactic

set_option autoImplicit false
set_option relaxedAutoImplicit false

namespace Mptsd.Lib.Periodic

/-- When a timer went off last, and how often it has. -/
structure Timer where
  last : ℕ
  fired : ℕ

/-- It goes off whenever its period has gone by since the last time. -/
def Timer.look (period : ℕ) (t : Timer) (now : ℕ) : Timer :=
  if period ≤ now - t.last then ⟨now, t.fired + 1⟩ else t

/-- The second look follows the first, not more than `step` later. -/
def Within (step a b : ℕ) : Prop := a ≤ b ∧ b ≤ a + step

/-- The state of a timer that was set at `start` and looked at until `time`. -/
structure Paced (period step start time : ℕ) (t : Timer) : Prop where
  past : t.last ≤ time
  fresh : time ≤ t.last + period
  slow : start + t.fired * period ≤ t.last
  quick : t.last ≤ start + t.fired * (period + step)

variable {period step start time : ℕ} {t : Timer}

theorem Paced.look (h : Paced period step start time t) {now : ℕ} (next : Within step time now) :
    Paced period step start now (t.look period now) := by
  obtain ⟨past, fresh, slow, quick⟩ := h
  obtain ⟨later, soon⟩ := next
  rw [Timer.look]
  split_ifs with due
  · refine ⟨le_rfl, Nat.le_add_right _ _, ?_, ?_⟩
    · change start + (t.fired + 1) * period ≤ now
      rw [Nat.succ_mul]
      omega
    · change now ≤ start + (t.fired + 1) * (period + step)
      rw [Nat.succ_mul]
      omega
  · exact ⟨past.trans later, by omega, slow, quick⟩

private theorem Paced.looks (h : Paced period step start time t) {looks : List ℕ}
    (chain : (time :: looks).IsChain (Within step)) :
    Paced period step start (looks.getLastD time) (looks.foldl (Timer.look period) t) := by
  induction looks generalizing time t with
  | nil => exact h
  | cons now rest ih =>
      obtain ⟨next, later⟩ := List.isChain_cons_cons.mp chain
      rw [List.foldl_cons, List.getLastD_cons]
      exact ih (h.look next) later

/-- Between two times a timer goes off about once every period: not more often, and less often only
by what the looks come late. -/
theorem fired_bounds {looks : List ℕ} (chain : (start :: looks).IsChain (Within step)) :
    (looks.foldl (Timer.look period) ⟨start, 0⟩).fired * period ≤ looks.getLastD start - start ∧
      looks.getLastD start - start ≤
        (looks.foldl (Timer.look period) ⟨start, 0⟩).fired * (period + step) + period := by
  have new : Paced period step start start ⟨start, 0⟩ := by
    refine ⟨le_rfl, Nat.le_add_right _ _, ?_, ?_⟩ <;> simp
  obtain ⟨past, fresh, slow, quick⟩ := new.looks chain
  constructor <;> omega

end Mptsd.Lib.Periodic
