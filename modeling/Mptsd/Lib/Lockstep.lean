/- Unit: Mptsd/Lib/Lockstep
   digest: A machine that answers one item after the other, and two runs of it side by side. -/

import Mathlib.Data.List.Forall2
import Mathlib.Tactic

set_option autoImplicit false
set_option relaxedAutoImplicit false

namespace Mptsd.Lib.Lockstep

variable {σ α β γ : Type*}

/-- The answers to the items in order, and the state at the end. -/
def run (step : σ → α → β × σ) (s : σ) : List α → List β × σ
  | [] => ([], s)
  | a :: rest =>
      let first := step s a
      let others := run step first.2 rest
      (first.1 :: others.1, others.2)

theorem getElem?_run (step : σ → α → β × σ) (s : σ) (l : List α) (k : ℕ) :
    (run step s l).1[k]? = l[k]?.map fun a => (step (run step s (l.take k)).2 a).1 := by
  induction l generalizing s k with
  | nil => rfl
  | cons a rest ih =>
      cases k with
      | zero => rfl
      | succ k => exact ih (step s a).2 k

/-- What relates the states, and is kept by related steps with related answers, relates the runs. -/
theorem run_related (step step' : σ → α → β × σ) {R : σ → σ → Prop} {I : α → α → Prop}
    {O : β → β → Prop}
    (keeps : ∀ s t a b, R s t → I a b → O (step s a).1 (step' t b).1 ∧ R (step s a).2 (step' t b).2)
    {s t : σ} (start : R s t) {l m : List α} (items : List.Forall₂ I l m) :
    List.Forall₂ O (run step s l).1 (run step' t m).1 ∧ R (run step s l).2 (run step' t m).2 := by
  induction items generalizing s t with
  | nil => exact ⟨.nil, start⟩
  | cons head tail ih =>
      obtain ⟨answer, next⟩ := keeps _ _ _ _ start head
      obtain ⟨answers, last⟩ := ih next
      exact ⟨.cons answer answers, last⟩

theorem forall₂_view {view : α → γ} {l m : List α} :
    List.Forall₂ (fun a b => view a = view b) l m ↔ l.map view = m.map view := by
  rw [← List.forall₂_eq_eq_eq, List.forall₂_map_left_iff, List.forall₂_map_right_iff]

end Mptsd.Lib.Lockstep
