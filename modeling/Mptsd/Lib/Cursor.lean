/- Unit: Mptsd/Lib/Cursor
   digest: A cursor that is kept into a list from which elements are removed. -/

import Mathlib.Data.List.Nodup
import Mathlib.Tactic

set_option autoImplicit false
set_option relaxedAutoImplicit false

namespace Mptsd.Lib.Cursor

/-- A list of elements behind a root, and a cursor that stands on one of them or on the root. -/
structure Places (α : Type*) where
  root : α
  listed : List α
  cursor : α

/-- A change of the list or of the cursor. -/
inductive Change (α : Type*)
  | keep
  | move (a : α)
  | add (a : α)
  | remove (a : α)

namespace Places

variable {α : Type*} [DecidableEq α] (p : Places α)

/-- The elements are different from each other and from the root. -/
structure Sound : Prop where
  distinct : p.listed.Nodup
  root : p.root ∉ p.listed

/-- The cursor stands on the root or on an element of the list. -/
def Held : Prop := p.cursor = p.root ∨ p.cursor ∈ p.listed

instance : Decidable p.Held := inferInstanceAs (Decidable (_ ∨ _))

/-- The cursor is moved from a place it stands on to another, new elements are added, and elements
of the list are removed. -/
def Allowed : Change α → Prop
  | .keep => True
  | .move a => p.Held ∧ (a = p.root ∨ a ∈ p.listed)
  | .add a => a ≠ p.root ∧ a ∉ p.listed
  | .remove a => a ∈ p.listed

def apply : Change α → Places α
  | .keep => p
  | .move a => { p with cursor := a }
  | .add a => { p with listed := p.listed ++ [a] }
  | .remove a => { p with listed := p.listed.erase a }

/-- The places after each of these changes. -/
def after (p : Places α) : List (Change α) → List (Places α)
  | [] => []
  | c :: rest => p.apply c :: (p.apply c).after rest

def Legal (p : Places α) : List (Change α) → Prop
  | [] => True
  | c :: rest => p.Allowed c ∧ (p.apply c).Legal rest

/-- No change removes the element that the cursor stands on. -/
def Spared (p : Places α) : List (Change α) → Prop
  | [] => True
  | c :: rest => c ≠ .remove p.cursor ∧ (p.apply c).Spared rest

variable {p} {c : Change α}

theorem Sound.apply (sound : p.Sound) (allowed : p.Allowed c) : (p.apply c).Sound := by
  cases c with
  | keep => exact sound
  | move a => exact ⟨sound.distinct, sound.root⟩
  | add a =>
      refine ⟨?_, ?_⟩
      · exact List.nodup_append.mpr ⟨sound.distinct, List.nodup_singleton a, by
          rintro x listed y single rfl
          exact allowed.2 (List.mem_singleton.mp single ▸ listed)⟩
      · intro member
        rcases List.mem_append.mp member with old | new
        · exact sound.root old
        · exact allowed.1 (List.mem_singleton.mp new).symm
  | remove a =>
      exact ⟨sound.distinct.erase a, fun member => sound.root (List.mem_of_mem_erase member)⟩

private theorem Held.apply_iff (held : p.Held) (sound : p.Sound) (allowed : p.Allowed c) :
    (p.apply c).Held ↔ c ≠ .remove p.cursor := by
  cases c with
  | keep => exact iff_of_true held (by simp)
  | move a => exact iff_of_true allowed.2 (by simp)
  | add a =>
      refine iff_of_true ?_ (by simp)
      rcases held with root | listed
      · exact Or.inl root
      · exact Or.inr (List.mem_append_left _ listed)
  | remove a =>
      have listed : a ∈ p.listed := allowed
      have same : Change.remove a ≠ Change.remove p.cursor ↔ p.cursor ≠ a := by
        simp [eq_comm]
      rw [same]
      show p.cursor = p.root ∨ p.cursor ∈ p.listed.erase a ↔ _
      rw [sound.distinct.mem_erase_iff]
      constructor
      · rintro (root | ⟨other, -⟩) rfl
        · exact sound.root (root ▸ listed)
        · exact other rfl
      · intro other
        exact held.imp id fun member => ⟨other, member⟩

/-- The cursor stands on the list all the time exactly when the element under it is never
removed. -/
theorem held_after_iff (sound : p.Sound) (held : p.Held) {changes : List (Change α)}
    (legal : p.Legal changes) : (∀ q ∈ p.after changes, q.Held) ↔ p.Spared changes := by
  induction changes generalizing p with
  | nil => simp [after, Spared]
  | cons c rest ih =>
      have one := held.apply_iff sound legal.1
      rw [after, List.forall_mem_cons, Spared, ← one]
      constructor
      · rintro ⟨stands, later⟩
        exact ⟨stands, (ih (sound.apply legal.1) stands legal.2).mp later⟩
      · rintro ⟨stands, later⟩
        exact ⟨stands, (ih (sound.apply legal.1) stands legal.2).mpr later⟩

end Places

end Mptsd.Lib.Cursor
