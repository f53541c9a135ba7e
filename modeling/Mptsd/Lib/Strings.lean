/- Unit: Mptsd/Lib/Strings
   digest: Texts that end at the first NUL, and a buffer that is cut into several of them by
   writing NULs into it. -/

import Mathlib.Data.List.TakeWhile
import Mathlib.Tactic

set_option autoImplicit false
set_option relaxedAutoImplicit false

namespace Mptsd.Lib.Strings

/-- The character that ends a text. -/
def nul : Char := Char.ofNat 0

/-- A text of the language C. -/
abbrev CString := { text : List Char // nul ∉ text }

/-- The text that starts at the front of some memory. -/
def readString (memory : List Char) : CString where
  val := memory.takeWhile (fun c => c ≠ nul)
  property := by
    intro member
    have other := List.mem_takeWhile_imp member
    simp at other

/-- A copy of a text, with NULs written into it at some places. -/
def terminate (text : CString) (places : List ℕ) : List Char :=
  places.foldl (fun memory place => memory.set place nul) (text.1 ++ [nul])

variable {text : CString} {places : List ℕ} {start stop : ℕ}

private theorem length_terminate : (terminate text places).length = text.1.length + 1 := by
  have keeps : ∀ memory : List Char,
      (places.foldl (fun memory place => memory.set place nul) memory).length = memory.length := by
    induction places with
    | nil => exact fun _ => rfl
    | cons place places ih => exact fun memory => (ih _).trans List.length_set
  rw [terminate, keeps, List.length_append, List.length_singleton]

private theorem getElem?_terminate {j : ℕ} (inside : j ≤ text.1.length) :
    (terminate text places)[j]? = if j ∈ places then some nul else (text.1 ++ [nul])[j]? := by
  have written : ∀ memory : List Char, j < memory.length →
      (places.foldl (fun memory place => memory.set place nul) memory)[j]? =
        if j ∈ places then some nul else memory[j]? := by
    induction places with
    | nil => exact fun _ _ => rfl
    | cons place places ih =>
        intro memory below
        rw [List.foldl_cons, ih _ (by rwa [List.length_set])]
        by_cases same : place = j
        · subst same
          simp [below]
        · simp [List.getElem?_set_ne same, Ne.symm same]
  exact written _ (by simp; omega)

/-- From any place the text goes on to the first NUL written at this place or behind it. -/
theorem readString_terminate (le : start ≤ stop) (inside : stop ≤ text.1.length)
    (written : stop ∈ places) (first : ∀ place ∈ places, start ≤ place → stop ≤ place) :
    (readString ((terminate text places).drop start)).1 =
      (text.1.drop start).take (stop - start) := by
  have front : ((terminate text places).drop start).take (stop - start) =
      (text.1.drop start).take (stop - start) := by
    apply List.ext_getElem?
    intro j
    rw [List.getElem?_take, List.getElem?_take]
    split_ifs with below
    · have untouched : start + j ∉ places := by
        intro place
        have behind := first _ place (by omega)
        omega
      rw [List.getElem?_drop, List.getElem?_drop, getElem?_terminate (by omega),
        if_neg untouched, List.getElem?_append_left (by omega)]
    · rfl
  have back : ((terminate text places).drop start).drop (stop - start) =
      nul :: (terminate text places).drop (stop + 1) := by
    have below : stop < (terminate text places).length := by
      rw [length_terminate]
      omega
    have here : (terminate text places)[stop]? = some nul := by
      rw [getElem?_terminate inside, if_pos written]
    rw [List.getElem?_eq_getElem below, Option.some.injEq] at here
    rw [List.drop_drop, Nat.add_sub_cancel' le, List.drop_eq_getElem_cons below, here]
  have split := List.take_append_drop (stop - start) ((terminate text places).drop start)
  rw [front, back] at split
  have plain : ∀ c ∈ (text.1.drop start).take (stop - start), decide (c ≠ nul) = true := by
    intro c member
    have own : c ∈ text.1 := List.mem_of_mem_drop (List.mem_of_mem_take member)
    exact decide_eq_true fun eq => text.2 (eq ▸ own)
  show ((terminate text places).drop start).takeWhile (fun c => c ≠ nul) = _
  rw [← split, List.takeWhile_append_of_pos plain, List.takeWhile_cons_of_neg (by simp),
    List.append_nil]

end Mptsd.Lib.Strings
