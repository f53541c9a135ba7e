/- Unit: Mptsd/Lib/Lines
   digest: A text as the lines it consists of, and reading it with a bound on the length of a
   line. -/

import Mathlib.Tactic

set_option autoImplicit false
set_option relaxedAutoImplicit false

namespace Mptsd.Lib.Lines

variable {α : Type*} [DecidableEq α] (newline : α)

/-- The lines that are ended, and what stands behind the last of them. -/
def splitLines : List α → List (List α) × List α
  | [] => ([], [])
  | c :: text =>
      let behind := splitLines text
      if c = newline then ([] :: behind.1, behind.2)
      else
        match behind.1 with
        | [] => ([], c :: behind.2)
        | line :: lines => ((c :: line) :: lines, behind.2)

/-- At most so many characters are read, and none behind the end of a line. -/
def readLine : ℕ → List α → List α × List α
  | 0, text => ([], text)
  | _ + 1, [] => ([], [])
  | n + 1, c :: text =>
      if c = newline then ([c], text)
      else
        let behind := readLine n text
        (c :: behind.1, behind.2)

variable {newline} {line text tail : List α} {lines : List (List α)}

/-- Lines are put together again. -/
theorem splitLines_join (newline : α) (text : List α) :
    (splitLines newline text).1.flatMap (· ++ [newline]) ++ (splitLines newline text).2 = text := by
  induction text with
  | nil => rfl
  | cons c text ih =>
      rw [splitLines]
      split_ifs with ended
      · subst ended
        simpa using ih
      · cases behind : (splitLines newline text).1 with
        | nil =>
            rw [behind] at ih
            simpa using ih
        | cons line lines =>
            rw [behind] at ih
            simpa using ih

theorem notMem_splitLines (newline : α) (text : List α) :
    (∀ line ∈ (splitLines newline text).1, newline ∉ line) ∧
      newline ∉ (splitLines newline text).2 := by
  induction text with
  | nil => simp [splitLines]
  | cons c text ih =>
      rw [splitLines]
      split_ifs with ended
      · simpa using ih
      · cases behind : (splitLines newline text).1 with
        | nil => simpa [Ne.symm ended] using ih.2
        | cons line lines =>
            rw [behind, List.forall_mem_cons] at ih
            obtain ⟨⟨first, others⟩, plain_tail⟩ := ih
            refine ⟨List.forall_mem_cons.mpr ⟨?_, others⟩, plain_tail⟩
            rw [List.mem_cons, not_or]
            exact ⟨Ne.symm ended, first⟩

private theorem splitLines_cons (plain : newline ∉ line) :
    splitLines newline (line ++ newline :: text) =
      (line :: (splitLines newline text).1, (splitLines newline text).2) := by
  induction line with
  | nil => exact if_pos rfl
  | cons c line ih =>
      rw [List.mem_cons, not_or] at plain
      rw [List.cons_append, splitLines, ih plain.2, if_neg (Ne.symm plain.1)]

theorem splitLines_lines (plain : ∀ line ∈ lines, newline ∉ line) :
    splitLines newline (lines.flatMap (· ++ [newline])) = (lines, []) := by
  induction lines with
  | nil => rfl
  | cons line lines ih =>
      rw [List.forall_mem_cons] at plain
      rw [List.flatMap_cons, List.append_assoc, List.singleton_append, splitLines_cons plain.1,
        ih plain.2]

theorem readLine_line (plain : newline ∉ line) {n : ℕ} (room : line.length < n) :
    readLine newline n (line ++ newline :: text) = (line ++ [newline], text) := by
  induction line generalizing n with
  | nil =>
      obtain ⟨n, rfl⟩ := Nat.exists_eq_succ_of_ne_zero (Nat.ne_of_gt room)
      exact if_pos rfl
  | cons c line ih =>
      rw [List.mem_cons, not_or] at plain
      obtain ⟨n, rfl⟩ := Nat.exists_eq_succ_of_ne_zero (Nat.ne_of_gt (Nat.zero_lt_of_lt room))
      rw [List.cons_append, readLine, ih plain.2 (Nat.lt_of_succ_lt_succ room),
        if_neg (Ne.symm plain.1)]
      rfl

theorem readLine_plain {n : ℕ} (plain : newline ∉ text.take n) :
    readLine newline n text = (text.take n, text.drop n) := by
  induction n generalizing text with
  | zero => rfl
  | succ n ih =>
      cases text with
      | nil => rfl
      | cons c text =>
          rw [List.take_succ_cons, List.mem_cons, not_or] at plain
          rw [readLine, ih plain.2, if_neg (Ne.symm plain.1)]
          rfl

end Mptsd.Lib.Lines
