/- Unit: Mptsd/Lib/Posix
   digest: Patterns that are a row of repeated character classes, and their match at the start of a
   text by the leftmost-longest rule. -/

import Mathlib.Data.List.MinMax
import Mathlib.Data.List.TakeWhile
import Mathlib.Tactic

set_option autoImplicit false
set_option relaxedAutoImplicit false

namespace Mptsd.Lib.Posix

variable {α : Type*}

/-- A class of characters, with the least and the greatest number of repetitions. -/
structure Piece (α : Type*) where
  allows : α → Bool
  least : ℕ
  most : Option ℕ

namespace Piece

/-- A character of the class. -/
def one (allows : α → Bool) : Piece α := ⟨allows, 1, some 1⟩

def optional (allows : α → Bool) : Piece α := ⟨allows, 0, some 1⟩

def star (allows : α → Bool) : Piece α := ⟨allows, 0, none⟩

def plus (allows : α → Bool) : Piece α := ⟨allows, 1, none⟩

/-- The text is a repetition of the piece. -/
structure Accepts (p : Piece α) (chunk : List α) : Prop where
  allowed : ∀ c ∈ chunk, p.allows c = true
  least : p.least ≤ chunk.length
  most : ∀ m, p.most = some m → chunk.length ≤ m

/-- How far a piece reaches into a text. -/
def reach (p : Piece α) (text : List α) : ℕ :=
  match p.most with
  | none => (text.takeWhile p.allows).length
  | some m => min m (text.takeWhile p.allows).length

/-- The lengths at which a piece can match at the start of a text, the longest one first. -/
def lengths (p : Piece α) (text : List α) : List ℕ :=
  ((List.range (p.reach text + 1)).filter (p.least ≤ ·)).reverse

end Piece

/-- All ways to match the pieces one after the other at the start of a text. Longer chunks for an
earlier piece come first. -/
def splits : List (Piece α) → List α → List (List (List α))
  | [], _ => [[]]
  | p :: rest, text =>
      (p.lengths text).flatMap fun n => (splits rest (text.drop n)).map (text.take n :: ·)

/-- The longest match; among these, each piece from left to right has the longest chunk. -/
def posixMatch (pieces : List (Piece α)) (text : List α) : Option (List (List α)) :=
  (splits pieces text).argmax fun chunks => chunks.flatten.length

/-- Each piece has as many characters as it can take. -/
def Greedy : List (Piece α) → List (List α) → Prop
  | [], [] => True
  | p :: rest, chunk :: chunks =>
      p.Accepts chunk ∧
        (p.most = some chunk.length ∨ ∀ c, chunks.flatten.head? = some c → p.allows c = false) ∧
        Greedy rest chunks
  | _, _ => False

section piece

variable {p : Piece α} {text chunk rest : List α} {n : ℕ}

private theorem mem_lengths : n ∈ p.lengths text ↔ p.least ≤ n ∧ n ≤ p.reach text := by
  rw [Piece.lengths, List.mem_reverse, List.mem_filter, List.mem_range, decide_eq_true_eq]
  omega

private theorem reach_le : p.reach text ≤ (text.takeWhile p.allows).length ∧
    ∀ m, p.most = some m → p.reach text ≤ m := by
  rw [Piece.reach]
  cases bound : p.most with
  | none => exact ⟨le_refl _, fun m eq => by cases eq⟩
  | some m =>
      refine ⟨min_le_right _ _, ?_⟩
      intro m' eq
      obtain rfl := Option.some.inj eq
      exact min_le_left _ _

private theorem accepts_take (member : n ∈ p.lengths text) : p.Accepts (text.take n) := by
  obtain ⟨least, reach⟩ := mem_lengths.mp member
  obtain ⟨run, most⟩ : p.reach text ≤ (text.takeWhile p.allows).length ∧
      ∀ m, p.most = some m → p.reach text ≤ m := reach_le
  have same : text.take n = (text.takeWhile p.allows).take n := by
    have whole := List.takeWhile_append_dropWhile (p := p.allows) (l := text)
    calc text.take n
        = (text.takeWhile p.allows ++ text.dropWhile p.allows).take n := by rw [whole]
      _ = (text.takeWhile p.allows).take n := List.take_append_of_le_length (by omega)
  have length : (text.take n).length = n := by
    rw [same, List.length_take]
    omega
  refine ⟨?_, by omega, ?_⟩
  · intro c member
    rw [same] at member
    exact List.mem_takeWhile_imp (List.mem_of_mem_take member)
  · intro m bound
    have le := most m bound
    omega

private theorem head?_lengths (accepted : p.Accepts chunk)
    (longest : p.most = some chunk.length ∨ ∀ c, rest.head? = some c → p.allows c = false) :
    (p.lengths (chunk ++ rest)).head? = some chunk.length := by
  have run : (chunk ++ rest).takeWhile p.allows = chunk ++ rest.takeWhile p.allows :=
    List.takeWhile_append_of_pos accepted.allowed
  have reach : p.reach (chunk ++ rest) = chunk.length := by
    rw [Piece.reach, run, List.length_append]
    rcases longest with full | stop
    · rw [full]
      exact min_eq_left (by omega)
    · have nothing : rest.takeWhile p.allows = [] := by
        cases rest with
        | nil => rfl
        | cons c rest => exact List.takeWhile_cons_of_neg (by simp [stop c rfl])
      rw [nothing]
      cases bound : p.most with
      | none => rfl
      | some m =>
          have le := accepted.most m bound
          exact min_eq_right le
  rw [Piece.lengths, reach, List.range_succ, List.filter_append, List.reverse_append,
    List.filter_cons_of_pos (by simpa using accepted.least)]
  rfl

end piece

section greedy

variable {q : α → Bool} {pieces : List (Piece α)} {chunks : List (List α)} {chunk : List α}

theorem greedy_one {c : α} (allowed : q c = true) (rest : Greedy pieces chunks) :
    Greedy (.one q :: pieces) ([c] :: chunks) := by
  refine ⟨⟨?_, le_refl _, ?_⟩, .inl rfl, rest⟩
  · intro d member
    rwa [List.mem_singleton.mp member]
  · rintro m ⟨⟩
    exact le_refl _

theorem greedy_optional {c : α} (allowed : q c = true) (here : Bool)
    (stop : here = false → ∀ d, chunks.flatten.head? = some d → q d = false)
    (rest : Greedy pieces chunks) :
    Greedy (.optional q :: pieces) ((if here then [c] else []) :: chunks) := by
  cases here with
  | true =>
      refine ⟨⟨?_, Nat.zero_le _, ?_⟩, .inl rfl, rest⟩
      · intro d member
        rwa [List.mem_singleton.mp member]
      · rintro m ⟨⟩
        exact le_refl _
  | false =>
      refine ⟨⟨?_, Nat.zero_le _, ?_⟩, .inr (stop rfl), rest⟩
      · rintro d ⟨⟩
      · exact fun m _ => Nat.zero_le m

theorem greedy_star (allowed : ∀ c ∈ chunk, q c = true)
    (stop : ∀ d, chunks.flatten.head? = some d → q d = false) (rest : Greedy pieces chunks) :
    Greedy (.star q :: pieces) (chunk :: chunks) := by
  refine ⟨⟨allowed, Nat.zero_le _, ?_⟩, .inr stop, rest⟩
  rintro m ⟨⟩

theorem greedy_plus (allowed : ∀ c ∈ chunk, q c = true) (nonempty : chunk ≠ [])
    (stop : ∀ d, chunks.flatten.head? = some d → q d = false) (rest : Greedy pieces chunks) :
    Greedy (.plus q :: pieces) (chunk :: chunks) := by
  refine ⟨⟨allowed, List.length_pos_iff.mpr nonempty, ?_⟩, .inr stop, rest⟩
  rintro m ⟨⟩

theorem accepts_one (accepted : (Piece.one q).Accepts chunk) : ∃ c, chunk = [c] ∧ q c = true := by
  have single : chunk.length = 1 := le_antisymm (accepted.most 1 rfl) accepted.least
  obtain ⟨c, rfl⟩ := List.length_eq_one_iff.mp single
  exact ⟨c, rfl, accepted.allowed c List.mem_cons_self⟩

theorem accepts_plus (accepted : (Piece.plus q).Accepts chunk) :
    chunk ≠ [] ∧ ∀ c ∈ chunk, q c = true :=
  ⟨List.length_pos_iff.mp accepted.least, accepted.allowed⟩

end greedy

section posix

variable {pieces : List (Piece α)} {text : List α} {chunks : List (List α)}

private theorem of_mem_splits (member : chunks ∈ splits pieces text) :
    List.Forall₂ Piece.Accepts pieces chunks ∧ chunks.flatten <+: text := by
  induction pieces generalizing text chunks with
  | nil =>
      obtain rfl := List.mem_singleton.mp member
      exact ⟨.nil, List.nil_prefix⟩
  | cons p pieces ih =>
      rw [splits, List.mem_flatMap] at member
      obtain ⟨n, length, member⟩ := member
      obtain ⟨others, later, rfl⟩ := List.mem_map.mp member
      obtain ⟨accepted, start⟩ := ih later
      refine ⟨.cons (accepts_take length) accepted, ?_⟩
      rw [← List.prefix_append_right_inj (text.take n), List.take_append_drop] at start
      exact start

private theorem head?_splits (greedy : Greedy pieces chunks) :
    (splits pieces chunks.flatten).head? = some chunks := by
  induction pieces generalizing chunks with
  | nil =>
      cases chunks with
      | nil => rfl
      | cons chunk chunks => exact greedy.elim
  | cons p pieces ih =>
      cases chunks with
      | nil => exact greedy.elim
      | cons chunk chunks =>
          obtain ⟨accepted, longest, greedy⟩ := greedy
          have first := head?_lengths accepted longest
          rw [splits, List.flatten_cons]
          obtain ⟨others, lengths⟩ := List.head?_eq_some_iff.mp first
          obtain ⟨after, later⟩ := List.head?_eq_some_iff.mp (ih greedy)
          rw [lengths, List.flatMap_cons, List.drop_left, List.take_left, later]
          rfl

/-- A greedy match of the whole text is the match. -/
theorem posixMatch_of_greedy (greedy : Greedy pieces chunks) :
    posixMatch pieces chunks.flatten = some chunks := by
  obtain ⟨others, first⟩ := List.head?_eq_some_iff.mp (head?_splits greedy)
  classical
  rw [posixMatch, List.argmax_eq_some_iff, first]
  refine ⟨List.mem_cons_self, ?_, ?_⟩
  · intro other member
    rw [← first] at member
    exact (of_mem_splits member).2.length_le
  · intro other _ _
    refine le_of_eq_of_le ?_ (Nat.zero_le _)
    exact @List.idxOf_cons_self _ chunks instBEqOfDecidableEq _ others

theorem of_posixMatch (found : posixMatch pieces text = some chunks) :
    List.Forall₂ Piece.Accepts pieces chunks ∧ chunks.flatten <+: text :=
  of_mem_splits (List.argmax_mem found)

end posix

end Mptsd.Lib.Posix
