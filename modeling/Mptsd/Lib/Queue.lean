/- Unit: Mptsd/Lib/Queue
   digest: A queue that remembers everything it has handed out. -/

import Mathlib.Data.List.Basic

set_option autoImplicit false
set_option relaxedAutoImplicit false

namespace Mptsd.Lib.Queue

/-- A queue together with its history: what has been taken, and what still waits. -/
@[ext] structure Fifo (α : Type*) where
  taken : List α
  waiting : List α

namespace Fifo

variable {α : Type*}

def empty : Fifo α := ⟨[], []⟩

/-- Everything that was ever put in, in order. -/
def filled (q : Fifo α) : List α := q.taken ++ q.waiting

def push (q : Fifo α) (l : List α) : Fifo α := { q with waiting := q.waiting ++ l }

/-- The oldest waiting element, left in place. -/
def peek (q : Fifo α) : Option α := q.waiting.head?

/-- Remove the oldest waiting element, if there is one. -/
def pop (q : Fifo α) : Option α × Fifo α :=
  match q.waiting with
  | [] => (none, q)
  | a :: rest => (some a, ⟨q.taken ++ [a], rest⟩)

@[simp] theorem filled_empty : (empty : Fifo α).filled = [] := rfl
@[simp] theorem taken_push (q : Fifo α) (l : List α) : (q.push l).taken = q.taken := rfl
@[simp] theorem waiting_push (q : Fifo α) (l : List α) :
    (q.push l).waiting = q.waiting ++ l := rfl

@[simp] theorem filled_push (q : Fifo α) (l : List α) :
    (q.push l).filled = q.filled ++ l := by
  simp [filled, push]

@[simp] theorem push_nil (q : Fifo α) : q.push [] = q := by
  simp [push]

@[simp] theorem pop_of_nil {q : Fifo α} (h : q.waiting = []) : q.pop = (none, q) := by
  simp [pop, h]

@[simp] theorem pop_of_cons {q : Fifo α} {a : α} {rest : List α} (h : q.waiting = a :: rest) :
    q.pop = (some a, ⟨q.taken ++ [a], rest⟩) := by
  simp [pop, h]

/-- Reading moves an element from one side of the history to the other. -/
@[simp] theorem filled_pop (q : Fifo α) : q.pop.2.filled = q.filled := by
  unfold pop filled
  cases h : q.waiting <;> simp [h]

end Fifo

end Mptsd.Lib.Queue
