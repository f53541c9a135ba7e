/- Unit: Mptsd/Lib/Objects
   digest: Objects that are allocated and freed by address, with a ledger of who owns them. -/

import Mptsd.Lib.Ledger

set_option autoImplicit false
set_option relaxedAutoImplicit false

namespace Mptsd.Lib.Objects

/-- The objects allocated so far, in the order of their addresses, and the addresses freed so far.
A freed object keeps its contents: nothing is said about what a read of it gives. -/
structure Pool (α : Type*) where
  objects : List α
  freed : List ℕ

variable {α : Type*}

def Pool.empty : Pool α := ⟨[], []⟩

def Pool.alloc (p : Pool α) (x : α) : ℕ × Pool α :=
  (p.objects.length, { p with objects := p.objects ++ [x] })

/-- To free a null pointer does nothing. -/
def Pool.free (p : Pool α) (a : Option ℕ) : Pool α := { p with freed := p.freed ++ a.toList }

def Pool.read (p : Pool α) (a : Option ℕ) : Option α := a.bind fun i => p.objects[i]?

/-- Every object is owned once, or was freed once. -/
def Pool.Kept (p : Pool α) (owned : List ℕ) : Prop :=
  Ledger.Balanced owned p.freed p.objects.length

/-- The second pool has all objects of the first one. -/
def Pool.Grows (p q : Pool α) : Prop := p.objects <+: q.objects

variable {p q r : Pool α} {owned owned' : List ℕ} {a : Option ℕ}

theorem Pool.Grows.refl (p : Pool α) : p.Grows p := List.prefix_rfl

theorem Pool.Grows.trans (first : p.Grows q) (second : q.Grows r) : p.Grows r :=
  List.IsPrefix.trans first second

theorem Pool.grows_alloc (p : Pool α) (x : α) : p.Grows (p.alloc x).2 := List.prefix_append _ _

theorem Pool.grows_free (p : Pool α) (a : Option ℕ) : p.Grows (p.free a) := List.prefix_rfl

theorem Pool.read_alloc (p : Pool α) (x : α) : (p.alloc x).2.read (some (p.alloc x).1) = some x :=
  List.getElem?_concat_length

theorem Pool.kept_empty : (Pool.empty : Pool α).Kept [] := Ledger.Balanced.nil

namespace Pool.Kept

theorem congr (h : p.Kept owned) (same : owned'.Perm owned) : p.Kept owned' :=
  Ledger.Balanced.congr h same

theorem alloc (h : p.Kept owned) (x : α) : (p.alloc x).2.Kept ((p.alloc x).1 :: owned) := by
  have more := Ledger.Balanced.alloc h 1
  rw [Kept, Pool.alloc]
  dsimp only
  rw [List.length_append]
  exact more

theorem free (h : p.Kept (a.toList ++ owned)) : (p.free a).Kept owned := Ledger.Balanced.free h

/-- A pointer to an owned object refers to an object, and a pool that grows keeps it. -/
theorem read_grown (h : p.Kept owned) (own : ∀ i ∈ a, i ∈ owned) (grown : p.Grows q) :
    q.read a = p.read a := by
  cases a with
  | none => rfl
  | some i =>
      have below : i < p.objects.length := (Ledger.Balanced.mem_owned_iff h).mp (own i rfl) |>.1
      obtain ⟨rest, more⟩ := grown
      change q.objects[i]? = p.objects[i]?
      rw [← more, List.getElem?_append_left below]

theorem isSome_read (h : p.Kept owned) (own : ∀ i ∈ a, i ∈ owned) :
    (p.read a).isSome = a.isSome := by
  cases a with
  | none => rfl
  | some i =>
      have below : i < p.objects.length := (Ledger.Balanced.mem_owned_iff h).mp (own i rfl) |>.1
      change (p.objects[i]?).isSome = true
      rw [List.getElem?_eq_getElem below]
      rfl

theorem length_read (h : p.Kept owned) (own : ∀ i ∈ a, i ∈ owned) :
    (p.read a).toList.length = a.toList.length := by
  have same := h.isSome_read own
  cases a with
  | none => rfl
  | some i =>
      obtain ⟨x, found⟩ := Option.isSome_iff_exists.mp same
      rw [found]
      rfl

end Pool.Kept

end Mptsd.Lib.Objects
