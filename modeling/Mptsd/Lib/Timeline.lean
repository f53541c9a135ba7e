/- Unit: Mptsd/Lib/Timeline
   digest: A clock that goes on from item to item, and starts again where the time it follows
   repeats itself or goes back. -/

import Mathlib.Data.List.Chain
import Mathlib.Tactic

set_option autoImplicit false
set_option relaxedAutoImplicit false

namespace Mptsd.Lib.Timeline

/-- Items with a time of their own and the time they are shown with; `next` takes a time from one
item to the next. Times are stored below `size`. A step does not lead to 0, nor from past `size`
below it, nor as far as `size` ahead. -/
structure Clock (α : Type*) where
  source : α → ℕ
  shown : α → ℕ
  next : α → α → ℕ → ℕ
  size : ℕ
  next_pos : ∀ a b x, 0 < x → 0 < next a b x
  size_le_next : ∀ a b x, size ≤ x → size ≤ next a b x
  next_lt : ∀ a b x, x < size → next a b x < x + size

variable {α : Type*} (c : Clock α)

namespace Clock

/-- What the second of two successive items is shown with; a time of 0 stands for none. -/
structure Step (a b : α) : Prop where
  advanced : c.shown a ≠ 0 → c.source a < c.source b →
    c.shown b = c.next a b (c.shown a) % c.size
  restarted : c.shown a = 0 ∨ c.source b ≤ c.source a → c.shown b = c.source b

/-- A whole course of items, of which the first is shown with its own time. -/
structure Course (items : List α) : Prop where
  steps : items.IsChain c.Step
  first : ∀ a ∈ items.head?, c.shown a = c.source a

/-- The second item goes on with the time of the first. -/
def Continues (a b : α) : Prop := c.source a ≠ 0 ∧ c.source a < c.source b

/-- A stretch of the course in which no item starts the clock again but the first. -/
structure Stretch (items before : List α) (start : α) (steps after : List α) : Prop where
  split : items = before ++ start :: steps ++ after
  restarted : ∀ z ∈ before.getLast?, ¬ c.Continues z start
  continued : (start :: steps).IsChain c.Continues

/-- Where a time at an item has got to after more of them. -/
def runFrom (a : α) (x : ℕ) : List α → ℕ
  | [] => x
  | b :: rest => runFrom b (c.next a b x) rest

/-- The time at the end of a stretch: its first time, taken along all its steps. -/
def reached (start : α) (steps : List α) : ℕ := c.runFrom start (c.source start) steps

/-- No stretch of the course reaches `bound`. -/
def Within (items : List α) (bound : ℕ) : Prop :=
  ∀ before start steps after, c.Stretch items before start steps after →
    c.reached start steps < bound

/-- No step of a stretch leads back. -/
def Rises (items : List α) : Prop :=
  ∀ before start steps b after, c.Stretch items before start (steps ++ [b]) after →
    c.reached start steps ≤ c.reached start (steps ++ [b])

/-- Wherever the clock starts again it was not ahead of the new time. -/
def NeverAhead (items : List α) : Prop :=
  ∀ before start steps b after, c.Stretch items before start steps (b :: after) →
    ¬ c.Continues (steps.getLastD start) b → c.reached start steps ≤ c.source b

variable {c} {items before steps after : List α} {start a b : α}

private theorem runFrom_concat (start : α) (x : ℕ) (steps : List α) (b : α) :
    c.runFrom start x (steps ++ [b]) =
      c.next (steps.getLastD start) b (c.runFrom start x steps) := by
  induction steps generalizing start x with
  | nil => rfl
  | cons y rest ih =>
      rw [List.cons_append, runFrom, ih, runFrom, List.getLastD_cons]

theorem reached_concat (start : α) (steps : List α) (b : α) :
    c.reached start (steps ++ [b]) =
      c.next (steps.getLastD start) b (c.reached start steps) :=
  runFrom_concat start _ steps b

private theorem runFrom_pos {x : ℕ} (positive : 0 < x) (start : α) (steps : List α) :
    0 < c.runFrom start x steps := by
  induction steps generalizing start x with
  | nil => exact positive
  | cons b rest ih => exact ih (c.next_pos start b x positive) b

private theorem getLast?_cons_eq (start : α) (steps : List α) :
    (start :: steps).getLast? = some (steps.getLastD start) := by
  rw [List.getLast?_cons, List.getLastD_eq_getLast?]

theorem stretch_concat_iff :
    c.Stretch items before start (steps ++ [b]) after ↔
      c.Stretch items before start steps (b :: after) ∧
        c.Continues (steps.getLastD start) b := by
  have chain : (start :: (steps ++ [b])).IsChain c.Continues ↔
      (start :: steps).IsChain c.Continues ∧ c.Continues (steps.getLastD start) b := by
    rw [← List.cons_append, List.isChain_append, getLast?_cons_eq]
    simp
  constructor
  · rintro ⟨split, restarted, continued⟩
    obtain ⟨shorter, next⟩ := chain.mp continued
    exact ⟨⟨by simpa using split, restarted, shorter⟩, next⟩
  · rintro ⟨⟨split, restarted, continued⟩, next⟩
    exact ⟨by simpa using split, restarted, chain.mpr ⟨continued, next⟩⟩

private theorem exists_stretch (front : List α) (a : α) (after : List α) :
    ∃ before start steps, c.Stretch (front ++ a :: after) before start steps after ∧
      steps.getLastD start = a := by
  induction front using List.reverseRecOn generalizing a after with
  | nil => exact ⟨[], a, [], ⟨rfl, by simp, List.isChain_singleton a⟩, rfl⟩
  | append_singleton front z ih =>
      by_cases continued : c.Continues z a
      · obtain ⟨before, start, steps, stretch, last⟩ := ih z (a :: after)
        refine ⟨before, start, steps ++ [a], stretch_concat_iff.mpr ⟨?_, last ▸ continued⟩,
          List.getLastD_concat⟩
        rw [List.append_assoc]
        exact stretch
      · refine ⟨front ++ [z], a, [], ⟨by simp, ?_, List.isChain_singleton a⟩, rfl⟩
        intro x member
        obtain rfl : z = x := by simpa using member
        exact continued

/-- The last item of a stretch stands before what comes after it. -/
theorem Stretch.exists_front (stretch : c.Stretch items before start steps after) :
    ∃ front, items = front ++ steps.getLastD start :: after := by
  obtain ⟨front, cut⟩ := List.getLast?_eq_some_iff.mp (getLast?_cons_eq start steps)
  refine ⟨before ++ front, ?_⟩
  rw [stretch.split, cut]
  simp

private theorem Stretch.source_ne_zero (stretch : c.Stretch items before start steps after)
    (next : c.Continues (steps.getLastD start) b) : c.source start ≠ 0 := by
  cases steps with
  | nil => exact next.1
  | cons x rest => exact (List.isChain_cons_cons.mp stretch.continued).1.1

private theorem Stretch.reached_ne_zero (stretch : c.Stretch items before start steps after)
    (next : c.Continues (steps.getLastD start) b) : c.reached start steps ≠ 0 :=
  (runFrom_pos (Nat.pos_of_ne_zero (stretch.source_ne_zero next)) start steps).ne'

namespace Course

variable (course : c.Course items)
include course

private theorem step (split : items = before ++ a :: b :: after) : c.Step a b :=
  List.isChain_iff_forall_rel_of_append_cons_cons.mp course.steps split

private theorem shown_zero (split : items = before ++ a :: after) (zero : c.source a = 0) :
    c.shown a = 0 := by
  rw [← zero]
  rcases List.eq_nil_or_concat before with rfl | ⟨front, z, rfl⟩
  · exact course.first a (by simp [split])
  · have split' : items = front ++ z :: a :: after := by simpa using split
    exact (course.step split').restarted (Or.inr (zero ▸ Nat.zero_le _))

private theorem shown_of_restart (split : items = before ++ a :: after)
    (restart : ∀ z ∈ before.getLast?, ¬ c.Continues z a) : c.shown a = c.source a := by
  rcases List.eq_nil_or_concat before with rfl | ⟨front, z, rfl⟩
  · exact course.first a (by simp [split])
  · have split' : items = front ++ z :: a :: after := by simpa using split
    apply (course.step split').restarted
    by_cases zero : c.source z = 0
    · exact Or.inl (course.shown_zero split' zero)
    · exact Or.inr (not_lt.mp fun later => restart z (by simp) ⟨zero, later⟩)

private theorem shown_of_not_continues (split : items = before ++ a :: b :: after)
    (stopped : ¬ c.Continues a b) : c.shown b = c.source b := by
  have split' : items = (before ++ [a]) ++ b :: after := by simpa using split
  apply course.shown_of_restart split'
  intro z member
  obtain rfl : a = z := by simpa using member
  exact stopped

private theorem step_last (stretch : c.Stretch items before start steps (b :: after)) :
    c.Step (steps.getLastD start) b := by
  obtain ⟨front, split⟩ := stretch.exists_front
  exact course.step split

private theorem shown_last (stretch : c.Stretch items before start steps after)
    (fits : c.reached start steps < c.size) :
    c.shown (steps.getLastD start) = c.reached start steps := by
  induction steps using List.reverseRecOn generalizing after with
  | nil =>
      have split : items = before ++ start :: after := by simpa using stretch.split
      exact course.shown_of_restart split stretch.restarted
  | append_singleton steps b ih =>
      obtain ⟨shorter, next⟩ := stretch_concat_iff.mp stretch
      rw [reached_concat] at fits
      have shown := ih shorter (not_le.mp fun past => fits.not_ge (c.size_le_next _ _ _ past))
      have nonzero : c.shown (steps.getLastD start) ≠ 0 := shown ▸ shorter.reached_ne_zero next
      rw [List.getLastD_concat, (course.step_last shorter).advanced nonzero next.2, shown,
        Nat.mod_eq_of_lt fits, reached_concat]

/-- Items of a course that stays below a bound are shown with times below it. -/
theorem shown_lt {bound : ℕ} (within : c.Within items bound) (fits : bound ≤ c.size)
    (member : a ∈ items) : c.shown a < bound := by
  obtain ⟨front, after, rfl⟩ := List.append_of_mem member
  obtain ⟨before, start, steps, stretch, rfl⟩ := exists_stretch (c := c) front a after
  have reached := within _ _ _ _ stretch
  rwa [course.shown_last stretch (reached.trans_le fits)]

/-- The clock goes on with times below `bound` exactly when no stretch reaches it, as long as the
items' own times are below it. -/
theorem advanced_lt_iff {bound : ℕ} (own : ∀ a ∈ items, c.source a < bound)
    (room : ∀ a b x, x < bound → c.next a b x < c.size) (fits : bound ≤ c.size) :
    items.IsChain (fun a b => c.shown a ≠ 0 → c.source a < c.source b → c.shown b < bound) ↔
      c.Within items bound := by
  constructor
  · intro below before start steps after stretch
    induction steps using List.reverseRecOn generalizing after with
    | nil => exact own start (by simp [stretch.split])
    | append_singleton steps b ih =>
        obtain ⟨shorter, next⟩ := stretch_concat_iff.mp stretch
        have reached := ih (b :: after) shorter
        have longer := course.shown_last stretch (by rw [reached_concat]; exact room _ _ _ reached)
        have nonzero : c.shown (steps.getLastD start) ≠ 0 := by
          rw [course.shown_last shorter (reached.trans_le fits)]
          exact shorter.reached_ne_zero next
        obtain ⟨front, split⟩ := shorter.exists_front
        rw [← longer, List.getLastD_concat]
        exact List.isChain_iff_forall_rel_of_append_cons_cons.mp below split nonzero next.2
  · intro within
    apply List.isChain_iff_forall_rel_of_append_cons_cons.mpr
    rintro a b front after rfl nonzero later
    obtain ⟨before, start, steps, shorter, rfl⟩ := exists_stretch front a (b :: after)
    have next : c.Continues (steps.getLastD start) b :=
      ⟨fun zero => nonzero (course.shown_zero rfl zero), later⟩
    have longer := stretch_concat_iff.mpr ⟨shorter, next⟩
    have reached := within _ _ _ _ longer
    have shown := course.shown_last longer (reached.trans_le fits)
    rw [List.getLastD_concat] at shown
    rwa [shown]

/-- The times items are shown with do not go back exactly when no stretch leaves the stored range,
no step of one leads back and no start of the clock sets it back. -/
theorem shown_nondecreasing_iff (own : ∀ a ∈ items, c.source a < c.size) :
    items.IsChain (fun a b => c.shown a ≤ c.shown b) ↔
      c.Within items c.size ∧ c.Rises items ∧ c.NeverAhead items := by
  constructor
  · intro increasing
    have ordered := List.isChain_iff_forall_rel_of_append_cons_cons.mp increasing
    have within : c.Within items c.size := by
      intro before start steps after stretch
      induction steps using List.reverseRecOn generalizing after with
      | nil => exact own start (by simp [stretch.split])
      | append_singleton steps b ih =>
          obtain ⟨shorter, next⟩ := stretch_concat_iff.mp stretch
          have fits := ih (b :: after) shorter
          obtain ⟨front, split⟩ := shorter.exists_front
          have kept := ordered split
          have ahead := c.next_lt (steps.getLastD start) b _ fits
          have shown := course.shown_last shorter fits
          have nonzero : c.shown (steps.getLastD start) ≠ 0 := shown ▸ shorter.reached_ne_zero next
          rw [(course.step split).advanced nonzero next.2, shown] at kept
          rw [reached_concat]
          -- a time past `size` is stored below the time before it
          by_contra large
          rw [Nat.mod_eq_sub_mod (by omega), Nat.mod_eq_of_lt (by omega)] at kept
          omega
    refine ⟨within, ?_, ?_⟩
    · intro before start steps b after stretch
      obtain ⟨shorter, -⟩ := stretch_concat_iff.mp stretch
      obtain ⟨front, split⟩ := shorter.exists_front
      have kept := ordered split
      have longer := course.shown_last stretch (within _ _ _ _ stretch)
      rw [List.getLastD_concat] at longer
      rwa [course.shown_last shorter (within _ _ _ _ shorter), longer] at kept
    · intro before start steps b after stretch restart
      obtain ⟨front, split⟩ := stretch.exists_front
      have kept := ordered split
      rwa [course.shown_last stretch (within _ _ _ _ stretch),
        course.shown_of_not_continues split restart] at kept
  · rintro ⟨within, rises, behind⟩
    apply List.isChain_iff_forall_rel_of_append_cons_cons.mpr
    rintro a b front after rfl
    obtain ⟨before, start, steps, shorter, rfl⟩ := exists_stretch front a (b :: after)
    rw [course.shown_last shorter (within _ _ _ _ shorter)]
    by_cases next : c.Continues (steps.getLastD start) b
    · have longer := stretch_concat_iff.mpr ⟨shorter, next⟩
      have shown := course.shown_last longer (within _ _ _ _ longer)
      rw [List.getLastD_concat] at shown
      rw [shown]
      exact rises _ _ _ _ _ longer
    · rw [course.shown_of_not_continues rfl next]
      exact behind _ _ _ _ _ shorter next

end Course

end Clock

end Mptsd.Lib.Timeline
