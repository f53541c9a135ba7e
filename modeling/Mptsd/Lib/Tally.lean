/- Unit: Mptsd/Lib/Tally
   digest: A shared counter that several parties raise by reading it and writing it back, each once,
   and what it counts to when they get in each other's way. -/

import Mathlib.Data.Fintype.Card
import Mathlib.Tactic

set_option autoImplicit false
set_option relaxedAutoImplicit false

namespace Mptsd.Lib.Tally

variable {ι : Type*}

inductive Access (ι : Type*)
  | read (i : ι)
  | write (i : ι)
  deriving DecidableEq

/-- Where a party stands. -/
inductive Phase
  | before | holds (value : ℕ) | done
  deriving DecidableEq

structure State (ι : Type*) where
  counter : ℕ
  phase : ι → Phase

/-- Between a party's read and its write another one writes. -/
def Overlaps (accesses : List (Access ι)) : Prop :=
  ∃ i j a b c, accesses = a ++ .read i :: (b ++ .write i :: c) ∧ .write j ∈ b

/-- Since a party's read another one has written. -/
def Disturbed (accesses : List (Access ι)) (i : ι) : Prop :=
  ∃ j a b, accesses = a ++ .read i :: b ∧ .write j ∈ b

section traces

variable {accesses : List (Access ι)} {e : Access ι} {i : ι}

private theorem disturbed_concat : Disturbed (accesses ++ [e]) i ↔
    Disturbed accesses i ∨ .read i ∈ accesses ∧ ∃ j, e = .write j := by
  constructor
  · rintro ⟨j, a, b, whole, written⟩
    rcases List.eq_nil_or_concat b with rfl | ⟨b, last, rfl⟩
    · exact absurd written List.not_mem_nil
    · rw [List.concat_eq_append, ← List.cons_append, ← List.append_assoc] at whole
      obtain ⟨rfl, same⟩ := List.append_inj' whole rfl
      obtain rfl := List.singleton_inj.mp same
      rw [List.concat_eq_append] at written
      rcases List.mem_append.mp written with earlier | now
      · exact .inl ⟨j, a, b, rfl, earlier⟩
      · exact .inr ⟨by simp, j, (List.mem_singleton.mp now).symm⟩
  · rintro (⟨j, a, b, rfl, written⟩ | ⟨read, j, rfl⟩)
    · exact ⟨j, a, b ++ [e], by simp, List.mem_append_left _ written⟩
    · obtain ⟨a, b, rfl⟩ := List.append_of_mem read
      exact ⟨j, a, b ++ [.write j], by simp, by simp⟩

private theorem overlaps_concat : Overlaps (accesses ++ [e]) ↔
    Overlaps accesses ∨ ∃ i, e = .write i ∧ Disturbed accesses i := by
  constructor
  · rintro ⟨i, j, a, b, c, whole, written⟩
    rcases List.eq_nil_or_concat c with rfl | ⟨c, last, rfl⟩
    · rw [← List.cons_append, ← List.append_assoc] at whole
      obtain ⟨rfl, same⟩ := List.append_inj' whole rfl
      exact .inr ⟨i, List.singleton_inj.mp same, j, a, b, rfl, written⟩
    · rw [List.concat_eq_append, ← List.cons_append, ← List.append_assoc, ← List.cons_append,
        ← List.append_assoc] at whole
      obtain ⟨rfl, -⟩ := List.append_inj' whole rfl
      exact .inl ⟨i, j, a, b, c, by simp, written⟩
  · rintro (⟨i, j, a, b, c, rfl, written⟩ | ⟨i, rfl, j, a, b, rfl, written⟩)
    · exact ⟨i, j, a, b, c ++ [e], by simp, written⟩
    · exact ⟨i, j, a, b, [], by simp, written⟩

end traces

variable [DecidableEq ι]

/-- The counter goes up from `start`, and every party accesses it at most once each way. -/
inductive Run (start : ℕ) : List (Access ι) → State ι → Prop
  | start : Run start [] ⟨start, fun _ => .before⟩
  | read {accesses : List (Access ι)} {t : State ι} {i : ι} (r : Run start accesses t)
      (first : t.phase i = .before) :
      Run start (accesses ++ [.read i]) ⟨t.counter, Function.update t.phase i (.holds t.counter)⟩
  | write {accesses : List (Access ι)} {t : State ι} {i : ι} {v : ℕ} (r : Run start accesses t)
      (own : t.phase i = .holds v) :
      Run start (accesses ++ [.write i]) ⟨v + 1, Function.update t.phase i .done⟩

variable [Fintype ι]

/-- How many are done. -/
def finished (phase : ι → Phase) : ℕ := (Finset.univ.filter fun i => phase i = .done).card

section finished

variable {phase : ι → Phase} {i : ι} {v : ℕ}

omit [DecidableEq ι] in
theorem finished_le_card (phase : ι → Phase) : finished phase ≤ Fintype.card ι :=
  Finset.card_filter_le _ _

omit [DecidableEq ι] in
theorem finished_eq_card_iff : finished phase = Fintype.card ι ↔ ∀ i, phase i = .done := by
  constructor
  · intro full i
    exact Finset.filter_card_eq full i (Finset.mem_univ i)
  · intro all
    rw [finished, Finset.filter_true_of_mem fun i _ => all i]
    rfl

private theorem finished_read (first : phase i = .before) :
    finished (Function.update phase i (.holds v)) = finished phase := by
  refine congrArg Finset.card (Finset.filter_congr ?_)
  intro k _
  by_cases own : k = i
  · subst own
    simp [first]
  · rw [Function.update_of_ne own]

private theorem finished_write (own : phase i = .holds v) :
    finished (Function.update phase i .done) = finished phase + 1 := by
  have others : (Finset.univ.filter fun k => Function.update phase i .done k = .done) =
      insert i (Finset.univ.filter fun k => phase k = .done) := by
    ext k
    by_cases same : k = i
    · subst same
      simp
    · simp [same]
  rw [finished, others, Finset.card_insert_of_notMem, finished]
  simp [own]

end finished

/-- Without an overlap the counter has counted everyone, and who holds a value holds the last one
unless he was disturbed. After an overlap nobody can make up for it. -/
structure Counts (start : ℕ) (accesses : List (Access ι)) (t : State ι) : Prop where
  fresh : ∀ i, t.phase i = .before → .read i ∉ accesses
  held : ∀ i v, t.phase i = .holds v → .read i ∈ accesses
  level : ¬ Overlaps accesses → t.counter = start + finished t.phase ∧
    ∀ i v, t.phase i = .holds v → v ≤ start + finished t.phase ∧
      (v < start + finished t.phase ↔ Disturbed accesses i)
  behind : Overlaps accesses → t.counter < start + finished t.phase ∧
    ∀ i v, t.phase i = .holds v → v < start + finished t.phase

variable {start : ℕ} {accesses : List (Access ι)} {t : State ι} {i : ι} {v : ℕ}

theorem Counts.read (h : Counts start accesses t) (first : t.phase i = .before) :
    Counts start (accesses ++ [.read i])
      ⟨t.counter, Function.update t.phase i (.holds t.counter)⟩ := by
  have overlap : Overlaps (accesses ++ [.read i]) ↔ Overlaps accesses := by
    rw [overlaps_concat]
    simp
  have disturbed : ∀ k, Disturbed (accesses ++ [.read i]) k ↔ Disturbed accesses k := by
    intro k
    rw [disturbed_concat]
    simp
  have count := finished_read (v := t.counter) first
  constructor
  · intro k unread
    dsimp only at unread
    by_cases own : k = i
    · subst own
      rw [Function.update_self] at unread
      cases unread
    · rw [Function.update_of_ne own] at unread
      have := h.fresh k unread
      simp [this, own]
  · intro k w holds
    dsimp only at holds
    by_cases own : k = i
    · subst own
      exact List.mem_append_right _ List.mem_cons_self
    · rw [Function.update_of_ne own] at holds
      exact List.mem_append_left _ (h.held k w holds)
  · intro none
    rw [overlap] at none
    obtain ⟨counter, holders⟩ := h.level none
    dsimp only
    rw [count]
    refine ⟨counter, ?_⟩
    intro k w holds
    rw [disturbed]
    by_cases own : k = i
    · subst own
      rw [Function.update_self, Phase.holds.injEq] at holds
      have undisturbed : ¬ Disturbed accesses k := by
        rintro ⟨j, a, b, rfl, -⟩
        exact h.fresh k first (by simp)
      rw [← holds, counter]
      exact ⟨le_rfl, iff_of_false (lt_irrefl _) undisturbed⟩
    · rw [Function.update_of_ne own] at holds
      exact holders k w holds
  · intro some
    rw [overlap] at some
    obtain ⟨counter, holders⟩ := h.behind some
    dsimp only
    rw [count]
    refine ⟨counter, ?_⟩
    intro k w holds
    by_cases own : k = i
    · subst own
      rw [Function.update_self, Phase.holds.injEq] at holds
      rwa [← holds]
    · rw [Function.update_of_ne own] at holds
      exact holders k w holds

theorem Counts.write (h : Counts start accesses t) (own : t.phase i = .holds v) :
    Counts start (accesses ++ [.write i]) ⟨v + 1, Function.update t.phase i .done⟩ := by
  have overlap : Overlaps (accesses ++ [.write i]) ↔
      Overlaps accesses ∨ Disturbed accesses i := by
    rw [overlaps_concat]
    simp
  have disturbed : ∀ k, .read k ∈ accesses → Disturbed (accesses ++ [.write i]) k := by
    intro k read
    rw [disturbed_concat]
    exact .inr ⟨read, i, rfl⟩
  have count := finished_write own
  have other : ∀ {k w}, Function.update t.phase i .done k = .holds w → t.phase k = .holds w := by
    intro k w holds
    by_cases same : k = i
    · subst same
      rw [Function.update_self] at holds
      cases holds
    · rwa [Function.update_of_ne same] at holds
  constructor
  · intro k unread
    dsimp only at unread
    by_cases same : k = i
    · subst same
      rw [Function.update_self] at unread
      cases unread
    · rw [Function.update_of_ne same] at unread
      have := h.fresh k unread
      simp [this]
  · intro k w holds
    exact List.mem_append_left _ (h.held k w (other holds))
  · intro none
    rw [overlap, not_or] at none
    obtain ⟨-, holders⟩ := h.level none.1
    obtain ⟨le, behind⟩ := holders i v own
    have last : v = start + finished t.phase := by
      have := mt behind.mp none.2
      omega
    dsimp only
    rw [count]
    refine ⟨by omega, ?_⟩
    intro k w holds
    have := (holders k w (other holds)).1
    exact ⟨by omega, iff_of_true (by omega) (disturbed k (h.held k w (other holds)))⟩
  · intro some
    rw [overlap] at some
    dsimp only
    rw [count]
    by_cases before : Overlaps accesses
    · obtain ⟨-, holders⟩ := h.behind before
      have := holders i v own
      refine ⟨by omega, ?_⟩
      intro k w holds
      have := holders k w (other holds)
      omega
    · obtain ⟨-, holders⟩ := h.level before
      have := (holders i v own).2.mpr (some.resolve_left before)
      refine ⟨by omega, ?_⟩
      intro k w holds
      have := (holders k w (other holds)).1
      omega

private theorem Run.counts (r : Run start accesses t) : Counts start accesses t := by
  induction r with
  | start =>
      have none : ¬ Overlaps ([] : List (Access ι)) := by
        rintro ⟨i, j, a, b, c, whole, -⟩
        exact absurd whole (by simp)
      have nobody : finished (fun _ : ι => Phase.before) = 0 := by simp [finished]
      refine ⟨fun _ _ => List.not_mem_nil, ?_, ?_, fun some => absurd some none⟩
      · intro i v holds
        cases holds
      · intro _
        refine ⟨by simp [nobody], ?_⟩
        intro i v holds
        cases holds
  | read r first ih => exact ih.read first
  | write r own ih => exact ih.write own

theorem Run.counter_le (r : Run start accesses t) : t.counter ≤ start + finished t.phase := by
  by_cases some : Overlaps accesses
  · exact (r.counts.behind some).1.le
  · exact (r.counts.level some).1.le

/-- It has counted all of them if and only if no two of them got in each other's way. -/
theorem Run.counter_eq_iff (r : Run start accesses t) :
    t.counter = start + finished t.phase ↔ ¬ Overlaps accesses := by
  constructor
  · intro level some
    exact absurd level (r.counts.behind some).1.ne
  · intro none
    exact (r.counts.level none).1

end Mptsd.Lib.Tally
