/- Unit: Mptsd/Lib/Gathering
   digest: Values gathered from pieces one after the other, and two accumulators that compare every
   value with the first one. -/

import Mathlib.Data.List.Induction
import Mathlib.Tactic

set_option autoImplicit false
set_option relaxedAutoImplicit false

namespace Mptsd.Lib.Gathering

/-- How a value is gathered from pieces: a complete value takes no more of them. -/
structure Gatherer (T α : Type*) where
  complete : T → Bool
  empty : T
  push : T → α → T
  complete_empty : complete empty = false
  push_complete : ∀ t a, complete t = true → push t a = t

/-- The values completed so far, and the one that is being gathered. -/
structure Gathered (T : Type*) where
  values : List T
  current : T

/-- Two accumulators for the same pieces: `first` stops at its first value, `last` starts over
with the piece after a complete one. -/
structure Pair (T : Type*) where
  first : T
  last : T

/-- One of the values is not the same as the first. -/
def Changed {T : Type*} (same : T → T → Bool) (values : List T) : Prop :=
  ∃ first t, values.head? = some first ∧ t ∈ values ∧ same first t = false

instance {T : Type*} (same : T → T → Bool) (values : List T) : Decidable (Changed same values) :=
  decidable_of_iff (∃ first ∈ values.head?, values.any (fun t => !same first t) = true) <| by
    simp only [Changed, Option.mem_def, List.any_eq_true, Bool.not_eq_true']
    constructor
    · rintro ⟨first, head, t, member, differs⟩
      exact ⟨first, t, head, member, differs⟩
    · rintro ⟨first, t, head, member, differs⟩
      exact ⟨first, head, t, member, differs⟩

theorem forall_split_concat {α : Type*} {l : List α} {a : α} (P : List α → α → Prop) :
    (∀ done b rest, l ++ [a] = done ++ b :: rest → P done b) ↔
      (∀ done b rest, l = done ++ b :: rest → P done b) ∧ P l a := by
  constructor
  · intro h
    exact ⟨fun done b rest split => h done b (rest ++ [a]) (by simp [split]), h l a [] rfl⟩
  · rintro ⟨earlier, last⟩ done b rest split
    rcases List.eq_nil_or_concat rest with rfl | ⟨front, c, rfl⟩
    · obtain ⟨rfl, same⟩ := List.append_inj' split rfl
      obtain rfl := List.singleton_injective same
      exact last
    · apply earlier done b front
      rw [List.concat_eq_append, ← List.cons_append, ← List.append_assoc] at split
      exact (List.append_inj' split rfl).1

namespace Gatherer

variable {T α : Type*} (g : Gatherer T α) (same : T → T → Bool)

def add (s : Gathered T) (a : α) : Gathered T :=
  if g.complete (g.push s.current a) then ⟨s.values ++ [g.push s.current a], g.empty⟩
  else ⟨s.values, g.push s.current a⟩

/-- The pieces cut into values. -/
def gather (l : List α) : Gathered T := l.foldl g.add ⟨[], g.empty⟩

def feed (p : Pair T) (a : α) : Pair T :=
  ⟨g.push p.first a, g.push (if g.complete p.last then g.empty else p.last) a⟩

def pair (l : List α) : Pair T := l.foldl g.feed ⟨g.empty, g.empty⟩

/-- The next piece finds a value in `last` that is not the same as the one in `first`. -/
def reports (p : Pair T) (a : α) : Bool := g.complete p.last && !same (g.push p.first a) p.last

/-- No piece has found a change. -/
def Silent (l : List α) : Prop :=
  ∀ done a rest, l = done ++ a :: rest → g.reports same (g.pair done) a = false

/-- The accumulators hold what has been gathered: the first value, and the current or, right after
it was completed, the last one. -/
structure Aligned (s : Gathered T) (p : Pair T) : Prop where
  current : g.complete s.current = false
  complete : ∀ t ∈ s.values, g.complete t = true
  first : p.first = s.values.head?.getD s.current
  last : p.last = s.current ∨ s.current = g.empty ∧ s.values.getLast? = some p.last

/-- Every value but one that has just been completed was found to be the same as the first. -/
def Compared (s : Gathered T) (p : Pair T) : Prop :=
  ∀ first, s.values.head? = some first →
    ∀ t ∈ s.values, same first t = true ∨ g.complete p.last = true ∧ t = p.last

@[simp] theorem gather_concat (l : List α) (a : α) :
    g.gather (l ++ [a]) = g.add (g.gather l) a := by
  simp [gather]

@[simp] theorem pair_concat (l : List α) (a : α) : g.pair (l ++ [a]) = g.feed (g.pair l) a := by
  simp [pair]

theorem Silent.concat {g : Gatherer T α} {same : T → T → Bool} {l : List α} (h : g.Silent same l)
    {a : α} (last : g.reports same (g.pair l) a = false) : g.Silent same (l ++ [a]) :=
  (forall_split_concat fun done b => g.reports same (g.pair done) b = false).mpr ⟨h, last⟩

theorem changed_concat {l : List α} (a : α) (changed : Changed same (g.gather l).values) :
    Changed same (g.gather (l ++ [a])).values := by
  obtain ⟨first, t, head, member, differs⟩ := changed
  rw [gather_concat, add]
  split
  · refine ⟨first, t, ?_, List.mem_append_left _ member, differs⟩
    rw [List.head?_append, head]
    rfl
  · exact ⟨first, t, head, member, differs⟩

section step

variable {g same} {s : Gathered T} {p : Pair T}

theorem Aligned.of_complete (h : g.Aligned s p) (last : g.complete p.last = true) :
    s.current = g.empty ∧ p.last ∈ s.values ∧ s.values.head? = some p.first ∧
      ∀ a, g.push p.first a = p.first := by
  rcases h.last with pending | ⟨fresh, final⟩
  · rw [pending, h.current] at last
    cases last
  · have member := List.mem_of_getLast? final
    cases values : s.values with
    | nil => simp [values] at member
    | cons t rest =>
        have first : p.first = t := by simpa [values] using h.first
        have whole := h.complete t (by simp [values])
        refine ⟨fresh, values ▸ member, by simp [first], ?_⟩
        intro a
        rw [first]
        exact g.push_complete t a whole

private theorem Aligned.of_pending (h : g.Aligned s p) (last : g.complete p.last = false) :
    p.last = s.current := by
  rcases h.last with pending | ⟨-, final⟩
  · exact pending
  · rw [h.complete _ (List.mem_of_getLast? final)] at last
    cases last

theorem Aligned.complete_first (h : g.Aligned s p) :
    g.complete p.first = true ↔ s.values ≠ [] := by
  rw [h.first]
  cases values : s.values with
  | nil => simpa using h.current
  | cons t rest => simpa using h.complete t (by simp [values])

private theorem Aligned.last_feed (h : g.Aligned s p) (a : α) :
    (g.feed p a).last = g.push s.current a := by
  show g.push (if g.complete p.last then g.empty else p.last) a = _
  by_cases whole : g.complete p.last = true
  · rw [if_pos whole, (h.of_complete whole).1]
  · rw [if_neg whole, h.of_pending (by simpa using whole)]

/-- Another piece keeps the accumulators aligned. -/
theorem Aligned.feed (h : g.Aligned s p) (a : α) : g.Aligned (g.add s a) (g.feed p a) := by
  have last := h.last_feed a
  have first : (g.feed p a).first = s.values.head?.getD (g.push s.current a) := by
    show g.push p.first a = _
    rw [h.first]
    cases values : s.values with
    | nil => rfl
    | cons t rest => exact g.push_complete t a (h.complete t (by simp [values]))
  rw [add]
  by_cases whole : g.complete (g.push s.current a) = true
  · rw [if_pos whole]
    refine ⟨g.complete_empty, ?_, ?_, Or.inr ⟨rfl, by rw [last, List.getLast?_concat]⟩⟩
    · intro t member
      rcases List.mem_append.mp member with old | new
      · exact h.complete t old
      · rw [List.mem_singleton.mp new]
        exact whole
    · rw [first]
      cases s.values <;> rfl
  · rw [if_neg whole]
    exact ⟨by simpa using whole, h.complete, first, Or.inl last⟩

theorem Compared.feed (h : g.Compared same s p) (aligned : g.Aligned s p) {a : α}
    (silent : g.reports same p a = false) : g.Compared same (g.add s a) (g.feed p a) := by
  have old : ∀ first, s.values.head? = some first → ∀ t ∈ s.values, same first t = true := by
    intro first head t member
    rcases h first head t member with compared | ⟨whole, rfl⟩
    · exact compared
    · obtain ⟨-, -, head', keeps⟩ := aligned.of_complete whole
      obtain rfl : first = p.first := Option.some.inj (head.symm.trans head')
      simpa [reports, whole, keeps] using silent
  intro first head t member
  by_cases whole : g.complete (g.push s.current a) = true
  · have values : (g.add s a).values = s.values ++ [g.push s.current a] := by simp [add, whole]
    rw [values] at head member
    rcases List.mem_append.mp member with before | new
    · left
      refine old first ?_ t before
      cases earlier : s.values with
      | nil => simp [earlier] at before
      | cons x rest => simpa [earlier] using head
    · right
      rw [aligned.last_feed, List.mem_singleton.mp new]
      exact ⟨whole, rfl⟩
  · have values : (g.add s a).values = s.values := by simp [add, whole]
    rw [values] at head member
    exact Or.inl (old first head t member)

/-- The report, seen from the values gathered. -/
theorem Compared.reports_iff (h : g.Compared same s p) (aligned : g.Aligned s p) (a : α) :
    g.reports same p a = true ↔ Changed same s.values := by
  rw [reports]
  rw [Bool.and_eq_true, Bool.not_eq_true']
  constructor
  · rintro ⟨whole, differs⟩
    obtain ⟨-, member, head, keeps⟩ := aligned.of_complete whole
    rw [keeps] at differs
    exact ⟨p.first, p.last, head, member, differs⟩
  · rintro ⟨first, t, head, member, differs⟩
    rcases h first head t member with equal | ⟨whole, rfl⟩
    · rw [equal] at differs
      cases differs
    · obtain ⟨-, -, head', keeps⟩ := aligned.of_complete whole
      obtain rfl : first = p.first := Option.some.inj (head.symm.trans head')
      exact ⟨whole, by rw [keeps]; exact differs⟩

end step

theorem aligned_pair (l : List α) (silent : g.Silent same l) :
    g.Aligned (g.gather l) (g.pair l) ∧ g.Compared same (g.gather l) (g.pair l) := by
  induction l using List.reverseRecOn with
  | nil =>
      refine ⟨⟨g.complete_empty, ?_, rfl, Or.inl rfl⟩, ?_⟩
      · intro t member
        cases member
      · intro first head
        cases head
  | append_singleton l a ih =>
      obtain ⟨earlier, last⟩ := (forall_split_concat _).mp silent
      obtain ⟨aligned, compared⟩ := ih earlier
      rw [gather_concat, pair_concat]
      exact ⟨aligned.feed a, compared.feed aligned last⟩

/-- As long as nothing was reported, the next piece reports a change exactly when one of the values
completed before it is not the same as the first. -/
theorem reports_iff {l : List α} (silent : g.Silent same l) (a : α) :
    g.reports same (g.pair l) a = true ↔ Changed same (g.gather l).values := by
  obtain ⟨aligned, compared⟩ := g.aligned_pair same l silent
  exact compared.reports_iff aligned a

end Gatherer

end Mptsd.Lib.Gathering
