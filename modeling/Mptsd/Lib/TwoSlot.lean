/- Unit: Mptsd/Lib/TwoSlot
   digest: Two slots used in turn by a producer and a consumer are a queue. -/

import Mathlib.Tactic

set_option autoImplicit false
set_option relaxedAutoImplicit false

namespace Mptsd.Lib.TwoSlot

variable {α : Type*}

/-- Which slots are loaded, what is left in each, and where each side goes next. -/
@[ext] structure Slots (α : Type*) where
  loaded : Bool → Bool
  left : Bool → List α
  producer : Bool
  consumer : Bool

namespace Slots

/-- The producer loads its slot and goes to the other one. -/
def publish (r : Slots α) (l : List α) : Slots α where
  loaded := Function.update r.loaded r.producer true
  left := Function.update r.left r.producer l
  producer := !r.producer
  consumer := r.consumer

/-- The consumer takes one element from its slot. -/
def consume (r : Slots α) : Slots α :=
  { r with left := Function.update r.left r.consumer (r.left r.consumer).tail }

/-- The consumer gives its slot back and goes to the other one. -/
def release (r : Slots α) : Slots α where
  loaded := Function.update r.loaded r.consumer false
  left := Function.update r.left r.consumer []
  producer := r.producer
  consumer := !r.consumer

/-- What is left, in the order the consumer will meet it. -/
def queue (r : Slots α) : List α := r.left r.consumer ++ r.left (!r.consumer)

/-- The consumer is at the older slot, and both sides meet exactly when all or nothing is loaded. -/
structure Ordered (r : Slots α) : Prop where
  idle : ∀ b, r.loaded b = false → r.left b = []
  first : r.loaded (!r.consumer) = true → r.loaded r.consumer = true
  turn : r.producer = r.consumer ↔ r.loaded r.consumer = r.loaded (!r.consumer)

theorem Ordered.publish {r : Slots α} (h : Ordered r) (free : r.loaded r.producer = false)
    (l : List α) : Ordered (r.publish l) ∧ (r.publish l).queue = r.queue ++ l := by
  obtain ⟨loaded, left, producer, consumer⟩ := r
  obtain ⟨idle, first, turn⟩ := h
  have blank := idle producer free
  dsimp only at idle first turn free blank
  by_cases met : producer = consumer
  · subst met
    have other : loaded (!producer) = false := (turn.mp rfl).symm.trans free
    have none := idle _ other
    refine ⟨⟨?_, ?_, ?_⟩, ?_⟩
    · intro b unloaded
      cases b <;> cases producer <;> simp_all [Slots.publish]
    · simp [Slots.publish]
    · simp [Slots.publish, other]
    · simp [Slots.publish, queue, blank, none]
  · have apart : producer = !consumer := by
      cases producer <;> cases consumer <;> simp_all
    subst apart
    have here : loaded consumer = true := by
      by_contra empty
      exact met (turn.mpr (by simpa [free] using empty))
    refine ⟨⟨?_, ?_, ?_⟩, ?_⟩
    · intro b unloaded
      cases b <;> cases consumer <;> simp_all [Slots.publish]
    · simp [Slots.publish, here]
    · simp [Slots.publish, here]
    · simp [Slots.publish, queue, blank]

theorem Ordered.release {r : Slots α} (h : Ordered r) (here : r.loaded r.consumer = true)
    (done : r.left r.consumer = []) : Ordered r.release ∧ r.release.queue = r.queue := by
  obtain ⟨loaded, left, producer, consumer⟩ := r
  obtain ⟨idle, first, turn⟩ := h
  dsimp only at idle first turn here done
  refine ⟨⟨?_, ?_, ?_⟩, ?_⟩
  · intro b unloaded
    cases b <;> cases consumer <;> simp_all [Slots.release]
  · simp [Slots.release]
  · rw [here] at turn
    cases other : loaded (!consumer) <;> rw [other] at turn <;> cases producer <;>
      cases consumer <;> simp_all [Slots.release]
  · simp [Slots.release, queue, done]

theorem Ordered.consume {r : Slots α} (h : Ordered r) (here : r.loaded r.consumer = true)
    {a : α} {rest : List α} (next : r.left r.consumer = a :: rest) :
    Ordered r.consume ∧ r.queue = a :: r.consume.queue := by
  obtain ⟨idle, first, turn⟩ := h
  refine ⟨⟨?_, first, turn⟩, ?_⟩
  · intro b unloaded
    have other : b ≠ r.consumer := by
      rintro rfl
      simp_all [Slots.consume]
    simpa [Slots.consume, other] using idle b unloaded
  · simp [queue, Slots.consume, next]

end Slots

end Mptsd.Lib.TwoSlot
