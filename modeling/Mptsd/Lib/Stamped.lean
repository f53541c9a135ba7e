/- Unit: Mptsd/Lib/Stamped
   source: none
   digest: A view of some content that is loaded again only when the stamp of the content has grown,
   and when that view is up to date. -/

import Mathlib.Data.List.Basic
import Mathlib.Tactic.Tauto

set_option autoImplicit false
set_option relaxedAutoImplicit false

namespace Mptsd.Lib.Stamped

variable {C V : Type}

/-- What happens: time passes, the content is written, or the reader looks. -/
inductive Event (C : Type)
  | tick (n : ℕ)
  | write (content : C)
  | poll

/-- The content with the time of its last write, and what the reader holds. -/
structure Cache (C V : Type) where
  clock : ℕ
  stamp : ℕ
  content : C
  seen : ℕ
  view : V

/-- The reader loads the content when the stamp is above the one it has seen. -/
def Cache.step (load : C → V) (s : Cache C V) : Event C → Cache C V
  | .tick n => { s with clock := s.clock + n }
  | .write content => { s with content, stamp := s.clock }
  | .poll => if s.seen < s.stamp then { s with seen := s.stamp, view := load s.content } else s

/-- The history without the view. `polled` is the content at the first poll since the stamp grew
last. -/
structure History (C : Type) where
  clock : ℕ
  stamp : ℕ
  content : C
  polled : Option C

def History.step (h : History C) : Event C → History C
  | .tick n => { h with clock := h.clock + n }
  | .write content =>
      { h with
        content
        stamp := h.clock
        polled := if h.stamp < h.clock then none else h.polled }
  | .poll => { h with polled := some (h.polled.getD h.content) }

/-- What the reader holds comes from the content that was polled first, and what it has seen is the
stamp of that. -/
structure Follows (load : C → V) (h : History C) (s : Cache C V) : Prop where
  clock : s.clock = h.clock
  stamp : s.stamp = h.stamp
  content : s.content = h.content
  past : h.stamp ≤ h.clock
  pending : h.polled = none → s.seen < s.stamp
  view : ∀ c, h.polled = some c → s.seen = s.stamp ∧ s.view = load c

variable {load : C → V} {h : History C} {s : Cache C V}

theorem Follows.step (follows : Follows load h s) (e : Event C) :
    Follows load (h.step e) (s.step load e) := by
  obtain ⟨clock, stamp, content, past, pending, view⟩ := follows
  cases e with
  | tick n => exact ⟨by simp [History.step, Cache.step, clock], stamp, content,
      Nat.le_trans past (Nat.le_add_right _ _), pending, view⟩
  | write c =>
      refine ⟨clock, clock, rfl, Nat.le_refl _, ?_, ?_⟩
      · intro unpolled
        show s.seen < s.clock
        simp only [History.step] at unpolled
        split_ifs at unpolled with grown
        · cases before : h.polled with
          | none =>
              have := pending before
              omega
          | some c' =>
              have := (view c' before).1
              omega
        · have := pending unpolled
          omega
      · intro c' polled
        simp only [History.step] at polled
        split_ifs at polled with grown
        obtain ⟨seen, same⟩ := view c' polled
        exact ⟨show s.seen = s.clock by omega, same⟩
  | poll =>
      cases before : h.polled with
      | none =>
          have newer := pending before
          have loaded : s.step load .poll = { s with seen := s.stamp, view := load s.content } := by
            simp [Cache.step, newer]
          rw [loaded]
          refine ⟨clock, stamp, content, past, ?_, ?_⟩
          · simp [History.step]
          · intro c polled
            simp only [History.step, before, Option.getD_none, Option.some.injEq] at polled
            subst polled
            exact ⟨rfl, congrArg load content⟩
      | some c' =>
          obtain ⟨seen, same⟩ := view c' before
          have kept : s.step load .poll = s := by simp [Cache.step, seen]
          rw [kept]
          refine ⟨clock, stamp, content, past, ?_, ?_⟩
          · simp [History.step]
          · intro c polled
            simp only [History.step, before, Option.getD_some, Option.some.injEq] at polled
            subst polled
            exact ⟨seen, same⟩

theorem Follows.run (follows : Follows load h s) (events : List (Event C)) :
    Follows load (events.foldl History.step h) (events.foldl (Cache.step load) s) := by
  induction events generalizing h s with
  | nil => exact follows
  | cons e rest ih => exact ih (follows.step e)

/-- After a poll the view is that of the content exactly when nothing had been polled since the
stamp grew, or the same was. -/
theorem Follows.current_iff (follows : Follows load h s) :
    (s.step load .poll).view = load h.content ↔
      ∀ c, h.polled = some c → load c = load h.content := by
  have after := follows.step .poll
  have view := (after.view (h.polled.getD h.content) rfl).2
  rw [view]
  cases h.polled with
  | none => simp
  | some c => simp

end Mptsd.Lib.Stamped
