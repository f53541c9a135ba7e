/- Unit: Mptsd/Shutdown/Ending
   source: src/mptsd.c (kill_threads, main), src/output_psi.c (output_handle_psi),
   src/output_mix.c (output_handle_mix), src/output_write.c (output_handle_write)
   digest: When the main thread waits in vain for the others, and what it has waited for when it
   does not. -/

import Mptsd.Shutdown.Model

set_option autoImplicit false
set_option relaxedAutoImplicit false

namespace Mptsd.Shutdown.Ending

open Mptsd.Lib.Tally (Access Phase Run Overlaps finished finished_eq_card_iff finished_le_card)
open Mptsd.Shutdown.Model

/-- The main thread is behind its loop, one way or the other. -/
def Ended (s : State) : Prop := s.main = .returned ∨ s.main = .exited

/-- No input is on the list, and no output thread has anything left to do but the last loop of the
mixer. -/
def Settled (s : State) : Prop := s.inputs = [] ∧ ∀ t, s.left t = true ∧ s.phase t = .done

/-- Until the main thread stores to `dienow` nobody leaves, and from then on the output threads
count. -/
structure Inv (s : State) : Prop where
  signal : s.keepGoing = true → s.main = .sleeping
  idle : s.main = .sleeping ∨ s.main = .killing →
    s.dienow = 0 ∧ s.accesses = [] ∧ ∀ t, s.left t = false ∧ s.phase t = .before
  counting : s.main ≠ .sleeping → s.main ≠ .killing → Run 1 s.accesses ⟨s.dienow, s.phase⟩
  looping : ∀ t, s.left t = false → s.phase t = .before
  items : ∀ loops, s.main = .readDienow loops → s.inputs = []
  returned : s.main = .returned → Settled s ∧ ¬ Overlaps s.accesses

section steps

variable {s : State}

private theorem inv_start (ids : List ℕ) : Inv (start ids) where
  signal _ := rfl
  idle _ := ⟨rfl, rfl, fun _ => ⟨rfl, rfl⟩⟩
  counting other _ := absurd rfl other
  looping _ _ := rfl
  items _ wrong := by cases wrong
  returned wrong := by cases wrong

private theorem four_le_iff (r : Run 1 s.accesses ⟨s.dienow, s.phase⟩) :
    4 ≤ s.dienow ↔ (∀ t, s.phase t = .done) ∧ ¬ Overlaps s.accesses := by
  have card : Fintype.card Thread = 3 := rfl
  have most := finished_le_card s.phase
  have le := r.counter_le
  have eq := r.counter_eq_iff
  have all : finished s.phase = Fintype.card Thread ↔ _ := finished_eq_card_iff
  dsimp only at le eq
  rw [← eq, ← all]
  omega

private theorem Settled.no_input (settled : Settled s) (id : ℕ) : Settled (inputStep s id) := by
  obtain ⟨empty, done⟩ := settled
  refine ⟨?_, done⟩
  rw [inputStep, empty]
  rfl

private theorem walkStep_frame (s : State) :
    (walkStep s).keepGoing = s.keepGoing ∧ (walkStep s).main = s.main ∧
      (walkStep s).dienow = s.dienow ∧ (walkStep s).left = s.left ∧
      (walkStep s).phase = s.phase ∧ (walkStep s).accesses = s.accesses ∧
      (s.inputs = [] → (walkStep s).inputs = []) := by
  rw [walkStep]
  split
  · exact ⟨rfl, rfl, rfl, rfl, rfl, rfl, id⟩
  · exact ⟨rfl, rfl, rfl, rfl, rfl, rfl, id⟩
  · split_ifs
    · refine ⟨rfl, rfl, rfl, rfl, rfl, rfl, fun empty => ?_⟩
      dsimp only
      rw [empty]
      rfl
    · exact ⟨rfl, rfl, rfl, rfl, rfl, rfl, id⟩
  · exact ⟨rfl, rfl, rfl, rfl, rfl, rfl, id⟩
  · exact ⟨rfl, rfl, rfl, rfl, rfl, rfl, id⟩

private theorem Inv.walk (h : Inv s) : Inv (walkStep s) := by
  obtain ⟨keepGoing, main, dienow, left, phase, accesses, empty⟩ := walkStep_frame s
  constructor
  · rw [keepGoing, main]
    exact h.signal
  · rw [main, dienow, accesses, left, phase]
    exact h.idle
  · rw [main, dienow, accesses, phase]
    exact h.counting
  · rw [left, phase]
    exact h.looping
  · rw [main]
    exact fun loops reading => empty (h.items loops reading)
  · rw [main, Settled, left, phase, accesses]
    intro back
    obtain ⟨⟨none, done⟩, clean⟩ := h.returned back
    exact ⟨⟨empty none, done⟩, clean⟩

private theorem Inv.signalled (h : Inv s) : Inv { s with keepGoing := false } where
  signal wrong := by cases wrong
  idle := h.idle
  counting := h.counting
  looping := h.looping
  items := h.items
  returned := h.returned

private theorem Inv.input (h : Inv s) (id : ℕ) : Inv (inputStep s id) where
  signal := h.signal
  idle := h.idle
  counting := h.counting
  looping := h.looping
  items loops reading := by
    rw [inputStep, h.items loops reading]
    rfl
  returned back := ⟨(h.returned back).1.no_input id, (h.returned back).2⟩

private theorem Inv.behind (h : Inv s) {t : Thread} (left : s.left t = true) :
    s.main ≠ .sleeping ∧ s.main ≠ .killing := by
  have still := fun early => ((h.idle early).2.2 t).1
  rw [left] at still
  constructor
  · exact fun sleeping => Bool.noConfusion (still (.inl sleeping))
  · exact fun killing => Bool.noConfusion (still (.inr killing))

private theorem Inv.output (h : Inv s) (t : Thread) : Inv (outputStep s t) := by
  rw [outputStep]
  by_cases left : s.left t = true
  · rw [if_pos left]
    obtain ⟨awake, killed⟩ := h.behind left
    have r := h.counting awake killed
    have early : ¬ (s.main = .sleeping ∨ s.main = .killing) := not_or.mpr ⟨awake, killed⟩
    have other : ∀ (x : Phase) k, s.left k = false → Function.update s.phase t x k = .before := by
      intro x k still
      have differs : k ≠ t := by
        rintro rfl
        rw [left] at still
        cases still
      rw [Function.update_of_ne differs]
      exact h.looping k still
    have unfinished : s.phase t ≠ .done → s.main ≠ .returned := by
      intro own back
      exact own ((h.returned back).1.2 t).2
    cases stands : s.phase t with
    | before =>
        refine ⟨h.signal, fun wrong => absurd wrong early, fun _ _ => r.read stands, other _,
          h.items, ?_⟩
        exact fun back => absurd back (unfinished (by rw [stands]; exact Phase.noConfusion))
    | holds v =>
        refine ⟨h.signal, fun wrong => absurd wrong early, fun _ _ => r.write stands, other _,
          h.items, ?_⟩
        exact fun back => absurd back (unfinished (by rw [stands]; exact Phase.noConfusion))
    | done =>
        dsimp only
        split_ifs
        · exact h.walk
        · exact h
  · rw [if_neg left]
    split_ifs with nonzero
    · have late : ¬ (s.main = .sleeping ∨ s.main = .killing) :=
        fun early => nonzero (h.idle early).1
      refine ⟨h.signal, fun wrong => absurd wrong late, h.counting, ?_, h.items, ?_⟩
      · intro k still
        dsimp only at still
        by_cases same : k = t
        · rw [same, Function.update_self] at still
          cases still
        · rw [Function.update_of_ne same] at still
          exact h.looping k still
      · exact fun back => absurd ((h.returned back).1.2 t).1 left
    · exact h

private theorem Inv.main (h : Inv s) : Inv (mainStep s) := by
  have loop : ∀ pc, s.main ≠ .sleeping → s.main ≠ .killing → pc ≠ .sleeping → pc ≠ .killing →
      (∀ loops, pc = .readDienow loops → s.inputs = []) →
      (pc = .returned → Settled s ∧ ¬ Overlaps s.accesses) → Inv { s with main := pc } := by
    intro pc awake killed awake' killed' items returned
    refine ⟨?_, ?_, fun _ _ => h.counting awake killed, h.looping, items, returned⟩
    · exact fun going => absurd (h.signal going) awake
    · rintro (wrong | wrong)
      · exact absurd wrong awake'
      · exact absurd wrong killed'
  rw [mainStep]
  cases stands : s.main with
  | sleeping =>
      dsimp only
      split_ifs with going
      · exact h
      · refine ⟨fun wrong => absurd wrong going, fun _ => h.idle (.inl stands), ?_, h.looping, ?_,
          ?_⟩
        · exact fun _ wrong => absurd rfl wrong
        · exact fun _ wrong => by cases wrong
        · exact fun wrong => by cases wrong
  | killing =>
      obtain ⟨-, none, begun⟩ := h.idle (.inr stands)
      refine ⟨?_, ?_, ?_, h.looping, ?_, ?_⟩
      · intro going
        rw [h.signal going] at stands
        cases stands
      · rintro (wrong | wrong) <;> cases wrong
      · intro _ _
        have phases : s.phase = fun _ => .before := funext fun t => (begun t).2
        dsimp only
        rw [none, phases]
        exact Run.start
      · exact fun _ wrong => by cases wrong
      · exact fun wrong => by cases wrong
  | readItems loops =>
      dsimp only
      split_ifs with some
      · refine loop _ ?_ ?_ ?_ ?_ ?_ ?_ <;> simp [stands]
      · have empty : s.inputs = [] := List.length_eq_zero_iff.mp (not_not.mp some)
        refine loop _ ?_ ?_ ?_ ?_ (fun _ _ => empty) ?_ <;> simp [stands]
  | readDienow loops =>
      dsimp only
      split_ifs with low
      · refine loop _ ?_ ?_ ?_ ?_ ?_ ?_ <;> simp [stands]
      · have r := h.counting (by simp [stands]) (by simp [stands])
        obtain ⟨done, clean⟩ := (four_le_iff r).mp (not_lt.mp low)
        have left : ∀ t, s.left t = true := by
          intro t
          by_contra still
          have := h.looping t (Bool.eq_false_iff.mpr still)
          rw [done t] at this
          cases this
        refine loop _ ?_ ?_ ?_ ?_ ?_ fun _ =>
          ⟨⟨h.items loops stands, fun t => ⟨left t, done t⟩⟩, clean⟩
        all_goals simp [stands]
  | waiting loops =>
      dsimp only
      split_ifs
      · refine loop _ ?_ ?_ ?_ ?_ ?_ ?_ <;> simp [stands]
      · refine loop _ ?_ ?_ ?_ ?_ ?_ ?_ <;> simp [stands]
  | returned => exact h
  | exited => exact h

private theorem Inv.act (h : Inv s) (turn : Turn) : Inv (act s turn) := by
  cases turn with
  | signal => exact h.signalled
  | main => exact h.main
  | output t => exact h.output t
  | input id => exact h.input id

private theorem Inv.run (h : Inv s) (turns : List Turn) : Inv (run s turns) := by
  induction turns generalizing s with
  | nil => exact h
  | cons turn turns ih =>
      rw [Model.run, List.foldl_cons, step]
      split_ifs
      · exact ih h
      · exact ih (h.act turn)

end steps

section ending

variable {s : State}

/-- How many turns of its own the main thread has left at most, when it has been told to stop. -/
def rank : MainPc → ℕ
  | .sleeping => 188
  | .killing => 187
  | .readItems loops => 3 * (61 - loops) + 3
  | .readDienow loops => 3 * (61 - loops) + 2
  | .waiting loops => 3 * (61 - loops) + 1
  | .returned | .exited => 0

/-- The main thread waits 62 times at most. -/
def Bounded : MainPc → Prop
  | .readItems loops | .readDienow loops | .waiting loops => loops ≤ 61
  | _ => True

private theorem act_frame (s : State) {turn : Turn} (other : turn ≠ .main) :
    (act s turn).main = s.main ∧ (s.keepGoing = false → (act s turn).keepGoing = false) := by
  cases turn with
  | signal => exact ⟨rfl, fun _ => rfl⟩
  | main => exact absurd rfl other
  | output t =>
      rw [act, outputStep]
      split_ifs
      · cases s.phase t with
        | before => exact ⟨rfl, id⟩
        | holds v => exact ⟨rfl, id⟩
        | done =>
            obtain ⟨keepGoing, main, -⟩ := walkStep_frame s
            dsimp only
            rw [keepGoing, main]
            exact ⟨rfl, id⟩
      · cases s.phase t <;> exact ⟨rfl, id⟩
      · exact ⟨rfl, id⟩
      · exact ⟨rfl, id⟩
  | input id => exact ⟨rfl, fun told => told⟩

private theorem mainStep_rank (told : s.keepGoing = false) (bounded : Bounded s.main)
    (going : ¬ Ended s) : (mainStep s).keepGoing = false ∧ Bounded (mainStep s).main ∧
      rank (mainStep s).main < rank s.main := by
  rw [Ended, not_or] at going
  rw [mainStep]
  cases stands : s.main with
  | sleeping =>
      dsimp only
      rw [told, if_neg Bool.false_ne_true]
      exact ⟨rfl, trivial, Nat.lt_succ_self 187⟩
  | killing => exact ⟨told, Nat.zero_le _, Nat.lt_succ_self 186⟩
  | readItems loops =>
      rw [stands] at bounded
      dsimp only
      split_ifs
      · exact ⟨told, bounded, by simp only [rank]; omega⟩
      · exact ⟨told, bounded, by simp only [rank]; omega⟩
  | readDienow loops =>
      rw [stands] at bounded
      dsimp only
      split_ifs
      · exact ⟨told, bounded, by simp only [rank]; omega⟩
      · exact ⟨told, trivial, by simp only [rank]; omega⟩
  | waiting loops =>
      rw [stands] at bounded
      dsimp only
      split_ifs with late
      · exact ⟨told, trivial, by simp only [rank]; omega⟩
      · refine ⟨told, ?_, ?_⟩
        · change loops + 1 ≤ 61
          omega
        · simp only [rank]
          omega
  | returned => exact absurd stands going.1
  | exited => exact absurd stands going.2

private theorem Ended.step (ended : Ended s) (turn : Turn) : Ended (step s turn) := by
  rw [Model.step]
  split_ifs with exited
  · exact ended
  · by_cases own : turn = .main
    · have returned : s.main = .returned := ended.resolve_right exited
      subst own
      rw [act, mainStep, returned]
      exact ended
    · rw [Ended, (act_frame s own).1]
      exact ended

private theorem Ended.run (ended : Ended s) (turns : List Turn) : Ended (run s turns) := by
  induction turns generalizing s with
  | nil => exact ended
  | cons turn turns ih => exact ih (ended.step turn)

private theorem ended_of_turns {turns : List Turn} (told : s.keepGoing = false)
    (bounded : Bounded s.main)
    (enough : rank s.main ≤ turns.count .main) : Ended (run s turns) := by
  by_cases ended : Ended s
  · exact ended.run turns
  induction turns generalizing s with
  | nil =>
      have pos : 0 < rank s.main := Nat.zero_lt_of_lt (mainStep_rank told bounded ended).2.2
      rw [List.count_nil] at enough
      omega
  | cons turn turns ih =>
      have moves : step s turn = act s turn := if_neg (not_or.mp ended).2
      have later : ∀ {s' : State}, s'.keepGoing = false → Bounded s'.main →
          rank s'.main ≤ turns.count .main → Ended (run s' turns) := by
        intro s' told' bounded' enough'
        by_cases ended' : Ended s'
        · exact ended'.run turns
        · exact ih told' bounded' enough' ended'
      rw [Model.run, List.foldl_cons, moves]
      by_cases own : turn = .main
      · subst own
        obtain ⟨told', bounded', less⟩ := mainStep_rank told bounded ended
        rw [List.count_cons_self] at enough
        exact later told' bounded' (by change rank (mainStep s).main ≤ _; omega)
      · obtain ⟨same, told'⟩ := act_frame s own
        rw [List.count_cons_of_ne own] at enough
        exact later (told' told) (same ▸ bounded) (same ▸ enough)

private theorem Bounded.step (bounded : Bounded s.main) (turn : Turn) :
    Bounded (step s turn).main := by
  rw [Model.step]
  split_ifs
  · exact bounded
  · by_cases own : turn = .main
    · subst own
      rw [act, mainStep]
      cases stands : s.main with
      | sleeping =>
          dsimp only
          split_ifs
          · rw [stands]
            trivial
          · trivial
      | killing => exact Nat.zero_le _
      | readItems loops =>
          rw [stands] at bounded
          dsimp only
          split_ifs <;> exact bounded
      | readDienow loops =>
          rw [stands] at bounded
          dsimp only
          split_ifs
          · exact bounded
          · trivial
      | waiting loops =>
          dsimp only
          split_ifs with late
          · trivial
          · change loops + 1 ≤ 61
            omega
      | returned => rwa [stands] at bounded ⊢
      | exited => rwa [stands] at bounded ⊢
    · rwa [(act_frame s own).1]

private theorem Bounded.run (bounded : Bounded s.main) (turns : List Turn) :
    Bounded (run s turns).main := by
  induction turns generalizing s with
  | nil => exact bounded
  | cons turn turns ih => exact ih (bounded.step turn)

private theorem rank_le (pc : MainPc) : rank pc ≤ 188 := by
  cases pc with
  | sleeping => exact le_rfl
  | killing => exact Nat.le_succ 187
  | readItems loops => simp only [rank]; omega
  | readDienow loops => simp only [rank]; omega
  | waiting loops => simp only [rank]; omega
  | returned => exact Nat.zero_le _
  | exited => exact Nat.zero_le _

private theorem Settled.act (settled : Settled s) (turn : Turn) (running : s.main ≠ .killing) :
    Settled (act s turn) ∧ (act s turn).dienow = s.dienow ∧
      (act s turn).accesses = s.accesses := by
  cases turn with
  | signal => exact ⟨settled, rfl, rfl⟩
  | main =>
      rw [Model.act, mainStep]
      cases stands : s.main with
      | sleeping => dsimp only; split_ifs <;> exact ⟨settled, rfl, rfl⟩
      | killing => exact absurd stands running
      | readItems loops => exact ⟨settled, rfl, rfl⟩
      | readDienow loops => exact ⟨settled, rfl, rfl⟩
      | waiting loops => exact ⟨settled, rfl, rfl⟩
      | returned => exact ⟨settled, rfl, rfl⟩
      | exited => exact ⟨settled, rfl, rfl⟩
  | output t =>
      rw [Model.act, outputStep, if_pos (settled.2 t).1, (settled.2 t).2]
      dsimp only
      split_ifs
      · obtain ⟨-, -, dienow, left, phase, accesses, empty⟩ := walkStep_frame s
        rw [Settled, left, phase]
        exact ⟨⟨empty settled.1, settled.2⟩, dienow, accesses⟩
      · exact ⟨settled, rfl, rfl⟩
  | input id => exact ⟨settled.no_input id, rfl, rfl⟩

/-- The main thread is looking, and finds what it is looking for. -/
structure Clear (s : State) : Prop where
  settled : Settled s
  counted : 4 ≤ s.dienow
  looks : (∃ loops, s.main = .readItems loops ∨ s.main = .readDienow loops) ∨ s.main = .returned

private theorem Clear.step (clear : Clear s) (turn : Turn) : Clear (step s turn) := by
  obtain ⟨settled, counted, looks⟩ := clear
  have running : s.main ≠ .exited ∧ s.main ≠ .killing := by
    rcases looks with ⟨loops, items | dienow⟩ | back
    · simp [items]
    · simp [dienow]
    · simp [back]
  obtain ⟨still, same, -⟩ := settled.act turn running.2
  rw [Model.step, if_neg running.1]
  refine ⟨still, same ▸ counted, ?_⟩
  by_cases own : turn = .main
  · subst own
    rw [act, mainStep]
    rcases looks with ⟨loops, items | dienow⟩ | back
    · rw [items]
      exact .inl ⟨loops, .inr (if_neg (not_not.mpr (by rw [settled.1]; rfl)))⟩
    · rw [dienow]
      exact .inr (if_neg (not_lt.mpr counted))
    · rw [back]
      exact .inr back
  · rwa [(act_frame s own).1]

private theorem Clear.run (clear : Clear s) (turns : List Turn) : Clear (run s turns) := by
  induction turns generalizing s with
  | nil => exact clear
  | cons turn turns ih => exact ih (clear.step turn)

private theorem accesses_run (settled : Settled s) (killed : s.main ≠ .sleeping ∧ s.main ≠ .killing)
    (turns : List Turn) : (run s turns).accesses = s.accesses := by
  induction turns generalizing s with
  | nil => rfl
  | cons turn turns ih =>
      rw [Model.run, List.foldl_cons, step]
      split_ifs with exited
      · exact ih settled killed
      · obtain ⟨still, -, same⟩ := settled.act turn killed.2
        refine (ih still ?_).trans same
        by_cases own : turn = .main
        · subst own
          rw [act, mainStep]
          cases stands : s.main with
          | sleeping => exact absurd stands killed.1
          | killing => exact absurd stands killed.2
          | readItems loops => dsimp only; split_ifs <;> simp
          | readDienow loops => dsimp only; split_ifs <;> simp
          | waiting loops => dsimp only; split_ifs <;> simp
          | returned => simp [stands]
          | exited => exact absurd stands exited
        · rwa [(act_frame s own).1]

end ending

section outcome

variable (ids : List ℕ) (front turns : List Turn)

private theorem run_append (s : State) : run s (front ++ turns) = run (run s front) turns :=
  List.foldl_append

private theorem bounded_start : Bounded (start ids).main := trivial

/-- When the main thread gets past `kill_threads`, no input is left, the output threads have left
their loops and counted one after the other. Only the last loop of the mixer may not be over. -/
theorem returned_means (back : (run (start ids) turns).main = .returned) :
    Settled (run (start ids) turns) ∧ ¬ Overlaps (run (start ids) turns).accesses :=
  ((inv_start ids).run turns).returned back

/-- After a signal the main thread comes to an end: 188 steps of its own are enough, whatever the
other threads do. -/
theorem kill_threads_ends (enough : 188 ≤ turns.count .main) :
    Ended (run (start ids) (front ++ .signal :: turns)) := by
  rw [run_append, run, List.foldl_cons]
  have bounded := (bounded_start ids).run front
  by_cases exited : (run (start ids) front).main = .exited
  · rw [step, if_pos exited]
    exact Ended.run (.inr exited) turns
  · rw [step, if_neg exited]
    exact ended_of_turns rfl bounded ((rank_le _).trans enough)

/-- Once all inputs are gone and all output threads are done, the main thread goes on to free
everything if and only if no increment of `dienow` got lost. Otherwise it waits until its time is
over, and exits. -/
theorem kill_threads_outcome {loops : ℕ}
    (looks : (run (start ids) front).main = .readItems loops)
    (settled : Settled (run (start ids) front)) (enough : 188 ≤ turns.count .main) :
    ((run (start ids) (front ++ turns)).main = .returned ↔
        ¬ Overlaps (run (start ids) front).accesses) ∧
      ((run (start ids) (front ++ turns)).main = .exited ↔
        Overlaps (run (start ids) front).accesses) := by
  have inv := (inv_start ids).run front
  have bounded := (bounded_start ids).run front
  rw [run_append]
  generalize run (start ids) front = s at looks settled inv bounded
  have told : s.keepGoing = false := by
    by_contra going
    rw [inv.signal (Bool.not_eq_false _ ▸ going)] at looks
    cases looks
  have killed : s.main ≠ .sleeping ∧ s.main ≠ .killing := by simp [looks]
  have ended := ended_of_turns told bounded ((rank_le _).trans enough)
  have same := accesses_run settled killed turns
  have returned := (inv.run turns).returned
  rw [same] at returned
  by_cases some : Overlaps s.accesses
  · have other : (run s turns).main ≠ .returned := fun back => (returned back).2 some
    have exited := ended.resolve_left other
    exact ⟨iff_of_false other (not_not_intro some), iff_of_true exited some⟩
  · have counted := (four_le_iff (inv.counting killed.1 killed.2)).mpr
      ⟨fun t => (settled.2 t).2, some⟩
    have clear : Clear s := ⟨settled, counted, .inl ⟨loops, .inl looks⟩⟩
    have back : (run s turns).main = .returned := by
      rcases (clear.run turns).looks with ⟨loops, items | dienow⟩ | back
      · rcases ended with back | exited
        · exact back
        · rw [items] at exited
          cases exited
      · rcases ended with back | exited
        · exact back
        · rw [dienow] at exited
          cases exited
      · exact back
    exact ⟨iff_of_true back some, iff_of_false (by simp [back]) some⟩

/-- Two output threads count at the same time, and one of their counts is lost. -/
def crossing : List Turn :=
  [.signal, .main, .main, .output .psi, .output .write, .output .psi, .output .write, .output .psi,
    .output .write, .output .mix, .output .mix, .output .mix, .output .mix, .output .mix, .input 7]

/-- All three count one after the other. -/
def inTurn : List Turn :=
  [.signal, .main, .main, .output .psi, .output .psi, .output .psi, .output .write, .output .write,
    .output .write, .output .mix, .output .mix, .output .mix, .output .mix, .output .mix, .input 7,
    .main, .main]

theorem returned_means_sample :
    Settled (run (start [7]) inTurn) ∧ ¬ Overlaps (run (start [7]) inTurn).accesses :=
  returned_means [7] inTurn (by decide)

theorem kill_threads_ends_sample :
    Ended (run (start [7]) ([.main] ++ .signal :: List.replicate 188 .main)) :=
  kill_threads_ends [7] [.main] (List.replicate 188 .main) List.count_replicate_self.ge

theorem kill_threads_outcome_sample :
    (run (start [7]) (crossing ++ List.replicate 188 .main)).main = .exited := by
  have outcome := kill_threads_outcome [7] crossing (List.replicate 188 .main) rfl
    ⟨rfl, by decide⟩ List.count_replicate_self.ge
  exact outcome.2.mpr ⟨.write, .psi, [.read .psi], [.write .psi],
    [.read .mix, .write .mix], rfl, List.mem_singleton_self _⟩

end outcome

end Mptsd.Shutdown.Ending
