/- Unit: Mptsd/Mixer/Fair
   source: src/output_mix.c (output_handle_mix, the loop over the inputs)
   digest: The inputs take turns, across slots and buffers. -/

import Mptsd.Lib.RoundRobin
import Mptsd.Mixer.Gate

set_option autoImplicit false
set_option relaxedAutoImplicit false

namespace Mptsd.Mixer.Fair

open Mptsd.TsPacket (TsFuncs nullPid headerFuncs)
open Mptsd.Channels (sampleChannel)
open Mptsd.Conf (Config)
open Mptsd.Lib.Queue (Fifo)
open Mptsd.Lib.RoundRobin
open Mptsd.PsiTables (Cbuf)
open Mptsd.Sections (payloadPacket sectionLibs)
open Mptsd.Intake.Model (Input inputNew)
open Mptsd.Mixer.Model
open Mptsd.Mixer.Fill (stepNode_eq buf_pcrGate)
open Mptsd.Mixer.Observer
open Mptsd.Mixer.Gate (slowConfig oneInput trail mem_trail mixRun_trail)

variable (ts : TsFuncs) (conf : Config)

/-- A visit to input `i` would give a packet: there is one, and the PCR gate does not hold it. -/
def available (s : Mix) (i : ℕ) : Bool :=
  match s.inputs[i]? with
  | none => false
  | some r =>
      match (visitInput ts conf s.maxPackets r).1 with
      | .data _ => true
      | _ => false

/-- The mixer looks for an input to take a packet from. -/
def choosing (s : Mix) : Bool :=
  match s.pc with
  | .scan (_ + 1) _ => true
  | _ => false

/-- The packets ever taken from the buffer of input `i`. -/
def takenCount (s : Mix) (i : ℕ) : ℕ :=
  match s.inputs[i]? with
  | none => 0
  | some r => r.buf.taken.length

/-- The packets taken from input `i` since the state `w`. -/
def served (w v : Watch) (i : ℕ) : ℕ := takenCount v.mix i - takenCount w.mix i

/-- The packets taken from all inputs since the state `w`. -/
def servedAll (w v : Watch) : ℕ := ((List.range w.mix.inputs.length).map (served w v)).sum

section visit

variable {ts conf}

variable (ts conf) in
private theorem taken_visitInput (maxPackets : ℕ) (r : Input) :
    ∃ extra ≤ 1, (visitInput ts conf maxPackets r).2.buf.taken.length =
        r.buf.taken.length + extra ∧
      ∀ p, (visitInput ts conf maxPackets r).1 = .data p → extra = 1 := by
  have read : ∀ r' : Input, r'.buf = r.buf →
      ∃ extra ≤ 1, (readInput ts r').2.buf.taken.length = r.buf.taken.length + extra ∧
        ∀ p, (readInput ts r').1 = .data p → extra = 1 := by
    intro r' same
    rw [readInput]
    rw [same]
    cases waiting : r.buf.waiting with
    | nil =>
        rw [PsiTables.cbufGet_of_nil waiting]
        exact ⟨0, by omega, rfl, by simp⟩
    | cons p rest =>
        rw [PsiTables.cbufGet_of_cons waiting]
        exact ⟨1, le_rfl, by simp, fun _ _ => rfl⟩
  rw [visitInput]
  split
  · split
    · exact ⟨0, by omega, rfl, by simp⟩
    · rename_i p _
      dsimp only
      split
      · exact ⟨0, by omega, by rw [buf_pcrGate, Nat.add_zero], by simp⟩
      · exact read _ (buf_pcrGate ts conf maxPackets r p)
  · exact read r rfl

end visit

/-- What one step does to the cursor and to the buffers of the inputs: nothing, or the cursor goes
on to the next input and takes at most one packet there. -/
inductive Turn (s s' : Mix) : Prop
  | quiet (node : s'.node = s.node) (taken : ∀ i, takenCount s' i = takenCount s i)
  | visit (extra : ℕ) (chooses : choosing s = true) (small : extra ≤ 1)
      (node : s'.node = s.node % s.inputs.length + 1)
      (here : takenCount s' (s.node % s.inputs.length) =
        takenCount s (s.node % s.inputs.length) + extra)
      (others : ∀ i, i ≠ s.node % s.inputs.length → takenCount s' i = takenCount s i)
      (full : available ts conf s (s.node % s.inputs.length) = true → extra = 1)

section steps

variable {ts conf} {s : Mix}

private theorem takenCount_map {s s' : Mix} (n : ℕ)
    (same : s'.inputs = s.inputs.map (countPackets n))
    (i : ℕ) : takenCount s' i = takenCount s i := by
  unfold takenCount
  rw [same, List.getElem?_map]
  cases s.inputs[i]? <;> rfl

private theorem turn_scanInput {left readCount : ℕ} (pc : s.pc = .scan (left + 1) readCount)
    (node : s.node ≤ s.inputs.length) (some : 0 < s.inputs.length) :
    Turn ts conf s (scanInput ts conf s left readCount) := by
  have step := stepNode_eq some node
  have index : stepNode s.inputs.length s.node - 1 = s.node % s.inputs.length := by omega
  have inside : s.node % s.inputs.length < s.inputs.length := Nat.mod_lt _ some
  have found := List.getElem?_eq_getElem inside
  generalize s.inputs[s.node % s.inputs.length] = r at found
  have inputs := scanInput_inputs ts conf (by rw [index]; exact found) left readCount
  rw [index] at inputs
  obtain ⟨extra, small, taken, data⟩ := taken_visitInput ts conf s.maxPackets r
  refine .visit extra ?_ small ?_ ?_ ?_ ?_
  · simp [choosing, pc]
  · rw [← step]
    rw [scanInput]
    dsimp only
    rw [index, found]
    dsimp only
    split <;> rfl
  · unfold takenCount
    rw [inputs, found, List.getElem?_set_self inside]
    exact taken
  · intro i other
    unfold takenCount
    rw [inputs, List.getElem?_set_ne (Ne.symm other)]
  · intro ready
    rw [available] at ready
    rw [found] at ready
    dsimp only at ready
    split at ready
    · rename_i p given
      exact data p given
    · cases ready

variable (ts conf) in
private theorem turn_mixTurn (node : s.node ≤ s.inputs.length) (some : 0 < s.inputs.length) :
    Turn ts conf s (mixTurn ts conf s) := by
  have step := mixTurn_step ts conf s
  generalize after : mixTurn ts conf s = t at step ⊢
  cases step with
  | start =>
      rw [startFill]
      dsimp only
      split
      · exact .quiet rfl (takenCount_map s.maxPackets rfl)
      · exact .quiet rfl fun _ => rfl
  | visit pc => exact turn_scanInput pc node some
  | skip => exact .quiet rfl (takenCount_map 1 rfl)
  | place => exact .quiet rfl (takenCount_map 1 rfl)
  | _ => exact .quiet rfl fun _ => rfl

private theorem takenCount_arrive {s' : Mix} (arrives : Arrives ts s s') (i : ℕ) :
    takenCount s' i = takenCount s i := by
  unfold takenCount
  cases found : s'.inputs[i]? with
  | none =>
      have absent : s.inputs[i]? = none := by
        rw [List.getElem?_eq_none_iff] at found ⊢
        rw [arrives.inputs.length_eq]
        exact found
      rw [absent]
  | some r' =>
      obtain ⟨r, before, more⟩ := Fill.getElem?_of_forall₂ arrives.inputs found
      obtain ⟨data, buf, -⟩ := more.buf
      have taken : r'.buf.taken = r.buf.taken := by rw [buf, Fifo.taken_push]
      rw [before]
      exact congrArg List.length taken

end steps

/-- `k` visits after the state `w`: the cursor has moved on by `k` places, and every input whose
visits all gave data has been taken from as often as it was visited. -/
structure Rounds (w v : Watch) (k : ℕ) : Prop where
  items : v.mix.inputs.length = w.mix.inputs.length
  node : v.mix.node % w.mix.inputs.length = (w.mix.node + k) % w.mix.inputs.length
  kept : ∀ i, takenCount w.mix i ≤ takenCount v.mix i
  total : servedAll w v ≤ k

section run

variable {ts conf} {w v : Watch} {visited : List Watch} {k : ℕ}

private theorem servedAll_visit {v' : Watch} {idx extra : ℕ}
    (kept : ∀ i, takenCount w.mix i ≤ takenCount v.mix i)
    (here : takenCount v'.mix idx = takenCount v.mix idx + extra)
    (others : ∀ i, i ≠ idx → takenCount v'.mix i = takenCount v.mix i) :
    servedAll w v' ≤ servedAll w v + extra := by
  unfold servedAll
  generalize w.mix.inputs.length = n
  induction n with
  | zero => simp
  | succ n ih =>
      rw [List.range_succ, List.map_append, List.map_append, List.sum_append, List.sum_append]
      simp only [List.map_cons, List.map_nil, List.sum_cons, List.sum_nil, Nat.add_zero]
      by_cases own : n = idx
      · subst own
        have rest : (List.range n).map (served w v') = (List.range n).map (served w v) := by
          apply List.map_congr_left
          intro i inside
          rw [served, served, others i (by rw [List.mem_range] at inside; omega)]
        have := kept n
        rw [rest, served, served, here]
        omega
      · rw [show served w v' n = served w v n by rw [served, served, others n own]]
        omega

private theorem Rounds.turn {v' : Watch} (h : Rounds w v k) (some : 0 < w.mix.inputs.length)
    (turn : Turn ts conf v.mix v'.mix) (items : v'.mix.inputs.length = v.mix.inputs.length) :
    ∃ k', Rounds w v' k' ∧ ∀ i < w.mix.inputs.length,
      (choosing v.mix = true → available ts conf v.mix i = true) →
      served w v i = visits w.mix.inputs.length w.mix.node i k →
      served w v' i = visits w.mix.inputs.length w.mix.node i k' := by
  cases turn with
  | quiet node taken =>
      have same : served w v' = served w v := by
        ext i
        rw [served, served, taken]
      refine ⟨k, ⟨items.trans h.items, by rw [node]; exact h.node, ?_, ?_⟩, ?_⟩
      · intro i
        rw [taken]
        exact h.kept i
      · rw [servedAll]
        rw [same]
        exact h.total
      · intro i _ _ before
        rw [same]
        exact before
  | visit extra chooses small node here others full =>
      rw [h.items] at node here others full
      rw [h.node] at here others full
      have position : (w.mix.node + k) % w.mix.inputs.length < w.mix.inputs.length :=
        Nat.mod_lt _ some
      refine ⟨k + 1, ⟨items.trans h.items, ?_, ?_, ?_⟩, ?_⟩
      · rw [node, h.node, Nat.mod_add_mod]
        rfl
      · intro i
        have := h.kept i
        by_cases own : i = (w.mix.node + k) % w.mix.inputs.length
        · rw [own] at this ⊢
          omega
        · rw [others i own]
          exact this
      · have := servedAll_visit h.kept here others
        have := h.total
        omega
      · intro i inside ready before
        rw [visits_succ]
        have grown := h.kept i
        by_cases own : i = (w.mix.node + k) % w.mix.inputs.length
        · rw [if_pos own.symm, ← before]
          rw [← own] at here full
          have one := full (ready chooses)
          unfold served
          omega
        · rw [if_neg (Ne.symm own), ← before, Nat.add_zero, served, served, others i own]

private theorem Rounds.arrive {s' : Mix} (h : Rounds w v k) (arrives : Arrives ts v.mix s') :
    Rounds w { v with mix := s' } k ∧ served w { v with mix := s' } = served w v := by
  have taken := takenCount_arrive arrives
  have same : served w { v with mix := s' } = served w v := by
    ext i
    exact congrArg (· - takenCount w.mix i) (taken i)
  have node : s'.node = v.mix.node := by rw [arrives.rest]
  refine ⟨⟨arrives.inputs.length_eq.symm.trans h.items, ?_, ?_, ?_⟩, same⟩
  · show s'.node % _ = _
    rw [node]
    exact h.node
  · intro i
    show _ ≤ takenCount s' i
    rw [taken]
    exact h.kept i
  · rw [servedAll]
    rw [same]
    exact h.total

private theorem rounds_run (watched : Watched ts conf w) (some : 0 < w.mix.inputs.length)
    (run : MixRun ts conf w visited) : ∀ v ∈ visited, ∃ k, Rounds w v k ∧
      ∀ i < w.mix.inputs.length,
        (∀ u ∈ visited, choosing u.mix = true → available ts conf u.mix i = true) →
        served w v i = visits w.mix.inputs.length w.mix.node i k := by
  induction run with
  | start =>
      intro v member
      obtain rfl := List.mem_singleton.mp member
      refine ⟨0, ⟨rfl, rfl, fun _ => le_rfl, ?_⟩, ?_⟩
      · have nothing : served v v = fun _ => 0 := by
          ext i
          exact Nat.sub_self _
        simp [servedAll, nothing]
      · intro i _ _
        simp [served]
  | turn before ih =>
      rename_i v visited
      have sound := (watched.run before v (by simp)).sound
      intro u member
      rcases List.mem_cons.mp member with rfl | earlier
      · obtain ⟨k, rounds, exact⟩ := ih v (by simp)
        have step := turn_mixTurn ts conf sound.node (by rw [rounds.items]; exact some)
        have items := (sound.mixTurn).2.2
        rw [← mix_turn] at step items
        obtain ⟨k', rounds', exact'⟩ := rounds.turn some step items
        refine ⟨k', rounds', ?_⟩
        intro i inside ready
        have ready' : ∀ u ∈ v :: visited, choosing u.mix = true →
            available ts conf u.mix i = true := fun u member =>
          ready u (List.mem_cons_of_mem _ member)
        exact exact' i inside (ready' v (by simp)) (exact i inside ready')
      · obtain ⟨k, rounds, exact⟩ := ih u earlier
        exact ⟨k, rounds, fun i inside ready =>
          exact i inside fun u member => ready u (List.mem_cons_of_mem _ member)⟩
  | arrive before arrives ih =>
      rename_i v visited s'
      intro u member
      rcases List.mem_cons.mp member with rfl | earlier
      · obtain ⟨k, rounds, exact⟩ := ih v (by simp)
        obtain ⟨rounds', same⟩ := rounds.arrive arrives
        refine ⟨k, rounds', ?_⟩
        intro i inside ready
        rw [same]
        exact exact i inside fun u member => ready u (List.mem_cons_of_mem _ member)
      · obtain ⟨k, rounds, exact⟩ := ih u earlier
        exact ⟨k, rounds, fun i inside ready =>
          exact i inside fun u member => ready u (List.mem_cons_of_mem _ member)⟩

/-- Two inputs that have a packet to send whenever the mixer looks for one are served in turn: at
every moment of the interval as often, up to one. In as many packets taken from inputs as there
are inputs, each of them has its share. -/
theorem served_in_turn {w₀ : Watch} {past : List Watch} (fresh : Fresh ts conf w₀)
    (before : MixRun ts conf w₀ past) (begins : w ∈ past) (run : MixRun ts conf w visited)
    {i j : ℕ} (hi : i < w.mix.inputs.length) (hj : j < w.mix.inputs.length)
    (ready : ∀ v ∈ visited, choosing v.mix = true →
      available ts conf v.mix i = true ∧ available ts conf v.mix j = true) :
    ∀ v ∈ visited, served w v i ≤ served w v j + 1 ∧ served w v j ≤ served w v i + 1 ∧
      (w.mix.inputs.length ≤ servedAll w v → 0 < served w v i) := by
  intro v member
  obtain ⟨k, rounds, exact⟩ :=
    rounds_run (watched_run fresh before w begins) (by omega) run v member
  rw [exact i hi fun u inside chooses => (ready u inside chooses).1,
    exact j hj fun u inside chooses => (ready u inside chooses).2]
  refine ⟨visits_le_succ w.mix.node hi hj k, visits_le_succ w.mix.node hj hi k, ?_⟩
  intro round
  exact visits_pos w.mix.node hi (round.trans rounds.total)

end run

/-- Two inputs with three packets each. -/
def twoInputs : Watch :=
  let stocked (pid : ℕ) : Input :=
    { inputNew sectionLibs "a" (sampleChannel 1 0) false with
      buf := (Cbuf.init 65800).append (List.replicate 3 (payloadPacket pid)) }
  let w := oneInput slowConfig []
  { w with mix := { w.mix with inputs := [stocked 0x21, stocked 0x41], node := 2 } }

private theorem fresh_twoInputs : Fresh headerFuncs slowConfig twoInputs where
  pc := rfl
  size := rfl
  node := le_rfl
  clean r member p stored := by
    have pids : ∀ r ∈ twoInputs.mix.inputs, ∀ pid ∈ r.buf.waiting.map headerFuncs.getPid,
        pid ≠ nullPid := by
      decide +kernel
    exact pids r member _ (List.mem_map_of_mem stored)
  inputs r member := by
    simp only [twoInputs, List.mem_cons, List.not_mem_nil, or_false] at member
    rcases member with rfl | rfl <;> exact ⟨rfl, rfl, rfl⟩
  counted _ := rfl
  pcrSlot _ := rfl
  released := rfl

/-- After thirteen steps two packets have been taken from each. -/
theorem served_in_turn_twice :
    let v := (Watch.turn headerFuncs slowConfig)^[13] twoInputs
    served twoInputs v 0 ≤ served twoInputs v 1 + 1 ∧
      served twoInputs v 1 ≤ served twoInputs v 0 + 1 ∧
      (2 ≤ servedAll twoInputs v → 0 < served twoInputs v 0) := by
  have ready : ∀ v ∈ trail headerFuncs slowConfig twoInputs 13, choosing v.mix = true →
      available headerFuncs slowConfig v.mix 0 = true ∧
        available headerFuncs slowConfig v.mix 1 = true := by
    decide +kernel
  exact served_in_turn fresh_twoInputs .start (List.mem_singleton.mpr rfl)
    (mixRun_trail headerFuncs slowConfig twoInputs 13).1 (by decide) (by decide) ready _
    (mem_trail headerFuncs slowConfig twoInputs le_rfl)

end Mptsd.Mixer.Fair
