/- Unit: Mptsd/Mixer/Iterations
   source: src/output_mix.c (output_handle_mix, the loop over the data packets)
   digest: The loop over the data packets is entered as often as there are packets in the budget,
   and never for the same packet twice. -/

import Mptsd.Mixer.Fill

set_option autoImplicit false
set_option relaxedAutoImplicit false

namespace Mptsd.Mixer.Iterations

open Mptsd.TsPacket (TsFuncs nullPid headerFuncs)
open Mptsd.Conf (Config sampleConfig)
open Mptsd.Mixer.Model
open Mptsd.Mixer.Fill

/-- The next step enters the body of the loop over the data packets. -/
def enters (s : Mix) : Bool := s.pc = .psi && s.dataPackets < s.budget.packets

variable (ts : TsFuncs) (conf : Config)

/-- A run within one buffer, with the number of the mixer's steps and of the iterations begun. -/
inductive LoopRun (s : Mix) : ℕ → ℕ → Mix → Prop
  | start : LoopRun s 0 0 (startFill s)
  | turn {n k t} : LoopRun s n k t → t.pc ≠ .full →
      LoopRun s (n + 1) (k + if enters t then 1 else 0) (mixTurn ts conf t)
  | arrive {n k t t'} : LoopRun s n k t → Arrives ts t t' → LoopRun s n k t'

/-- The iterations begun when the mixer stands at `pc`, of `packets` in all. -/
def iterationsAt (packets dataPackets : ℕ) : Pc → ℕ
  | .waiting | .psi => dataPackets
  | .scan _ _ | .send _ => dataPackets + 1
  | .full => packets

/-- The iterations begun are those of the packets dealt with, and the one going on. -/
structure Counted (s₀ t : Mix) (k : ℕ) : Prop where
  budget : t.budget = budget s₀.maxPackets (dataSize s₀.psibuf s₀.inputs)
  begun : k = iterationsAt t.budget.packets t.dataPackets t.pc

variable {ts conf} {s t : Mix} {n k : ℕ}

private theorem LoopRun.fillRun (run : LoopRun ts conf s n k t) : FillRun ts conf s n t := by
  induction run with
  | start => exact .start
  | turn _ unfinished ih => exact .turn ih unfinished
  | arrive _ arrives ih => exact .arrive ih arrives

private theorem counted_startFill : Counted s (startFill s) 0 := by
  obtain ⟨room, -, whole⟩ := budget_packets_le s.maxPackets (dataSize s.psibuf s.inputs)
  rw [startFill]
  dsimp only
  split
  · rename_i nothing
    refine ⟨rfl, ?_⟩
    rw [Budget.nullPackets] at nothing
    simp only [iterationsAt]
    omega
  · exact ⟨rfl, rfl⟩

private theorem counted_scanInput {left readCount : ℕ} (h : Counted s t (t.dataPackets + 1)) :
    Counted s (scanInput ts conf t left readCount)
      (t.dataPackets + 1) := by
  obtain ⟨-, data, -⟩ := scanInput_place ts conf t left readCount
  obtain ⟨budget, -⟩ := scanInput_budget ts conf t left readCount
  have count : iterationsAt t.budget.packets t.dataPackets
      (scanInput ts conf t left readCount).pc = t.dataPackets + 1 := by
    obtain ⟨inputs, pc, removed, after, -, ⟨count, rfl⟩ | ⟨p, rfl⟩⟩ :=
      scanInput_frame ts conf t left readCount
    · rw [after]
      rfl
    · rw [after]
      rfl
  exact ⟨budget.trans h.budget, by rw [budget, data, count]⟩

private theorem Counted.mixTurn {s₀ : Mix} (h : Counted s t k) (filling : Filling ts s₀ t)
    (unfinished : t.pc ≠ .full) :
    Counted s (mixTurn ts conf t) (k + if enters t then 1 else 0) := by
  obtain ⟨budget, count⟩ := h
  have stands := filling.stands
  have overruns := (filling.mixTurn conf unfinished).overruns.trans filling.overruns.symm
  have step := mixTurn_step ts conf t
  generalize Model.mixTurn ts conf t = after at step overruns ⊢
  cases step with
  | start pc =>
      rw [pc] at stands
      exact stands.elim
  | takePsi pc more =>
      rw [pc] at count
      rw [if_pos (show enters t = true by simp [enters, pc, more]), count]
      exact ⟨budget, rfl⟩
  | toInputs pc more =>
      rw [pc] at count
      rw [if_pos (show enters t = true by simp [enters, pc, more]), count]
      exact ⟨budget, rfl⟩
  | done pc all =>
      rw [pc] at stands count
      have most : t.dataPackets ≤ t.budget.packets := stands
      rw [show enters t = false by simp [enters, pc]; omega, count]
      refine ⟨budget, ?_⟩
      show t.dataPackets + 0 = t.budget.packets
      omega
  | visit pc =>
      rw [pc] at count
      rw [show enters t = false by simp [enters, pc], count]
      exact counted_scanInput ⟨budget, by rw [pc]; rfl⟩
  | again pc =>
      rw [pc] at stands
      obtain ⟨-, -, unread⟩ := stands
      obtain ⟨j, impossible, -⟩ := unread rfl
      omega
  | nothing pc =>
      rw [pc] at count
      rw [show enters t = false by simp [enters, pc], count]
      exact ⟨budget, rfl⟩
  | skip pc =>
      rw [pc] at count
      rw [show enters t = false by simp [enters, pc], count]
      exact ⟨budget, rfl⟩
  | overrun => exact absurd overruns (Nat.succ_ne_self _)
  | place pc =>
      rw [pc] at count
      rw [show enters t = false by simp [enters, pc], count]
      exact ⟨budget, rfl⟩
  | wait pc => exact absurd pc unfinished

private theorem Counted.arrive {t' : Mix} (h : Counted s t k) (arrives : Arrives ts t t') :
    Counted s t' k := by
  obtain ⟨budget, count⟩ := h
  rw [arrives.rest]
  exact ⟨budget, count⟩

/-- In every fill the loop over the data packets comes to its end: every step brings it nearer, no
iteration is repeated, and at the end there have been as many as there are packets. -/
theorem loop_iterations (node : s.node ≤ s.inputs.length)
    (clean : ∀ r ∈ s.inputs, ∀ p ∈ r.buf.waiting, ts.getPid p ≠ nullPid)
    (run : LoopRun ts conf s n k t) :
    n + stepsLeft t ≤ stepsLeft (startFill s) ∧ t.retries = s.retries ∧
      k ≤ (budget s.maxPackets (dataSize s.psibuf s.inputs)).packets ∧
      (t.pc = .full → k = (budget s.maxPackets (dataSize s.psibuf s.inputs)).packets) ∧
      (t.pc ≠ .full → 0 < stepsLeft t) := by
  obtain ⟨filling, bound⟩ := filling_run node clean run.fillRun
  have counted : Counted s t k := by
    induction run with
    | start => exact counted_startFill
    | turn before unfinished ih =>
        obtain ⟨filling, bound⟩ := filling_run node clean before.fillRun
        exact (ih filling bound).mixTurn filling unfinished
    | arrive before arrives ih =>
        obtain ⟨filling, bound⟩ := filling_run node clean before.fillRun
        exact (ih filling bound).arrive arrives
  have stands := filling.stands
  have count := counted.begun
  rw [← counted.budget]
  refine ⟨bound, filling.retries, ?_, ?_, ?_⟩
  · cases pc : t.pc with
    | waiting =>
        rw [pc] at stands
        exact stands.elim
    | psi =>
        rw [pc] at stands count
        exact count.trans_le stands
    | scan left readCount =>
        rw [pc] at stands count
        exact count.trans_le stands.1
    | send data =>
        rw [pc] at stands count
        exact count.trans_le stands
    | full =>
        rw [pc] at count
        exact count.le
  · intro full
    rw [full] at count
    exact count
  · intro unfinished
    exact Nat.zero_lt_of_lt (filling.stepsLeft_lt conf unfinished)

variable (ts conf) in
private theorem loopRun_iterate (n : ℕ)
    (unfinished : ∀ j < n, ((mixTurn ts conf)^[j] (startFill s)).pc ≠ .full) :
    LoopRun ts conf s n
      ((List.range n).countP fun j => enters ((mixTurn ts conf)^[j] (startFill s)))
      ((mixTurn ts conf)^[n] (startFill s)) := by
  induction n with
  | zero => exact .start
  | succ n ih =>
      rw [Function.iterate_succ_apply', List.range_succ, List.countP_append, List.countP_singleton]
      exact .turn (ih fun j before => unfinished j (by omega)) (unfinished n (by omega))

theorem loop_iterations_two_packets :
    let t := (mixTurn headerFuncs (sampleConfig 3))^[6] (startFill sampleMix)
    6 + stepsLeft t ≤ stepsLeft (startFill sampleMix) ∧ t.retries = 0 ∧
      2 ≤ (budget sampleMix.maxPackets (dataSize sampleMix.psibuf sampleMix.inputs)).packets ∧
      (t.pc = .full →
        2 = (budget sampleMix.maxPackets (dataSize sampleMix.psibuf sampleMix.inputs)).packets) ∧
      (t.pc ≠ .full → 0 < stepsLeft t) := by
  have clean : ∀ r ∈ sampleMix.inputs, ∀ p ∈ r.buf.waiting, headerFuncs.getPid p ≠ nullPid := by
    intro r member p stored
    obtain rfl := List.mem_singleton.mp member
    obtain rfl := List.mem_singleton.mp stored
    decide +kernel
  have run := loopRun_iterate headerFuncs (sampleConfig 3) (s := sampleMix) 6 (by decide +kernel)
  have two : (List.range 6).countP (fun j =>
      enters ((mixTurn headerFuncs (sampleConfig 3))^[j] (startFill sampleMix))) = 2 := by
    decide +kernel
  rw [two] at run
  exact loop_iterations le_rfl clean run

end Mptsd.Mixer.Iterations
