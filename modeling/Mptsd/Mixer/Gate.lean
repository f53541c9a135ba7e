/- Unit: Mptsd/Mixer/Gate
   source: src/output_mix.c (output_handle_mix), src/data.h (INPUT.outputed_packets)
   digest: The slot counter of an input against the slots that really passed: when it overflows,
   and when it is exact at the PCR gate. -/

import Mptsd.Mixer.Observer

set_option autoImplicit false
set_option relaxedAutoImplicit false

namespace Mptsd.Mixer.Gate

open Mptsd.TsPacket (Packet TsFuncs nullPid headerFuncs)
open Mptsd.Channels (sampleChannel)
open Mptsd.Conf (Config sampleConfig)
open Mptsd.Lib.Arith (wrap32_of_range wrap32_neg wrap32_eq_add_iff)
open Mptsd.PsiTables (Cbuf cbufPeek)
open Mptsd.Sections (pcrPacket sectionLibs)
open Mptsd.Intake.Model (Input inputNew)
open Mptsd.Mixer.Model
open Mptsd.Mixer.Observer

variable (ts : TsFuncs) (conf : Config)

/-- `output_pcr_packets_needed` at the gate, computed now or kept from an earlier visit. -/
def required (maxPackets : ℕ) (r : Input) (p : Packet) : ℤ :=
  if r.outputLastPcr ≠ 0 ∧ r.outputPcrPacketsNeeded ≤ 0 then
    packetsNeeded conf maxPackets (ts.getPcr p) r.outputLastPcr
  else r.outputPcrPacketsNeeded

/-- The loop is at input `i`, whose oldest packet is the PCR packet `p`. -/
structure AtGate (s : Mix) (i : ℕ) (r : Input) (p : Packet) : Prop where
  moving : conf.pcrMode = 1 ∨ conf.pcrMode = 3
  scanning : ∃ left readCount, s.pc = .scan (left + 1) readCount
  next : stepNode s.inputs.length s.node - 1 = i
  found : s.inputs[i]? = some r
  oldest : cbufPeek r.buf = some p
  pid : ts.getPid p = r.outputPcrPid
  pcr : ts.hasPcr p = true

/-- The gate compares the counter with the number of packets needed. -/
structure Tests (s : Mix) (i : ℕ) (r : Input) (p : Packet) : Prop
    extends AtGate ts conf s i r p where
  needed : 0 < required ts conf s.maxPackets r p

/-- The gate holds the packet back. -/
structure Holds (s : Mix) (i : ℕ) (r : Input) (p : Packet) : Prop
    extends AtGate ts conf s i r p where
  held : (pcrGate ts conf s.maxPackets r p).1 = true

/-- The counters have not overflowed, and no PCR packet waits longer than a buffer. -/
structure Bounded (v : Watch) : Prop where
  nonneg : ∀ r ∈ v.mix.inputs, 0 ≤ r.outputedPackets
  patient : ∀ i r p, Holds ts conf v.mix i r p → v.counted i < v.mix.maxPackets

variable {ts conf} {w v : Watch} {visited : List Watch}

variable (ts conf) in
theorem required_le {maxPackets : ℕ} {r : Input} (needs : r.outputPcrPacketsNeeded ≤ maxPackets)
    (p : Packet) : required ts conf maxPackets r p ≤ maxPackets := by
  rw [required]
  split
  · exact packetsNeeded_le conf maxPackets _ _
  · exact needs

theorem AtGate.held_iff {s : Mix} {i : ℕ} {r : Input} {p : Packet} (gate : AtGate ts conf s i r p) :
    (pcrGate ts conf s.maxPackets r p).1 = true ↔
      0 < required ts conf s.maxPackets r p ∧
        r.outputedPackets < required ts conf s.maxPackets r p := by
  rw [pcrGate]
  rw [if_pos ⟨gate.pid, gate.pcr⟩]
  change (if required ts conf s.maxPackets r p > 0 ∧
    r.outputedPackets < required ts conf s.maxPackets r p then _ else _ : Bool × Input).1 = true ↔ _
  split
  · rename_i both
    exact iff_of_true rfl both
  · rename_i early
    exact iff_of_false (by simp) early

theorem Holds.below {s : Mix} {i : ℕ} {r : Input} {p : Packet} (h : Holds ts conf s i r p) :
    r.outputedPackets < required ts conf s.maxPackets r p :=
  (h.toAtGate.held_iff.mp h.held).2

section overflow

private theorem counted_turn_le (w : Watch) (i : ℕ) :
    (w.turn ts conf).counted i ≤ w.counted i + w.mix.maxPackets + 1 := by
  cases pc : w.mix.pc with
  | waiting =>
      simp only [Watch.turn, pc]
      split
      · exact Nat.le_succ _
      · simp only
        omega
  | psi =>
      simp only [Watch.turn, pc]
      split
      · simp only [Watch.skip]
        omega
      · simp only
        omega
  | scan left readCount =>
      cases left with
      | zero =>
          simp only [Watch.turn, pc]
          omega
      | succ left =>
          simp only [Watch.turn, pc]
          cases releases ts conf w.mix with
          | none =>
              simp only
              omega
          | some k =>
              simp only [Watch.release, Function.update_apply]
              split <;> omega
  | send data =>
      cases data with
      | none =>
          simp only [Watch.turn, pc, Watch.count]
          omega
      | some p =>
          simp only [Watch.turn, pc, Watch.count, Watch.skip]
          cases w.released with
          | none =>
              simp only
              omega
          | some k =>
              simp only [Watch.place]
              omega
  | full =>
      simp only [Watch.turn, pc]
      omega

private theorem bounded_of_below (h : Watched ts conf v)
    (below : ∀ i < v.mix.inputs.length, v.counted i < 2 ^ 31) : Bounded ts conf v := by
  have exact : ∀ i r, v.mix.inputs[i]? = some r → r.outputedPackets = (v.counted i : ℤ) := by
    intro i r found
    have small := below i (List.getElem?_eq_some_iff.mp found).1
    rw [h.counts i r found]
    exact wrap32_of_range (by omega) (by exact_mod_cast small)
  constructor
  · intro r member
    obtain ⟨i, inside, rfl⟩ := List.mem_iff_getElem.mp member
    rw [exact i _ (List.getElem?_eq_getElem inside)]
    exact Int.natCast_nonneg _
  · intro i r p holds
    have early := holds.below
    have bound := required_le ts conf (h.needs r (List.mem_of_getElem? holds.found)) p
    rw [exact i r holds.found] at early
    omega

private theorem below_of_nonneg (fresh : Fresh ts conf w) (run : MixRun ts conf w visited)
    (nonneg : ∀ v ∈ visited, ∀ r ∈ v.mix.inputs, 0 ≤ r.outputedPackets) :
    ∀ v ∈ visited, ∀ i < v.mix.inputs.length, v.counted i < 2 ^ 31 := by
  have watched := watched_run fresh run
  have step : ∀ v v' : Watch, Watched ts conf v' →
      (∀ r ∈ v'.mix.inputs, 0 ≤ r.outputedPackets) →
      v'.mix.inputs.length = v.mix.inputs.length → v.mix.maxPackets ≤ 4991 →
      (∀ i, v'.counted i ≤ v.counted i + v.mix.maxPackets + 1) →
      (∀ i < v.mix.inputs.length, v.counted i < 2 ^ 31) →
      ∀ i < v'.mix.inputs.length, v'.counted i < 2 ^ 31 := by
    intro v v' watched nonneg items size grows below i inside
    by_contra reached
    have found := List.getElem?_eq_getElem inside
    have positive := nonneg _ (List.getElem_mem inside)
    have before := below i (items ▸ inside)
    have next := grows i
    rw [watched.counts i _ found] at positive
    have := wrap32_neg (x := v'.counted i) (by omega) (by omega)
    omega
  induction run with
  | start =>
      intro v member i _
      obtain rfl := List.mem_singleton.mp member
      rw [fresh.counted i]
      norm_num
  | @turn v visited run ih =>
      rw [List.forall_mem_cons] at nonneg watched ⊢
      have earlier := ih nonneg.2 watched.2
      have sound := (watched.2 v (by simp)).sound
      have size : v.mix.maxPackets ≤ 4991 := by
        have := conf.rate.obufFrames_le
        rw [sound.size, Config.obufPackets]
        omega
      refine ⟨step v _ watched.1 nonneg.1 ?_ size (counted_turn_le v) (earlier v (by simp)),
        earlier⟩
      rw [show (v.turn ts conf).mix = mixTurn ts conf v.mix from mix_turn ts conf v]
      exact sound.mixTurn.2.2
  | @arrive v visited s' run arrives ih =>
      rw [List.forall_mem_cons] at nonneg watched ⊢
      have earlier := ih nonneg.2 watched.2
      refine ⟨fun i inside => earlier v (by simp) i ?_, earlier⟩
      rw [arrives.inputs.length_eq]
      exact inside

/-- The counters stay within bounds in exactly the runs in which fewer than `2 ^ 31` slots are
counted between two PCRs of an input. -/
theorem counters_bounded_iff (fresh : Fresh ts conf w) (run : MixRun ts conf w visited) :
    (∀ v ∈ visited, Bounded ts conf v) ↔
      ∀ v ∈ visited, ∀ i < v.mix.inputs.length, v.counted i < 2 ^ 31 := by
  constructor
  · intro bounded
    exact below_of_nonneg fresh run fun v member => (bounded v member).nonneg
  · intro below v member
    exact bounded_of_below (watched_run fresh run v member) (below v member)

end overflow

/-- A mixer as it starts, with one input. -/
def oneInput (conf : Config) (arrived : List Packet) : Watch where
  mix := {
    pc := .waiting
    psibuf := Cbuf.init 65800
    inputs := [{ inputNew sectionLibs "a" (sampleChannel 1 0) false with
      outputPcrPid := 0x101
      buf := (Cbuf.init 65800).append arrived }]
    node := 1
    maxPackets := conf.obufPackets
    budget := budget 0 0
    nulls := 0
    dataPackets := 0
    buf := []
    removed := []
    copied := []
    retries := 0
    overruns := 0 }
  done := 0
  counted _ := 0
  padding _ := 0
  pcrSlot _ := none
  released := none

theorem fresh_oneInput (conf : Config) {arrived : List Packet}
    (clean : ∀ p ∈ arrived, headerFuncs.getPid p ≠ nullPid) :
    Fresh headerFuncs conf (oneInput conf arrived) where
  pc := rfl
  size := rfl
  node := le_rfl
  clean r member p stored := by
    obtain rfl := List.mem_singleton.mp member
    exact clean p (by simpa [Cbuf.append, Cbuf.init] using stored)
  inputs r member := by
    obtain rfl := List.mem_singleton.mp member
    exact ⟨rfl, rfl, rfl⟩
  counted _ := rfl
  pcrSlot _ := rfl
  released := rfl

/-- A run in which nothing arrives, the latest state first. -/
def trail (ts : TsFuncs) (conf : Config) (w : Watch) : ℕ → List Watch
  | 0 => [w]
  | n + 1 => (Watch.turn ts conf)^[n + 1] w :: trail ts conf w n

theorem mixRun_trail (ts : TsFuncs) (conf : Config) (w : Watch) (n : ℕ) :
    MixRun ts conf w (trail ts conf w n) ∧
      (trail ts conf w n).head? = some ((Watch.turn ts conf)^[n] w) := by
  induction n with
  | zero => exact ⟨.start, rfl⟩
  | succ n ih =>
      refine ⟨?_, rfl⟩
      obtain ⟨run, head⟩ := ih
      cases rest : trail ts conf w n with
      | nil => simp [rest] at head
      | cons v visited =>
          rw [rest] at run head
          obtain rfl := Option.some.inj head
          rw [trail, rest, Function.iterate_succ_apply']
          exact run.turn

/-- A transport stream of 2 Mbps, whose buffers hold 133 packets. -/
def slowConfig : Config where
  pcrMode := 1
  rate := ⟨2, by norm_num, by norm_num⟩
  transportStreamId := 1
  writeOutputNetwork := true

/-- Two PCRs, 10 ms apart. -/
def twoPcrs : List Packet := [pcrPacket 0x101 90000, pcrPacket 0x101 90900]

private theorem fresh_twoPcrs : Fresh headerFuncs slowConfig (oneInput slowConfig twoPcrs) := by
  apply fresh_oneInput slowConfig
  intro p member
  simp only [twoPcrs, List.mem_cons, List.not_mem_nil, or_false] at member
  rcases member with rfl | rfl <;> decide +kernel

/-- Two PCR packets, in the first buffer and at the start of the second. -/
theorem counters_bounded_iff_two_buffers :
    let visited := trail headerFuncs slowConfig (oneInput slowConfig twoPcrs) 12
    (∀ v ∈ visited, Bounded headerFuncs slowConfig v) ↔
      ∀ v ∈ visited, ∀ i < v.mix.inputs.length, v.counted i < 2 ^ 31 :=
  counters_bounded_iff fresh_twoPcrs (mixRun_trail headerFuncs slowConfig _ 12).1

section silence

variable (ts conf) in
private theorem turn_turn_of_idle (waiting : v.mix.pc = .waiting)
    (empty : dataSize v.mix.psibuf v.mix.inputs = 0) :
    ((v.turn ts conf).turn ts conf).mix.pc = .waiting ∧
      dataSize ((v.turn ts conf).turn ts conf).mix.psibuf
        ((v.turn ts conf).turn ts conf).mix.inputs = 0 ∧
      ((v.turn ts conf).turn ts conf).mix.maxPackets = v.mix.maxPackets ∧
      ((v.turn ts conf).turn ts conf).mix.inputs.length = v.mix.inputs.length ∧
      ∀ i, ((v.turn ts conf).turn ts conf).counted i = v.counted i + v.mix.maxPackets := by
  have nulls : (budget v.mix.maxPackets (dataSize v.mix.psibuf v.mix.inputs)).nullPackets =
      v.mix.maxPackets := by
    rw [empty]
    rw [budget, Budget.nullPackets]
    simp only [Nat.zero_div, Nat.zero_min]
    split_ifs <;> rfl
  have first : v.turn ts conf = { v with
      mix := startFill v.mix
      counted := fun i => v.counted i + v.mix.maxPackets } := by
    simp only [Watch.turn, waiting, mixTurn, Watch.count]
    rw [if_pos]
    simp only [startFill, nulls, if_true]
  have full : (startFill v.mix).pc = .full := by simp only [startFill, nulls, if_true]
  have stored : (startFill v.mix).psibuf = v.mix.psibuf ∧
      (startFill v.mix).inputs = v.mix.inputs.map (countPackets v.mix.maxPackets) := by
    simp [startFill, nulls]
  have size : dataSize (startFill v.mix).psibuf (startFill v.mix).inputs = 0 := by
    rw [stored.1, stored.2, dataSize, List.map_map]
    exact empty
  have items : (startFill v.mix).inputs.length = v.mix.inputs.length := by
    simp [startFill, nulls]
  have room : (startFill v.mix).maxPackets = v.mix.maxPackets := by
    simp [startFill, nulls]
  have second : (v.turn ts conf).turn ts conf = { v.turn ts conf with
      mix := { startFill v.mix with pc := .waiting }
      done := v.done + 1 } := by
    rw [first]
    simp only [Watch.turn, full, mixTurn]
  rw [second, first]
  exact ⟨rfl, size, room, items, fun _ => rfl⟩

variable (ts conf) in
private theorem exists_silent_run (waiting : w.mix.pc = .waiting)
    (empty : dataSize w.mix.psibuf w.mix.inputs = 0) (n : ℕ) :
    ∃ v visited, MixRun ts conf w (v :: visited) ∧ v.mix.pc = .waiting ∧
      dataSize v.mix.psibuf v.mix.inputs = 0 ∧ v.mix.maxPackets = w.mix.maxPackets ∧
      v.mix.inputs.length = w.mix.inputs.length ∧
      ∀ i, v.counted i = w.counted i + n * w.mix.maxPackets := by
  induction n with
  | zero => exact ⟨w, [], .start, waiting, empty, rfl, rfl, by simp⟩
  | succ n ih =>
      obtain ⟨v, visited, run, pc, nothing, size, items, counted⟩ := ih
      obtain ⟨pc', nothing', size', items', counted'⟩ :=
        turn_turn_of_idle ts conf pc nothing
      refine ⟨_, _, run.turn.turn, pc', nothing', size'.trans size, items'.trans items, ?_⟩
      intro i
      rw [counted', counted, size]
      ring

end silence

/-- Silence over `2 ^ 31` buffers drives the counter below zero. -/
theorem silence_overflows :
    ∃ visited, MixRun headerFuncs (sampleConfig 1) (oneInput (sampleConfig 1) []) visited ∧
      ¬ ∀ v ∈ visited, Bounded headerFuncs (sampleConfig 1) v := by
  obtain ⟨n, large⟩ : ∃ n : ℕ, n = 2 ^ 31 := ⟨_, rfl⟩
  have fresh : Fresh headerFuncs (sampleConfig 1) (oneInput (sampleConfig 1) []) :=
    fresh_oneInput (sampleConfig 1) (by simp)
  obtain ⟨v, visited, run, -, -, -, items, counted⟩ :=
    exists_silent_run headerFuncs (sampleConfig 1) fresh.pc rfl n
  refine ⟨_, run, ?_⟩
  intro bounded
  have below := below_of_nonneg fresh run (fun v member => (bounded v member).nonneg) v (by simp) 0
    (by rw [items]; exact Nat.one_pos)
  have frames := (sampleConfig 1).rate.obufFrames_pos
  rw [counted, fresh.size, fresh.counted, Config.obufPackets] at below
  have : n * 1 ≤ n * (7 * (sampleConfig 1).rate.obufFrames) := Nat.mul_le_mul_left n (by omega)
  omega

section exactness

/-- The state after `n` steps. -/
def twoPcrsAfter (n : ℕ) : Watch :=
  (Watch.turn headerFuncs slowConfig)^[n] (oneInput slowConfig twoPcrs)

def gateInput (n : ℕ) : Input :=
  (twoPcrsAfter n).mix.inputs.headD (inputNew sectionLibs "a" (sampleChannel 1 0) false)

theorem mem_trail (ts : TsFuncs) (conf : Config) (w : Watch) {k n : ℕ} (le : k ≤ n) :
    (Watch.turn ts conf)^[k] w ∈ trail ts conf w n := by
  induction n with
  | zero =>
      obtain rfl : k = 0 := by omega
      exact List.mem_singleton.mpr rfl
  | succ n ih =>
      rcases Nat.lt_or_ge n k with last | earlier
      · obtain rfl : k = n + 1 := by omega
        exact List.mem_cons_self
      · exact List.mem_cons_of_mem _ (ih earlier)

private theorem tests_twoPcrs : ∀ n ∈ [5, 12], Tests headerFuncs slowConfig (twoPcrsAfter n).mix 0
    (gateInput n) (pcrPacket 0x101 90900) := by
  have there : ∀ n, (twoPcrsAfter n).mix.inputs.length = 1 →
      (twoPcrsAfter n).mix.inputs[0]? = some (gateInput n) := by
    intro n one
    obtain ⟨r, single⟩ := List.length_eq_one_iff.mp one
    simp [gateInput, single]
  intro n member
  have scanning : (twoPcrsAfter n).mix.pc = .scan 1 0 := by
    revert n member
    decide +kernel
  refine ⟨⟨Or.inl rfl, ⟨0, 0, scanning⟩, ?_, there n ?_, ?_, ?_, by decide +kernel⟩, ?_⟩
  all_goals
    revert n member scanning
    decide +kernel

end exactness

end Mptsd.Mixer.Gate
