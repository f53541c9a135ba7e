/- Unit: Mptsd/Mixer/Observer
   source: src/output_mix.c (output_handle_mix), src/data.h (INPUT.outputed_packets)
   digest: Runs of the mixer over any number of buffers, and what an observer counts of the output
   slots since the last PCR of each input. -/

import Mptsd.Mixer.Fill

set_option autoImplicit false
set_option relaxedAutoImplicit false

namespace Mptsd.Mixer.Observer

open Mptsd.TsPacket (Packet TsFuncs nullPid)
open Mptsd.Conf (Config)
open Mptsd.Lib.Arith (wrap32 wrap32_add_left)
open Mptsd.Lib.Queue (Fifo)
open Mptsd.PsiTables (cbufGet cbufPeek)
open Mptsd.Intake.Model (Input)
open Mptsd.Mixer.Model
open Mptsd.Mixer.Fill

/-- The mixer with an observer. `done` counts the buffers marked full. For each input, `counted`
is the unbounded number of slots counted since its last PCR was let through, `padding` the number
of slots of stuffing that were passed without being counted, and `pcrSlot` the slot of its last
PCR packet, over all buffers. `released` is the input whose PCR is about to be copied. -/
structure Watch where
  mix : Mix
  done : ℕ
  counted : ℕ → ℕ
  padding : ℕ → ℕ
  pcrSlot : ℕ → Option ℕ
  released : Option ℕ

/-- The slots passed so far, over all buffers. -/
def Watch.position (w : Watch) : ℕ :=
  w.done * w.mix.maxPackets +
    match w.mix.pc with
    | .waiting => 0
    | .full => w.mix.maxPackets
    | _ => w.mix.dataPackets + w.mix.nulls

variable (ts : TsFuncs) (conf : Config)

/-- The oldest packet of an input is a PCR packet, and the gate lets it through. -/
def gateOpens (maxPackets : ℕ) (r : Input) : Bool :=
  (conf.pcrMode = 1 || conf.pcrMode = 3) &&
    match cbufPeek r.buf with
    | none => false
    | some p => ts.getPid p = r.outputPcrPid && ts.hasPcr p &&
        !(pcrGate ts conf maxPackets r p).1

/-- The input whose PCR the next step lets through. -/
def releases (s : Mix) : Option ℕ :=
  match s.inputs[stepNode s.inputs.length s.node - 1]? with
  | none => none
  | some r =>
      if gateOpens ts conf s.maxPackets r then some (stepNode s.inputs.length s.node - 1) else none

namespace Watch

/-- `n` slots counted for every input. -/
def count (w : Watch) (n : ℕ) : Watch := { w with counted := fun i => w.counted i + n }

/-- `n` slots passed without being counted. -/
def skip (w : Watch) (n : ℕ) : Watch := { w with padding := fun i => w.padding i + n }

/-- The PCR of input `i` has been let through. -/
def release (w : Watch) (i : ℕ) : Watch :=
  { w with counted := Function.update w.counted i 0, released := some i }

/-- The PCR of input `i` has been copied to the slot. -/
def place (w : Watch) (i slot : ℕ) : Watch :=
  { w with
    padding := Function.update w.padding i 0
    pcrSlot := Function.update w.pcrSlot i (some slot)
    released := none }

/-- One step of the mixer, and what the observer makes of it. -/
def turn (w : Watch) : Watch :=
  let s := w.mix
  let s' := mixTurn ts conf s
  let w := { w with mix := s' }
  match s.pc with
  | .waiting => if s'.pc = .full then w.count s.maxPackets else w
  | .psi => if s'.pc = .full then w.skip (s.maxPackets - (s.dataPackets + s.nulls)) else w
  | .scan 0 _ => w
  | .scan (_ + 1) _ =>
      match releases ts conf s with
      | none => w
      | some i => w.release i
  | .send none => w.count 1
  | .send (some _) =>
      let w := (w.skip (s'.nulls - s.nulls)).count 1
      match w.released with
      | none => w
      | some i => w.place i (w.done * s.maxPackets + (s.dataPackets + s'.nulls))
  | .full => { w with done := w.done + 1 }

end Watch

theorem mix_turn (w : Watch) : (w.turn ts conf).mix = mixTurn ts conf w.mix := by
  cases pc : w.mix.pc with
  | waiting =>
      simp only [Watch.turn, pc]
      split <;> rfl
  | psi =>
      simp only [Watch.turn, pc]
      split <;> rfl
  | scan left readCount =>
      cases left with
      | zero => simp only [Watch.turn, pc]
      | succ left =>
          simp only [Watch.turn, pc]
          cases releases ts conf w.mix <;> rfl
  | send data =>
      cases data with
      | none => simp only [Watch.turn, pc, Watch.count]
      | some p =>
          simp only [Watch.turn, pc, Watch.count, Watch.skip]
          cases w.released <;> rfl
  | full => simp only [Watch.turn, pc]

/-- A run of the mixer with its observer; the list holds the states visited, latest first. -/
inductive MixRun (w : Watch) : List Watch → Prop
  | start : MixRun w [w]
  | turn {v visited} : MixRun w (v :: visited) → MixRun w (v.turn ts conf :: v :: visited)
  | arrive {v visited s'} : MixRun w (v :: visited) → Arrives ts v.mix s' →
      MixRun w ({ v with mix := s' } :: v :: visited)

/-- The mixer thread as it starts, over inputs that have sent nothing yet. -/
structure Fresh (w : Watch) : Prop where
  pc : w.mix.pc = .waiting
  size : w.mix.maxPackets = conf.obufPackets
  node : w.mix.node ≤ w.mix.inputs.length
  clean : ∀ r ∈ w.mix.inputs, ∀ p ∈ r.buf.waiting, ts.getPid p ≠ nullPid
  inputs : ∀ r ∈ w.mix.inputs, r.outputedPackets = 0 ∧ r.outputPcrPacketsNeeded = 0 ∧
    r.outputLastPcr = 0
  counted : ∀ i, w.counted i = 0
  pcrSlot : ∀ i, w.pcrSlot i = none
  released : w.released = none

/-- What holds of the mixer itself in all runs. -/
structure Sound (s : Mix) : Prop where
  size : s.maxPackets = conf.obufPackets
  node : s.node ≤ s.inputs.length
  clean : ∀ r ∈ s.inputs, ∀ p ∈ r.buf.waiting, ts.getPid p ≠ nullPid
  filling : s.pc ≠ .waiting → ∃ s₀, Filling ts s₀ s

/-- The invariant of all runs: the counter is the low 32 bits of what has been counted, and the
slots since the last PCR are those counted and those of stuffing. -/
structure Watched (w : Watch) : Prop where
  sound : Sound ts conf w.mix
  counts : ∀ i r, w.mix.inputs[i]? = some r → r.outputedPackets = wrap32 (w.counted i)
  needs : ∀ r ∈ w.mix.inputs, r.outputPcrPacketsNeeded ≤ w.mix.maxPackets
  pending : ∀ i, w.released = some i → (∃ p, w.mix.pc = .send (some p)) ∧ w.counted i = 0
  elapsed : ∀ i slot, w.pcrSlot i = some slot → w.released ≠ some i →
    w.position = slot + w.counted i + w.padding i

section visit

variable (maxPackets : ℕ) (r : Input)

theorem packetsNeeded_le (pcr lastPcr : ℕ) :
    packetsNeeded conf maxPackets pcr lastPcr ≤ maxPackets := by
  unfold packetsNeeded
  dsimp only
  generalize storeInt _ = needed
  split_ifs <;> omega

private theorem pcrGate_cases (p : Packet) (needs : r.outputPcrPacketsNeeded ≤ maxPackets) :
    (pcrGate ts conf maxPackets r p).2.outputPcrPacketsNeeded ≤ maxPackets ∧
      (pcrGate ts conf maxPackets r p).2.outputedPackets =
        if ts.getPid p = r.outputPcrPid ∧ ts.hasPcr p ∧ (pcrGate ts conf maxPackets r p).1 = false
          then 0 else r.outputedPackets := by
  rw [pcrGate]
  by_cases pcr : ts.getPid p = r.outputPcrPid ∧ ts.hasPcr p = true
  · rw [if_pos pcr]
    dsimp only
    have bound : (if r.outputLastPcr ≠ 0 ∧ r.outputPcrPacketsNeeded ≤ 0 then
        packetsNeeded conf maxPackets (ts.getPcr p) r.outputLastPcr
        else r.outputPcrPacketsNeeded) ≤ maxPackets := by
      split
      · exact packetsNeeded_le conf maxPackets _ _
      · exact needs
    generalize (if r.outputLastPcr ≠ 0 ∧ r.outputPcrPacketsNeeded ≤ 0 then
      packetsNeeded conf maxPackets (ts.getPcr p) r.outputLastPcr
      else r.outputPcrPacketsNeeded) = needed at bound ⊢
    by_cases held : needed > 0 ∧ r.outputedPackets < needed
    · rw [if_pos held]
      exact ⟨bound, by simp⟩
    · rw [if_neg held]
      exact ⟨by simp, by simp [pcr]⟩
  · rw [if_neg pcr]
    refine ⟨needs, ?_⟩
    rw [if_neg]
    rintro ⟨pid, has, -⟩
    exact pcr ⟨pid, has⟩

@[simp] theorem outputedPackets_readInput :
    (readInput ts r).2.outputedPackets = r.outputedPackets := by
  rw [readInput]
  split <;> rfl

@[simp] theorem needed_readInput :
    (readInput ts r).2.outputPcrPacketsNeeded = r.outputPcrPacketsNeeded := by
  rw [readInput]
  split <;> rfl

private theorem visitInput_counter (needs : r.outputPcrPacketsNeeded ≤ maxPackets) :
    (visitInput ts conf maxPackets r).2.outputPcrPacketsNeeded ≤ maxPackets ∧
      (visitInput ts conf maxPackets r).2.outputedPackets =
        if gateOpens ts conf maxPackets r then 0 else r.outputedPackets := by
  by_cases moving : conf.pcrMode = 1 ∨ conf.pcrMode = 3
  · have moving' : (conf.pcrMode = 1 || conf.pcrMode = 3) = true := by simpa using moving
    rw [visitInput, gateOpens]
    rw [if_pos moving, moving', Bool.true_and]
    cases oldest : cbufPeek r.buf with
    | none => exact ⟨needs, by simp⟩
    | some p =>
        obtain ⟨bound, outputed⟩ := pcrGate_cases ts conf maxPackets r p needs
        dsimp only
        by_cases held : (pcrGate ts conf maxPackets r p).1 = true
        · rw [if_pos held]
          exact ⟨bound, by simp [outputed, held]⟩
        · rw [if_neg held]
          have free : (pcrGate ts conf maxPackets r p).1 = false := by simpa using held
          exact ⟨by simpa using bound, by simp [outputed, free]⟩
  · have still : (conf.pcrMode = 1 || conf.pcrMode = 3) = false := by simpa using moving
    rw [visitInput, gateOpens]
    rw [if_neg moving, still]
    exact ⟨by simpa using needs, by simp⟩

private theorem visitInput_of_open (clean : ∀ p ∈ r.buf.waiting, ts.getPid p ≠ nullPid)
    (opens : gateOpens ts conf maxPackets r = true) :
    ∃ p, (visitInput ts conf maxPackets r).1 = .data p := by
  rw [gateOpens] at opens
  rw [Bool.and_eq_true] at opens
  obtain ⟨moving, opens⟩ := opens
  have moving' : conf.pcrMode = 1 ∨ conf.pcrMode = 3 := by simpa using moving
  cases oldest : cbufPeek r.buf with
  | none => simp [oldest] at opens
  | some p =>
      rw [oldest] at opens
      simp only [Bool.and_eq_true, Bool.not_eq_true'] at opens
      have visit : (visitInput ts conf maxPackets r).1 =
          (readInput ts (pcrGate ts conf maxPackets r p).2).1 := by
        rw [visitInput]
        rw [if_pos moving', oldest]
        simp [opens.2]
      rcases visitInput_cases ts conf maxPackets clean with
        ⟨nil, -⟩ | ⟨held, -⟩ | ⟨q, rest, -, data, -⟩
      · rw [show cbufPeek r.buf = none by simp [cbufPeek, Fifo.peek, nil]] at oldest
        cases oldest
      · rw [visit] at held
        exfalso
        revert held
        rw [readInput]
        cases (cbufGet (pcrGate ts conf maxPackets r p).2.buf).1 with
        | none => simp
        | some q => dsimp only; split <;> simp
      · exact ⟨q, data⟩

end visit

section invariant

variable {ts conf} {w : Watch}

theorem Watched.released_none (h : Watched ts conf w) (pc : ∀ p, w.mix.pc ≠ .send (some p)) :
    w.released = none := by
  cases released : w.released with
  | none => rfl
  | some i =>
      obtain ⟨⟨p, sending⟩, -⟩ := h.pending i released
      exact absurd sending (pc p)

theorem Sound.mixTurn {s : Mix} (h : Sound ts conf s) :
    Sound ts conf (mixTurn ts conf s) ∧ (Model.mixTurn ts conf s).maxPackets = s.maxPackets ∧
      (Model.mixTurn ts conf s).inputs.length = s.inputs.length := by
  by_cases waiting : s.pc = .waiting
  · have same : Model.mixTurn ts conf s = startFill s := by simp [Model.mixTurn, waiting]
    have started := filling_startFill h.node h.clean
    rw [same]
    exact ⟨⟨started.size.trans h.size, started.node, started.clean, fun _ => ⟨s, started⟩⟩,
      started.size, started.items⟩
  · obtain ⟨s₀, filling⟩ := h.filling waiting
    by_cases full : s.pc = .full
    · have same : Model.mixTurn ts conf s = { s with pc := .waiting } := by
        simp [Model.mixTurn, full]
      rw [same]
      exact ⟨⟨h.size, h.node, h.clean, fun ne => absurd rfl ne⟩, rfl, rfl⟩
    · have next := filling.mixTurn conf full
      have size := next.size.trans filling.size.symm
      exact ⟨⟨size.trans h.size, next.node, next.clean, fun _ => ⟨s₀, next⟩⟩, size,
        next.items.trans filling.items.symm⟩

theorem Sound.arrive {s s' : Mix} (h : Sound ts conf s) (arrives : Arrives ts s s') :
    Sound ts conf s' := by
  have pc : s'.pc = s.pc := by rw [arrives.rest]
  have size : s'.maxPackets = s.maxPackets := by rw [arrives.rest]
  have node : s'.node = s.node := by rw [arrives.rest]
  refine ⟨size.trans h.size, ?_, ?_, ?_⟩
  · rw [node, ← arrives.inputs.length_eq]
    exact h.node
  · intro r' member p stored
    obtain ⟨i, inside, rfl⟩ := List.mem_iff_getElem.mp member
    obtain ⟨r, before, more⟩ :=
      getElem?_of_forall₂ arrives.inputs (List.getElem?_eq_getElem inside)
    obtain ⟨new, buf, clean⟩ := more.buf
    rw [buf, Fifo.waiting_push] at stored
    rcases List.mem_append.mp stored with old | fresh
    · exact h.clean r (List.mem_of_getElem? before) p old
    · exact clean p fresh
  · intro unfinished
    rw [pc] at unfinished
    obtain ⟨s₀, filling⟩ := h.filling unfinished
    exact ⟨s₀, filling.arrive arrives⟩

private theorem counts_countPackets {inputs : List Input} {counted : ℕ → ℕ}
    (counts : ∀ i r, inputs[i]? = some r → r.outputedPackets = wrap32 (counted i)) (n : ℕ) :
    ∀ i r, (inputs.map (countPackets n))[i]? = some r →
      r.outputedPackets = wrap32 ((counted i + n : ℕ)) := by
  intro i r' found
  rw [List.getElem?_map] at found
  obtain ⟨r, before, rfl⟩ := Option.map_eq_some_iff.mp found
  show wrap32 (r.outputedPackets + n) = _
  rw [counts i r before, wrap32_add_left]
  push_cast
  rfl

private theorem needs_countPackets {inputs : List Input} {bound : ℤ}
    (needs : ∀ r ∈ inputs, r.outputPcrPacketsNeeded ≤ bound) (n : ℕ) :
    ∀ r ∈ inputs.map (countPackets n), r.outputPcrPacketsNeeded ≤ bound := by
  intro r' member
  obtain ⟨r, before, rfl⟩ := List.mem_map.mp member
  exact needs r before

private theorem Watched.turn_waiting (h : Watched ts conf w) (pc : w.mix.pc = .waiting) :
    Watched ts conf (w.turn ts conf) := by
  have none := h.released_none (by simp [pc])
  have sound := h.sound.mixTurn.1
  have same : mixTurn ts conf w.mix = startFill w.mix := by simp [mixTurn, pc]
  have elapsed := h.elapsed
  simp only [Watch.position, pc, none, Nat.add_zero] at elapsed
  rw [Watch.turn]
  simp only [pc]
  rw [same] at sound ⊢
  by_cases nulls : (budget w.mix.maxPackets (dataSize w.mix.psibuf w.mix.inputs)).nullPackets =
      w.mix.maxPackets
  · simp only [startFill, nulls, if_true] at sound ⊢
    refine ⟨sound, counts_countPackets h.counts _, needs_countPackets h.needs _, ?_, ?_⟩
    · intro i released
      simp [Watch.count, none] at released
    · intro i slot placed _
      have := elapsed i slot placed (by simp)
      simp only [Watch.count, Watch.position]
      omega
  · simp only [startFill, nulls, if_false] at sound ⊢
    refine ⟨sound, h.counts, h.needs, ?_, ?_⟩
    · intro i released
      simp [none] at released
    · intro i slot placed _
      have := elapsed i slot placed (by simp)
      simpa [Watch.position] using this

private theorem Watched.turn_psi (h : Watched ts conf w) (pc : w.mix.pc = .psi) :
    Watched ts conf (w.turn ts conf) := by
  have none := h.released_none (by simp [pc])
  have sound := h.sound.mixTurn.1
  obtain ⟨s₀, filling⟩ := h.sound.filling (by simp [pc])
  have stands := filling.stands
  have nulls := filling.nulls
  have room := filling.room
  rw [pc] at stands
  rw [Budget.nullPackets, filling.whole] at nulls
  have fits : w.mix.dataPackets + w.mix.nulls ≤ w.mix.maxPackets := by
    simp only [Stands] at stands
    omega
  have same : mixTurn ts conf w.mix = tryPsi w.mix := by simp [mixTurn, pc]
  have elapsed := h.elapsed
  simp only [Watch.position, pc, none] at elapsed
  rw [Watch.turn]
  simp only [pc]
  rw [same] at sound ⊢
  by_cases more : w.mix.dataPackets < w.mix.budget.packets
  · simp only [tryPsi, more, if_true] at sound ⊢
    cases read : (cbufGet w.mix.psibuf).1 with
    | none =>
        simp only [read] at sound ⊢
        refine ⟨sound, h.counts, h.needs, ?_, ?_⟩
        · intro i released
          simp [none] at released
        · intro i slot placed _
          exact elapsed i slot placed (by simp)
    | some p =>
        simp only [read] at sound ⊢
        refine ⟨sound, h.counts, h.needs, ?_, ?_⟩
        · intro i released
          simp [none] at released
        · intro i slot placed _
          exact elapsed i slot placed (by simp)
  · simp only [tryPsi, more, if_false] at sound ⊢
    refine ⟨sound, h.counts, h.needs, ?_, ?_⟩
    · intro i released
      simp [Watch.skip, none] at released
    · intro i slot placed _
      have := elapsed i slot placed (by simp)
      simp only [Watch.skip, Watch.position, if_true]
      omega

private theorem Watched.turn_endScan (h : Watched ts conf w) {readCount : ℕ}
    (pc : w.mix.pc = .scan 0 readCount) : Watched ts conf (w.turn ts conf) := by
  have none := h.released_none (by simp [pc])
  have sound := h.sound.mixTurn.1
  have same : mixTurn ts conf w.mix = endScan w.mix readCount := by simp [mixTurn, pc]
  have elapsed := h.elapsed
  simp only [Watch.position, pc, none] at elapsed
  rw [Watch.turn]
  simp only [pc]
  rw [same] at sound ⊢
  by_cases unread : readCount = 0
  · simp only [endScan, unread, if_true] at sound ⊢
    refine ⟨sound, h.counts, h.needs, ?_, ?_⟩
    · intro i released
      simp [none] at released
    · intro i slot placed _
      exact elapsed i slot placed (by simp)
  · simp only [endScan, unread, if_false] at sound ⊢
    refine ⟨sound, h.counts, h.needs, ?_, ?_⟩
    · intro i released
      simp [none] at released
    · intro i slot placed _
      exact elapsed i slot placed (by simp)

private theorem Watched.turn_countSlot (h : Watched ts conf w) (pc : w.mix.pc = .send none) :
    Watched ts conf (w.turn ts conf) := by
  have none := h.released_none (by simp [pc])
  have sound := h.sound.mixTurn.1
  have same : mixTurn ts conf w.mix = countSlot w.mix := by simp [mixTurn, pc]
  have elapsed := h.elapsed
  simp only [Watch.position, pc, none] at elapsed
  rw [Watch.turn]
  simp only [pc]
  rw [same] at sound ⊢
  refine ⟨sound, counts_countPackets h.counts _, needs_countPackets h.needs _, ?_, ?_⟩
  · intro i released
    simp [Watch.count, none] at released
  · intro i slot placed _
    have := elapsed i slot placed (by simp)
    simp only [Watch.count, Watch.position, countSlot]
    omega

private theorem Watched.turn_full (h : Watched ts conf w) (pc : w.mix.pc = .full) :
    Watched ts conf (w.turn ts conf) := by
  have none := h.released_none (by simp [pc])
  have sound := h.sound.mixTurn.1
  have same : mixTurn ts conf w.mix = { w.mix with pc := .waiting } := by simp [mixTurn, pc]
  have elapsed := h.elapsed
  simp only [Watch.position, pc, none] at elapsed
  rw [Watch.turn]
  simp only [pc]
  rw [same] at sound ⊢
  refine ⟨sound, h.counts, h.needs, ?_, ?_⟩
  · intro i released
    simp [none] at released
  · intro i slot placed _
    have := elapsed i slot placed (by simp)
    simp only [Watch.position, Nat.succ_mul]
    omega

private theorem Watched.turn_copyPacket (h : Watched ts conf w) {p : Packet}
    (pc : w.mix.pc = .send (some p)) : Watched ts conf (w.turn ts conf) := by
  have sound := h.sound.mixTurn.1
  obtain ⟨s₀, filling⟩ := h.sound.filling (by simp [pc])
  have overruns := (filling.mixTurn conf (by simp [pc])).overruns.trans filling.overruns.symm
  have grows := le_mixNulls w.mix.budget w.mix.nulls w.mix.dataPackets
  have same : mixTurn ts conf w.mix = copyPacket w.mix p := by simp [mixTurn, pc]
  have elapsed := h.elapsed
  have pending := h.pending
  simp only [Watch.position, pc] at elapsed
  rw [same] at sound overruns
  rw [Watch.turn]
  simp only [pc]
  rw [same]
  by_cases late : w.mix.dataPackets + mixNulls w.mix.budget w.mix.nulls w.mix.dataPackets ≥
      w.mix.maxPackets
  · simp only [copyPacket, late, if_true] at overruns
    omega
  · have copy : copyPacket w.mix p = countSlot { w.mix with
        nulls := mixNulls w.mix.budget w.mix.nulls w.mix.dataPackets
        buf := w.mix.buf.set
          (w.mix.dataPackets + mixNulls w.mix.budget w.mix.nulls w.mix.dataPackets) p
        copied := w.mix.copied ++
          [(w.mix.dataPackets + mixNulls w.mix.budget w.mix.nulls w.mix.dataPackets, p)] } := by
      simp only [copyPacket, late, if_false]
    rw [copy] at sound ⊢
    generalize mixNulls w.mix.budget w.mix.nulls w.mix.dataPackets = nulls at grows sound ⊢
    have counted := counts_countPackets h.counts 1
    cases released : w.released with
    | none =>
        simp only [Watch.count, Watch.skip]
        refine ⟨sound, counted, needs_countPackets h.needs _, ?_, ?_⟩
        · intro i impossible
          simp at impossible
        · intro i slot placed _
          have := elapsed i slot placed (by simp [released])
          simp only [Watch.position, countSlot]
          omega
    | some k =>
        have zero := (pending k released).2
        simp only [Watch.count, Watch.skip]
        refine ⟨sound, counted, needs_countPackets h.needs _, ?_, ?_⟩
        · intro i impossible
          simp [Watch.place] at impossible
        · intro i slot placed _
          simp only [Watch.place, Watch.position, countSlot] at placed ⊢
          by_cases own : i = k
          · subst own
            simp only [Function.update_self, Option.some.injEq] at placed ⊢
            omega
          · rw [Function.update_of_ne own] at placed ⊢
            have := elapsed i slot placed (by simp [released, Ne.symm own])
            omega

theorem Watch.position_inside (waiting : w.mix.pc ≠ .waiting) (full : w.mix.pc ≠ .full) :
    w.position = w.done * w.mix.maxPackets + (w.mix.dataPackets + w.mix.nulls) := by
  rw [Watch.position]
  cases pc : w.mix.pc with
  | waiting => exact absurd pc waiting
  | full => exact absurd pc full
  | psi | scan | send => rfl

variable (ts conf) in
theorem scanInput_inputs {s : Mix} {r : Input}
    (found : s.inputs[stepNode s.inputs.length s.node - 1]? = some r) (left readCount : ℕ) :
    (scanInput ts conf s left readCount).inputs =
      s.inputs.set (stepNode s.inputs.length s.node - 1)
        (visitInput ts conf s.maxPackets r).2 := by
  simp only [scanInput, found]
  generalize visitInput ts conf s.maxPackets r = visit
  obtain ⟨visit, r'⟩ := visit
  cases visit <;> rfl

private theorem scanInput_data {s : Mix} {r : Input} {p : Packet}
    (found : s.inputs[stepNode s.inputs.length s.node - 1]? = some r)
    (data : (visitInput ts conf s.maxPackets r).1 = .data p) (left readCount : ℕ) :
    (scanInput ts conf s left readCount).pc = .send (some p) := by
  simp only [scanInput, found, data]

theorem Watched.turn_scanInput (h : Watched ts conf w) {left readCount : ℕ}
    (pc : w.mix.pc = .scan (left + 1) readCount) : Watched ts conf (w.turn ts conf) := by
  have still := h.released_none (by simp [pc])
  have sound := h.sound.mixTurn.1
  have same : mixTurn ts conf w.mix = scanInput ts conf w.mix left readCount := by
    simp [mixTurn, pc]
  have elapsed := h.elapsed
  rw [Watch.position_inside (by simp [pc]) (by simp [pc])] at elapsed
  rw [same] at sound
  obtain ⟨size, data, nulls, waiting, full⟩ := scanInput_place ts conf w.mix left
    readCount
  have elapsed' : ∀ w' : Watch, w'.mix = scanInput ts conf w.mix left readCount →
      w'.done = w.done → w'.position = w.done * w.mix.maxPackets +
        (w.mix.dataPackets + w.mix.nulls) := by
    intro w' mix done
    rw [Watch.position_inside (by rw [mix]; exact waiting) (by rw [mix]; exact full), mix, done,
      size, data, nulls]
  rw [Watch.turn]
  simp only [pc]
  rw [same]
  cases found : w.mix.inputs[stepNode w.mix.inputs.length w.mix.node - 1]? with
  | none =>
      have inputs : (scanInput ts conf w.mix left readCount).inputs = w.mix.inputs := by
        simp [scanInput, found]
      simp only [releases, found]
      refine ⟨sound, ?_, ?_, ?_, ?_⟩
      · rw [inputs]
        exact h.counts
      · rw [inputs, size]
        exact h.needs
      · intro i released
        simp [still] at released
      · intro i slot placed _
        refine Eq.trans (elapsed' _ ?_ ?_) (elapsed i slot placed (by simp [still])) <;> rfl
  | some r =>
      have inputs := scanInput_inputs ts conf found left readCount
      have member := List.mem_of_getElem? found
      obtain ⟨bound, counter⟩ := visitInput_counter ts conf w.mix.maxPackets r (h.needs r member)
      generalize index : stepNode w.mix.inputs.length w.mix.node - 1 = k at found inputs
      have needs : ∀ r' ∈ (scanInput ts conf w.mix left readCount).inputs,
          r'.outputPcrPacketsNeeded ≤ (scanInput ts conf w.mix left readCount).maxPackets := by
        rw [inputs, size]
        intro r' member'
        rcases List.mem_or_eq_of_mem_set member' with old | rfl
        · exact h.needs r' old
        · exact bound
      by_cases opens : gateOpens ts conf w.mix.maxPackets r = true
      · have sends : ∃ p, (scanInput ts conf w.mix left readCount).pc = .send (some p) := by
          obtain ⟨p, data⟩ := visitInput_of_open ts conf w.mix.maxPackets r
            (h.sound.clean r member) opens
          exact ⟨p, scanInput_data (by rw [index]; exact found) data left readCount⟩
        simp only [releases, index, found, opens, if_true]
        refine ⟨sound, ?_, needs, ?_, ?_⟩
        · show ∀ i r', (scanInput ts conf w.mix left readCount).inputs[i]? = some r' →
            r'.outputedPackets = wrap32 ((Function.update w.counted k 0 i : ℕ))
          rw [inputs]
          intro i r' there
          by_cases own : i = k
          · subst own
            rw [List.getElem?_set_self (List.getElem?_eq_some_iff.mp found).1] at there
            obtain rfl := Option.some.inj there
            rw [counter, if_pos opens, Function.update_self]
            rfl
          · rw [List.getElem?_set_ne (Ne.symm own)] at there
            rw [Function.update_of_ne own]
            exact h.counts i r' there
        · intro i released
          obtain rfl : k = i := Option.some.inj released
          exact ⟨sends, by simp [Watch.release]⟩
        · intro i slot placed other
          have ne : i ≠ k := fun eq => other (by rw [eq]; rfl)
          have same : w.position = slot + Function.update w.counted k 0 i + w.padding i := by
            rw [Function.update_of_ne ne, Watch.position_inside (by simp [pc]) (by simp [pc])]
            exact elapsed i slot placed (by simp [still])
          rw [Watch.position_inside (by simp [pc]) (by simp [pc])] at same
          refine Eq.trans (elapsed' _ ?_ ?_) same <;> rfl
      · simp only [releases, index, found, opens]
        refine ⟨sound, ?_, needs, ?_, ?_⟩
        · show ∀ i r', (scanInput ts conf w.mix left readCount).inputs[i]? = some r' →
            r'.outputedPackets = wrap32 (w.counted i)
          rw [inputs]
          intro i r' there
          by_cases own : i = k
          · subst own
            rw [List.getElem?_set_self (List.getElem?_eq_some_iff.mp found).1] at there
            obtain rfl := Option.some.inj there
            rw [counter, if_neg opens]
            exact h.counts i r found
          · rw [List.getElem?_set_ne (Ne.symm own)] at there
            exact h.counts i r' there
        · intro i released
          simp [still] at released
        · intro i slot placed _
          refine Eq.trans (elapsed' _ ?_ ?_) (elapsed i slot placed (by simp [still])) <;> rfl

theorem Watched.turn (h : Watched ts conf w) : Watched ts conf (w.turn ts conf) := by
  cases pc : w.mix.pc with
  | waiting => exact h.turn_waiting pc
  | psi => exact h.turn_psi pc
  | scan left readCount =>
      cases left with
      | zero => exact h.turn_endScan pc
      | succ left => exact h.turn_scanInput pc
  | send data =>
      cases data with
      | none => exact h.turn_countSlot pc
      | some p => exact h.turn_copyPacket pc
  | full => exact h.turn_full pc

theorem Watched.arrive (h : Watched ts conf w) {s' : Mix} (arrives : Arrives ts w.mix s') :
    Watched ts conf { w with mix := s' } := by
  have sound := h.sound.arrive arrives
  have pc : s'.pc = w.mix.pc := by rw [arrives.rest]
  have position : ({ w with mix := s' } : Watch).position = w.position := by
    unfold Watch.position
    rw [arrives.rest]
  refine ⟨sound, ?_, ?_, ?_, ?_⟩
  · intro i r' found
    obtain ⟨r, before, more⟩ := getElem?_of_forall₂ arrives.inputs found
    rw [more.outputed]
    exact h.counts i r before
  · intro r' member
    obtain ⟨i, inside, rfl⟩ := List.mem_iff_getElem.mp member
    obtain ⟨r, before, more⟩ :=
      getElem?_of_forall₂ arrives.inputs (List.getElem?_eq_getElem inside)
    have size : s'.maxPackets = w.mix.maxPackets := by rw [arrives.rest]
    rw [more.needed]
    show _ ≤ (s'.maxPackets : ℤ)
    rw [size]
    exact h.needs r (List.mem_of_getElem? before)
  · intro i released
    obtain ⟨⟨p, sending⟩, zero⟩ := h.pending i released
    exact ⟨⟨p, pc.trans sending⟩, zero⟩
  · intro i slot placed other
    rw [position]
    exact h.elapsed i slot placed other

theorem Fresh.watched (h : Fresh ts conf w) : Watched ts conf w := by
  refine ⟨⟨h.size, h.node, h.clean, fun ne => absurd h.pc ne⟩, ?_, ?_, ?_, ?_⟩
  · intro i r found
    rw [(h.inputs r (List.mem_of_getElem? found)).1, h.counted]
    rfl
  · intro r member
    rw [(h.inputs r member).2.1]
    exact Int.natCast_nonneg _
  · intro i released
    rw [h.released] at released
    cases released
  · intro i slot placed
    rw [h.pcrSlot] at placed
    cases placed

theorem Watched.run (h : Watched ts conf w) {visited : List Watch}
    (run : MixRun ts conf w visited) : ∀ v ∈ visited, Watched ts conf v := by
  induction run with
  | start => simpa using h
  | turn _ ih =>
      rw [List.forall_mem_cons]
      exact ⟨(ih _ (by simp)).turn, ih⟩
  | arrive _ arrives ih =>
      rw [List.forall_mem_cons]
      exact ⟨(ih _ (by simp)).arrive arrives, ih⟩

theorem watched_run (fresh : Fresh ts conf w) {visited : List Watch}
    (run : MixRun ts conf w visited) : ∀ v ∈ visited, Watched ts conf v :=
  fresh.watched.run run

end invariant

end Mptsd.Mixer.Observer
