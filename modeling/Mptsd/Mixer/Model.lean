/- Unit: Mptsd/Mixer/Model
   source: src/output_mix.c (output_handle_mix)
   digest: The filling of an output buffer from the PSI buffer and the input buffers, one access to
   a shared buffer at a time. -/

import Mptsd.Intake.Model
import Mptsd.Lib.Arith

set_option autoImplicit false
set_option relaxedAutoImplicit false

namespace Mptsd.Mixer.Model

open Mptsd.TsPacket (Packet TsFuncs tsPacketSize nullPid nullPacket)
open Mptsd.Conf (Config)
open Mptsd.Lib.Arith (roundAway wrap32)
open Mptsd.PsiTables (Cbuf cbufGet cbufPeek)
open Mptsd.Intake.Model (Input)

/-- `o_packets` limited to the buffer, and how data and stuffing are mixed. -/
structure Budget where
  maxPackets : ℕ
  packets : ℕ
  dataPerNull : ℚ
  nullPerData : ℚ

def Budget.nullPackets (b : Budget) : ℕ := b.maxPackets - b.packets

/-- `o_datasize`, an `unsigned int`. -/
def dataSize (psibuf : Cbuf) (inputs : List Input) : ℕ :=
  (psibuf.stored + (inputs.map (fun r => r.buf.stored)).sum) % 2 ^ 32

def budget (maxPackets datasize : ℕ) : Budget :=
  let packets := min (datasize / tsPacketSize) maxPackets
  let free : ℕ := maxPackets - packets
  if free ≠ 0 then
    if (packets : ℚ) / free < 1 then
      { maxPackets, packets, dataPerNull := 1, nullPerData := (free : ℚ) / packets }
    else { maxPackets, packets, dataPerNull := (packets : ℚ) / free, nullPerData := 1 }
  else { maxPackets, packets, dataPerNull := 0, nullPerData := 1 }

/-- The number of stuffing packets before data packet number `dataPackets`. -/
def mixNulls (b : Budget) (nulls dataPackets : ℕ) : ℕ :=
  if nulls < b.nullPackets then
    let before := roundAway (nulls * b.dataPerNull)
    let wanted := roundAway (dataPackets * b.nullPerData)
    let nulls := if before < wanted then (nulls + (wanted - before)).toNat else nulls
    if nulls > b.nullPackets then b.nullPackets else nulls
  else nulls

/-- Storing a whole `double` in an `int`; out of range the processor gives `INT_MIN`. -/
def storeInt (x : ℤ) : ℤ := if -2 ^ 31 ≤ x ∧ x < 2 ^ 31 then x else -2 ^ 31

/-- `output_pcr_packets_needed`: the packets between two PCRs at the output bitrate, within the
bounds of a buffer. -/
def packetsNeeded (conf : Config) (maxPackets pcr lastPcr : ℕ) : ℤ :=
  let distance : ℕ := (pcr + 2 ^ 64 - lastPcr) % 2 ^ 64
  let needed := storeInt
    (roundAway ((conf.outputBitrate : ℚ) / 8 / 27000000 / 188 * distance) - 1)
  let bound : ℤ := if maxPackets < (2 ^ 31 - 1) / 2 then maxPackets else (2 ^ 31 - 1) / 2
  if needed > bound then bound else if needed < 0 then 0 else needed

variable (ts : TsFuncs) (conf : Config)

/-- The PCR gate for the oldest packet of an input: whether it is held back, and the input. -/
def pcrGate (maxPackets : ℕ) (r : Input) (data : Packet) : Bool × Input :=
  if ts.getPid data = r.outputPcrPid ∧ ts.hasPcr data then
    let needed := if r.outputLastPcr ≠ 0 ∧ r.outputPcrPacketsNeeded ≤ 0 then
      packetsNeeded conf maxPackets (ts.getPcr data) r.outputLastPcr
      else r.outputPcrPacketsNeeded
    if needed > 0 ∧ r.outputedPackets < needed then
      (true, { r with outputPcrPacketsNeeded := needed })
    else
      (false, { r with
        outputPcr := ts.getPcr data
        outputLastPcr := ts.getPcr data
        outputPcrPacketsNeeded := 0
        outputedPackets := 0 })
  else (false, r)

/-- What a visit to an input gave: nothing was read (`skipped`), the buffer was empty, a PCR was
held back, a packet of stuffing was dropped, or there is a packet to send. -/
inductive Visit
  | skipped | empty | held
  | padding (p : Packet)
  | data (p : Packet)

/-- `cbuf_get` on an input, and the removal of padding. -/
def readInput (r : Input) : Visit × Input :=
  match (cbufGet r.buf).1 with
  | none => (.empty, { r with buf := (cbufGet r.buf).2 })
  | some p =>
      (if ts.getPid p < 0x1fff then .data p else .padding p,
        { r with buf := (cbufGet r.buf).2 })

def visitInput (maxPackets : ℕ) (r : Input) : Visit × Input :=
  if conf.pcrMode = 1 ∨ conf.pcrMode = 3 then
    match cbufPeek r.buf with
    | none => (.skipped, r)
    | some data =>
        let gate := pcrGate ts conf maxPackets r data
        if gate.1 then (.held, gate.2) else readInput ts gate.2
  else readInput ts r

/-- Where a packet came from. -/
inductive Origin
  | psi
  | input (i : ℕ)
  deriving DecidableEq

/-- Where the mixer stands: between two buffers, at the top of the loop over the data packets, in
the loop over the inputs, at `SEND_PACKET`, or at `NEXT_BUFFER`. -/
inductive Pc
  | waiting
  | psi
  | scan (inputsLeft readCount : ℕ)
  | send (data : Option Packet)
  | full
  deriving DecidableEq

/-- The mixer and what it shares. `node` is `inpt` as a position in the list of inputs, whose
empty root is at 0. The last four fields only record: the packets removed from the buffers, those
copied with their slots, the fake loops, and the branch "Can't happen". -/
structure Mix where
  pc : Pc
  psibuf : Cbuf
  inputs : List Input
  node : ℕ
  maxPackets : ℕ
  budget : Budget
  nulls : ℕ
  dataPackets : ℕ
  buf : List Packet
  removed : List (Origin × Packet)
  copied : List (ℕ × Packet)
  retries : ℕ
  overruns : ℕ

/-- `inpt->next` in a ring of `items` inputs and the root. -/
def nextNode (items node : ℕ) : ℕ := (node + 1) % (items + 1)

/-- The next node, the empty root being skipped. -/
def stepNode (items node : ℕ) : ℕ :=
  if nextNode items node = 0 then nextNode items (nextNode items node) else nextNode items node

/-- `r->outputed_packets += n`, an `int`. -/
def countPackets (n : ℕ) (r : Input) : Input :=
  { r with outputedPackets := wrap32 (r.outputedPackets + n) }

/-- The packet budget of a clean buffer; without data the buffer is done at once. -/
def startFill (s : Mix) : Mix :=
  let b := budget s.maxPackets (dataSize s.psibuf s.inputs)
  let s := { s with
    budget := b
    nulls := 0
    dataPackets := 0
    buf := List.replicate s.maxPackets nullPacket
    removed := []
    copied := [] }
  if b.nullPackets = s.maxPackets then
    { s with pc := .full, inputs := s.inputs.map (countPackets s.maxPackets) }
  else { s with pc := .psi }

/-- The PSI data is tried first. -/
def tryPsi (s : Mix) : Mix :=
  if s.dataPackets < s.budget.packets then
    let psibuf := (cbufGet s.psibuf).2
    match (cbufGet s.psibuf).1 with
    | some p =>
        { s with psibuf, pc := .send (some p), removed := s.removed ++ [(.psi, p)] }
    | none => { s with psibuf, pc := .scan s.inputs.length 0 }
  else { s with pc := .full }

/-- One turn of the loop over the inputs. -/
def scanInput (s : Mix) (inputsLeft readCount : ℕ) : Mix :=
  let node := stepNode s.inputs.length s.node
  match s.inputs[node - 1]? with
  | none => { s with node, pc := .scan inputsLeft readCount }
  | some r =>
      let visit := visitInput ts conf s.maxPackets r
      let s := { s with node, inputs := s.inputs.set (node - 1) visit.2 }
      match visit.1 with
      | .skipped => { s with pc := .scan inputsLeft readCount }
      | .empty => { s with pc := .scan inputsLeft (readCount + 1) }
      | .held => { s with pc := .scan inputsLeft (readCount + 1) }
      | .padding p =>
          { s with
            pc := .scan inputsLeft (readCount + 1)
            removed := s.removed ++ [(.input (node - 1), p)] }
      | .data p =>
          { s with
            pc := .send (some p)
            removed := s.removed ++ [(.input (node - 1), p)] }

/-- After all inputs: with nothing read the loop is repeated for the same packet. -/
def endScan (s : Mix) (readCount : ℕ) : Mix :=
  if readCount = 0 then { s with pc := .psi, retries := s.retries + 1 }
  else { s with pc := .send none }

/-- The end of the loop body: every input counts the slot. -/
def countSlot (s : Mix) : Mix :=
  { s with
    pc := .psi
    dataPackets := s.dataPackets + 1
    inputs := s.inputs.map (countPackets 1) }

/-- The copy of a packet into its slot. -/
def copyPacket (s : Mix) (p : Packet) : Mix :=
  let nulls := mixNulls s.budget s.nulls s.dataPackets
  let slot := s.dataPackets + nulls
  if slot ≥ s.maxPackets then { s with nulls, pc := .full, overruns := s.overruns + 1 }
  else countSlot { s with nulls, buf := s.buf.set slot p, copied := s.copied ++ [(slot, p)] }

/-- The next step of the mixer. -/
def mixTurn (s : Mix) : Mix :=
  match s.pc with
  | .waiting => startFill s
  | .psi => tryPsi s
  | .scan 0 readCount => endScan s readCount
  | .scan (inputsLeft + 1) readCount => scanInput ts conf s inputsLeft readCount
  | .send none => countSlot s
  | .send (some p) => copyPacket s p
  | .full => { s with pc := .waiting }

/-- Everything a step of the mixer can be, with what decides it. -/
inductive MixStep (s : Mix) : Mix → Prop
  | start (pc : s.pc = .waiting) : MixStep s (startFill s)
  | takePsi {p : Packet} (pc : s.pc = .psi) (more : s.dataPackets < s.budget.packets)
      (found : (cbufGet s.psibuf).1 = some p) :
      MixStep s { s with
        psibuf := (cbufGet s.psibuf).2
        pc := .send (some p)
        removed := s.removed ++ [(.psi, p)] }
  | toInputs (pc : s.pc = .psi) (more : s.dataPackets < s.budget.packets)
      (none : (cbufGet s.psibuf).1 = none) :
      MixStep s { s with psibuf := (cbufGet s.psibuf).2, pc := .scan s.inputs.length 0 }
  | done (pc : s.pc = .psi) (all : ¬ s.dataPackets < s.budget.packets) :
      MixStep s { s with pc := .full }
  | visit {left readCount : ℕ} (pc : s.pc = .scan (left + 1) readCount) :
      MixStep s (scanInput ts conf s left readCount)
  | again (pc : s.pc = .scan 0 0) : MixStep s { s with pc := .psi, retries := s.retries + 1 }
  | nothing {readCount : ℕ} (pc : s.pc = .scan 0 readCount) (read : readCount ≠ 0) :
      MixStep s { s with pc := .send none }
  | skip (pc : s.pc = .send none) : MixStep s (countSlot s)
  | overrun {p : Packet} (pc : s.pc = .send (some p))
      (outside : s.dataPackets + mixNulls s.budget s.nulls s.dataPackets ≥ s.maxPackets) :
      MixStep s { s with
        nulls := mixNulls s.budget s.nulls s.dataPackets
        pc := .full
        overruns := s.overruns + 1 }
  | place {p : Packet} (pc : s.pc = .send (some p))
      (inside : ¬ s.dataPackets + mixNulls s.budget s.nulls s.dataPackets ≥ s.maxPackets) :
      MixStep s (countSlot { s with
        nulls := mixNulls s.budget s.nulls s.dataPackets
        buf := s.buf.set (s.dataPackets + mixNulls s.budget s.nulls s.dataPackets) p
        copied :=
          s.copied ++ [(s.dataPackets + mixNulls s.budget s.nulls s.dataPackets, p)] })
  | wait (pc : s.pc = .full) : MixStep s { s with pc := .waiting }

theorem mixTurn_step (s : Mix) : MixStep ts conf s (mixTurn ts conf s) := by
  rw [mixTurn]
  cases pc : s.pc with
  | waiting => exact .start pc
  | psi =>
      dsimp only
      rw [tryPsi]
      split
      · rename_i more
        dsimp only
        cases found : (cbufGet s.psibuf).1 with
        | none => exact .toInputs pc more found
        | some p => exact .takePsi pc more found
      · rename_i all
        exact .done pc all
  | scan left readCount =>
      cases left with
      | zero =>
          dsimp only
          rw [endScan]
          split
          · rename_i none
            exact .again (none ▸ pc)
          · rename_i read
            exact .nothing pc read
      | succ left => exact .visit pc
  | send data =>
      cases data with
      | none => exact .skip pc
      | some p =>
          dsimp only
          unfold copyPacket
          dsimp only
          split
          · rename_i outside
            exact .overrun pc outside
          · rename_i inside
            exact .place pc inside
  | full => exact .wait pc

theorem scanInput_frame (s : Mix) (left readCount : ℕ) :
    ∃ inputs pc removed,
      scanInput ts conf s left readCount =
        { s with node := stepNode s.inputs.length s.node, inputs, pc, removed } ∧
      (inputs = s.inputs ∨
        ∃ i r, s.inputs[i]? = some r ∧
          inputs = s.inputs.set i (visitInput ts conf s.maxPackets r).2) ∧
      ((∃ count, pc = .scan left count) ∨ ∃ p, pc = .send (some p)) := by
  rw [scanInput]
  dsimp only
  split
  · exact ⟨_, _, _, rfl, Or.inl rfl, Or.inl ⟨_, rfl⟩⟩
  · rename_i r found
    split
    · exact ⟨_, _, _, rfl, Or.inr ⟨_, r, found, rfl⟩, Or.inl ⟨_, rfl⟩⟩
    · exact ⟨_, _, _, rfl, Or.inr ⟨_, r, found, rfl⟩, Or.inl ⟨_, rfl⟩⟩
    · exact ⟨_, _, _, rfl, Or.inr ⟨_, r, found, rfl⟩, Or.inl ⟨_, rfl⟩⟩
    · exact ⟨_, _, _, rfl, Or.inr ⟨_, r, found, rfl⟩, Or.inl ⟨_, rfl⟩⟩
    · exact ⟨_, _, _, rfl, Or.inr ⟨_, r, found, rfl⟩, Or.inr ⟨_, rfl⟩⟩

/-- What the other threads may do to an input meanwhile: they put packets into its buffer, never
stuffing, and leave the PCR gate to the mixer. -/
structure Supplied (r r' : Input) : Prop where
  buf : ∃ data, r'.buf.toFifo = r.buf.toFifo.push data ∧ ∀ p ∈ data, ts.getPid p ≠ nullPid
  lastPcr : r'.outputLastPcr = r.outputLastPcr
  needed : r'.outputPcrPacketsNeeded = r.outputPcrPacketsNeeded
  outputed : r'.outputedPackets = r.outputedPackets

/-- What the other threads may do between two steps of the mixer. -/
structure Arrives (s s' : Mix) : Prop where
  psibuf : ∃ data, s'.psibuf.toFifo = s.psibuf.toFifo.push data
  inputs : List.Forall₂ (Supplied ts) s.inputs s'.inputs
  rest : s' = { s with psibuf := s'.psibuf, inputs := s'.inputs }

/-- A run within one buffer, with the number of the mixer's steps. -/
inductive FillRun (s : Mix) : ℕ → Mix → Prop
  | start : FillRun s 0 (startFill s)
  | turn {n t} : FillRun s n t → (t.pc ≠ .full) → FillRun s (n + 1) (mixTurn ts conf t)
  | arrive {n t t'} : FillRun s n t → Arrives ts t t' → FillRun s n t'

end Mptsd.Mixer.Model
