/- Unit: Mptsd/Pipeline/Model
   source: src/input.c, src/output_psi.c, src/output_mix.c, src/output_write.c
   digest: All threads together: the PSI thread and the inputs fill their buffers, the mixer takes
   from them into the output buffers, and the writer hands the frames of these to the network. -/

import Mptsd.Handoff.Model
import Mptsd.Mixer.Model
import Mptsd.Psi.Model
import Mptsd.Writer.Restamp

set_option autoImplicit false
set_option relaxedAutoImplicit false

namespace Mptsd.Pipeline.Model

open Mptsd.TsPacket
open Mptsd.Conf (Config)
open Mptsd.PsiTables
open Mptsd.Psi.Model
open Mptsd.Intake.Model
open Mptsd.Mixer.Model (Mix mixTurn mixNulls)
open Mptsd.Writer.Model (FrameIo frameWrite)
open Mptsd.Writer.Restamp (Stamp Traced traceFrame)
open Mptsd.Handoff.Model (State mixStep writeStep frameAt)

variable (lib : Libs)

/-- The state of the threads: `mix` holds the PSI buffer and the inputs, `hand` the two output
buffers. The last three fields only record: the frames given to `ts_frame_write` or
`ts_frame_write_rtp`, the bytes counted as traffic, and the PCR packets that were handled. -/
structure World where
  psi : PsiOutput lib.toTsFuncs
  mix : Mix
  hand : State
  sent : List Frame
  total : ℕ
  log : List Stamp

/-- What can happen next: the PSI thread calls a generator, an input works on a packet, reconnects
or is told to stop, or the mixer or the writer takes a step. -/
inductive WorldStep
  | psi (call : PsiCall lib.toTsFuncs)
  | packet (i : ℕ) (tsPacket : Packet)
  | reconnect (i : ℕ)
  | stop (i : ℕ)
  | mix
  | write (stats : Bool) (io : FrameIo)

variable {lib} (conf : Config) (tf : TimeFuncs lib.toTsFuncs)

/-- The packet the next step of the mixer copies, and its slot. -/
def putOf (s : Mix) : Option (ℕ × Packet) :=
  match s.pc with
  | .send (some p) =>
      let slot := s.dataPackets + mixNulls s.budget s.nulls s.dataPackets
      if slot ≥ s.maxPackets then none else some (slot, p)
  | _ => none

/-- The step of the mixer as the output buffers see it. -/
def handTurn (s : World lib) : State :=
  if s.hand.mix.pc = .filling ∧ s.mix.pc ≠ .full then
    match putOf s.mix with
    | some put => mixStep s.hand (some put)
    | none => s.hand
  else mixStep s.hand none

/-- The mixer waits for an empty buffer, marks it, fills it, and marks it full. -/
def mixerStep (s : World lib) : World lib :=
  { s with
    hand := handTurn s
    mix := if s.hand.mix.pc = .found ∨ s.hand.mix.pc = .filling then
        mixTurn lib.toTsFuncs conf s.mix
      else s.mix }

namespace World

/-- The frame the writer is at. -/
def frame (s : World lib) : Frame := frameAt s.hand.writeBuf.buf s.hand.writeBuf.written

/-- The output with its observer. -/
def traced (s : World lib) : Traced := ⟨s.hand.write.output, s.total, s.log⟩

/-- The next step of the writer calls `ts_frame_process`. -/
def processes (s : World lib) : Prop :=
  s.hand.write.pc = .draining ∧ s.hand.writeBuf.written < s.hand.writeBuf.size

instance (s : World lib) : Decidable s.processes := by
  rw [processes]
  infer_instance

end World

def writerStep (s : World lib) (stats : Bool) (io : FrameIo) : World lib :=
  { s with
    hand := writeStep lib.toTsFuncs conf s.hand stats io
    sent := if s.hand.write.pc = .sending then s.sent ++ [s.frame] else s.sent
    total := if s.hand.write.pc = .sending then
        s.total + (frameWrite s.hand.write.output s.frame io).counted
      else s.total
    log := if s.processes then (traceFrame lib.toTsFuncs conf s.traced 0 s.frame).log else s.log }

/-- Something happens to one of the inputs. -/
def onInput (s : World lib) (i : ℕ) (step : InputStep) : World lib :=
  { s with
    mix := { s.mix with inputs := s.mix.inputs.modify i fun r => inputStep lib conf r step } }

def worldStep (s : World lib) : WorldStep lib → World lib
  | .psi call =>
      { s with
        psi := (psiCall lib tf s.psi s.mix.psibuf call).1
        mix := { s.mix with psibuf := (psiCall lib tf s.psi s.mix.psibuf call).2 } }
  | .packet i tsPacket => onInput conf s i (.packet tsPacket)
  | .reconnect i => onInput conf s i .reconnect
  | .stop i => onInput conf s i .stop
  | .mix => mixerStep conf s
  | .write stats io => writerStep conf s stats io

/-- A run, from a state on. -/
def worldRun (s : World lib) (steps : List (WorldStep lib)) : World lib :=
  steps.foldl (worldStep conf tf) s

theorem worldRun_concat (s : World lib) (steps : List (WorldStep lib)) (step : WorldStep lib) :
    worldRun conf tf s (steps ++ [step]) = worldStep conf tf (worldRun conf tf s steps) step := by
  simp [worldRun]

/-- The threads as they start. `psi` is what the tables and counters of `OUTPUT` are then. -/
def worldStart (psi : PsiOutput lib.toTsFuncs) (inputs : List Input) (ofd : Bool) (rtpSsrc : ℕ) :
    World lib where
  psi
  mix :=
    { pc := .waiting
      psibuf := Cbuf.init (50 * 1316)
      inputs
      node := inputs.length
      maxPackets := conf.obufPackets
      budget := ⟨0, 0, 0, 0⟩
      nulls := 0
      dataPackets := 0
      buf := []
      removed := []
      copied := []
      retries := 0
      overruns := 0 }
  hand := Handoff.Model.start conf conf.rate.obufFrames ofd rtpSsrc
  sent := []
  total := 0
  log := []

end Mptsd.Pipeline.Model
