/- Unit: Mptsd/Handoff/Model
   source: src/output_mix.c (output_handle_mix), src/output_write.c (output_handle_write),
   src/data.c (obuf_reset, output_buffer_alloc), src/data.h (OBUF)
   digest: The mixer and the writer as two processes over the two output buffers, one access to
   shared memory at a time. -/

import Mptsd.Writer.Model

set_option autoImplicit false
set_option relaxedAutoImplicit false

namespace Mptsd.Handoff.Model

open Mptsd.TsPacket
open Mptsd.Conf (Config)
open Mptsd.Writer.Model (Output FrameIo tsFrameProcess frameWrite outputNew)

/-- `OBUF_STATUS`. -/
inductive ObufStatus
  | empty | filling | full | emptying
  deriving DecidableEq

/-- `OBUF`: the buffer as packets, `written` in bytes. -/
structure Obuf where
  buf : List Packet
  written : ℕ
  status : ObufStatus

def Obuf.size (ob : Obuf) : ℕ := ob.buf.length * tsPacketSize

/-- Where the mixer stands: waiting for an empty buffer, having seen one, filling it, or before
the switch to the other one. -/
inductive MixPc
  | waiting | found | filling | switching
  deriving DecidableEq

/-- Where the writer stands. `sending` lies between `ts_frame_process` and the end of the write;
`headers` and `releasing` lie in `obuf_reset`, after its `memset`. -/
inductive WritePc
  | waiting | found | draining | sending | headers (done : ℕ) | releasing | switching
  deriving DecidableEq

/-- A process with its own `buf_in_use`. -/
structure Mixer where
  pc : MixPc
  bufInUse : Bool

structure Writer where
  pc : WritePc
  bufInUse : Bool
  output : Output

/-- The shared buffers and the two processes. `handed` lists the frames given to
`ts_frame_process`, `published` the buffers in the order they were marked full. -/
structure State where
  obuf : Bool → Obuf
  mix : Mixer
  write : Writer
  handed : List Frame
  published : List (List Packet)

/-- The frame at a byte offset. -/
def frameAt (buf : List Packet) (offset : ℕ) : Frame := (buf.drop (offset / tsPacketSize)).take 7

/-- A frame changed in place. -/
def setFrame (buf : List Packet) (offset : ℕ) (frame : Frame) : List Packet :=
  buf.take (offset / tsPacketSize) ++ frame ++ buf.drop (offset / tsPacketSize + 7)

def State.setObuf (s : State) (b : Bool) (ob : Obuf) : State :=
  { s with obuf := Function.update s.obuf b ob }

def State.setMixPc (s : State) (pc : MixPc) : State := { s with mix := { s.mix with pc } }

def State.setWritePc (s : State) (pc : WritePc) : State := { s with write := { s.write with pc } }

def State.setOutput (s : State) (output : Output) : State :=
  { s with write := { s.write with output } }

namespace State

/-- The buffer the mixer is at. -/
def mixBuf (s : State) : Obuf := s.obuf s.mix.bufInUse

/-- The buffer the writer is at. -/
def writeBuf (s : State) : Obuf := s.obuf s.write.bufInUse

/-- `curbuf->status = obuf_filling`. -/
def markFilling (s : State) : State :=
  (s.setObuf s.mix.bufInUse { s.mixBuf with status := .filling }).setMixPc .filling

/-- One `memcpy` of the mixer. -/
def putPacket (s : State) (slot : ℕ) (packet : Packet) : State :=
  s.setObuf s.mix.bufInUse { s.mixBuf with buf := s.mixBuf.buf.set slot packet }

/-- `curbuf->status = obuf_full`. -/
def markFull (s : State) : State :=
  { (s.setObuf s.mix.bufInUse { s.mixBuf with status := .full }).setMixPc .switching with
    published := s.published ++ [s.mixBuf.buf] }

/-- `curbuf->status = obuf_emptying`, and the statistics. -/
def markEmptying (s : State) (stats : Bool) : State :=
  ((s.setObuf s.write.bufInUse { s.writeBuf with status := .emptying }).setWritePc
    .draining).setOutput (s.write.output.show stats)

/-- `ts_frame_process` of the frame at `written`, in place. -/
def processFrame (ts : TsFuncs) (conf : Config) (s : State) : State :=
  let tsFrame := frameAt s.writeBuf.buf s.writeBuf.written
  let processed := tsFrameProcess ts conf s.write.output 0 tsFrame
  { ((s.setObuf s.write.bufInUse { s.writeBuf with
        buf := setFrame s.writeBuf.buf s.writeBuf.written processed.1 }).setWritePc
      .sending).setOutput processed.2 with
    handed := s.handed ++ [tsFrame] }

/-- The write of the frame, and `curbuf->written += FRAME_PACKET_SIZE`. -/
def sendFrame (s : State) (io : FrameIo) : State :=
  ((s.setObuf s.write.bufInUse { s.writeBuf with
      written := s.writeBuf.written + framePacketSize }).setWritePc .draining).setOutput
    (frameWrite s.write.output (frameAt s.writeBuf.buf s.writeBuf.written) io).output

/-- The `memset` of `obuf_reset`. -/
def resetBytes (s : State) : State :=
  (s.setObuf s.write.bufInUse { s.writeBuf with
    buf := List.replicate s.writeBuf.buf.length (fun _ => 0xff) }).setWritePc (.headers 0)

/-- One turn of the loop of `obuf_reset`. -/
def resetHeader (s : State) (i : ℕ) : State :=
  (s.setObuf s.write.bufInUse { s.writeBuf with
    buf := s.writeBuf.buf.set i nullPacket }).setWritePc (.headers (i + 1))

/-- `ob->written = 0`. -/
def resetWritten (s : State) : State :=
  (s.setObuf s.write.bufInUse { s.writeBuf with written := 0 }).setWritePc .releasing

/-- `ob->status = obuf_empty`. -/
def markEmpty (s : State) : State :=
  (s.setObuf s.write.bufInUse { s.writeBuf with status := .empty }).setWritePc .switching

def switchMix (s : State) : State := { s with mix := ⟨.waiting, !s.mix.bufInUse⟩ }

def switchWrite (s : State) : State :=
  { s with write := { s.write with pc := .waiting, bufInUse := !s.write.bufInUse } }

end State

/-- The next step of the mixer. While it fills, `put` is the slot and the packet it copies there;
there is none when it has finished. -/
def mixStep (s : State) (put : Option (ℕ × Packet)) : State :=
  match s.mix.pc with
  | .waiting => if s.mixBuf.status = .empty then s.setMixPc .found else s
  | .found => s.markFilling
  | .filling =>
      match put with
      | some x => s.putPacket x.1 x.2
      | none => s.markFull
  | .switching => s.switchMix

variable (ts : TsFuncs) (conf : Config)

/-- The next step of the writer. -/
def writeStep (s : State) (stats : Bool) (io : FrameIo) : State :=
  match s.write.pc with
  | .waiting => if s.writeBuf.status = .full then s.setWritePc .found else s
  | .found => s.markEmptying stats
  | .draining =>
      if s.writeBuf.written < s.writeBuf.size then s.processFrame ts conf else s.resetBytes
  | .sending => s.sendFrame io
  | .headers i => if i < s.writeBuf.buf.length then s.resetHeader i else s.resetWritten
  | .releasing => s.markEmpty
  | .switching => s.switchWrite

/-- Whose turn it is, with what the process meets. -/
inductive Turn
  | mix (put : Option (ℕ × Packet))
  | write (stats : Bool) (io : FrameIo)

def step (s : State) : Turn → State
  | .mix put => mixStep s put
  | .write stats io => writeStep ts conf s stats io

/-- An interleaving. -/
def run (s : State) (turns : List Turn) : State := turns.foldl (step ts conf) s

/-- What `output_buffer_alloc` leaves: two buffers of `frames` frames of stuffing. -/
def start (frames : ℕ) (ofd : Bool) (rtpSsrc : ℕ) : State where
  obuf _ := ⟨List.replicate (7 * frames) nullPacket, 0, .empty⟩
  mix := ⟨.waiting, false⟩
  write := ⟨.waiting, false, outputNew conf ofd rtpSsrc⟩
  handed := []
  published := []

end Mptsd.Handoff.Model
