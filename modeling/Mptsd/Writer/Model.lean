/- Unit: Mptsd/Writer/Model
   source: src/output_write.c, src/data.h (OUTPUT)
   digest: The writer: PCR restamping of a frame, the two network writes, and the draining of one
   output buffer. -/

import Mathlib.Algebra.Order.Floor.Semifield
import Mptsd.Conf
import Mptsd.TsPacket

set_option autoImplicit false
set_option relaxedAutoImplicit false

namespace Mptsd.Writer.Model

open Mptsd.TsPacket
open Mptsd.Conf (Config)

/-- The part of `OUTPUT` the writer works on. The three tables are indexed by PID; unsigned 64-bit
fields hold their value below `2 ^ 64`. `ofd` says whether an output file is open. -/
structure Output where
  ofd : Bool
  outputBitrate : ℕ
  traffic : ℕ
  trafficPeriod : ℕ
  paddingPeriod : ℕ
  lastOrgPcr : ℕ → ℕ
  lastPcr : ℕ → ℕ
  lastTraffic : ℕ → ℕ
  rtpSequenceNumber : ℕ
  rtpSsrc : ℕ

/-- What `output_new` and `output_buffer_alloc` leave in these fields. -/
def outputNew (conf : Config) (ofd : Bool) (rtpSsrc : ℕ) : Output where
  ofd
  outputBitrate := conf.outputBitrate
  traffic := 0
  trafficPeriod := 0
  paddingPeriod := 0
  lastOrgPcr _ := 0
  lastPcr _ := 0
  lastTraffic _ := 0
  rtpSequenceNumber := 0
  rtpSsrc

variable (ts : TsFuncs) (conf : Config)

/-- A stuffing packet is marked "no adaptation field, payload only" before anything else. -/
def markNull (tsPacket : Packet) : Packet :=
  if ts.getPid tsPacket = nullPid then Function.update tsPacket 3 0x10 else tsPacket

/-- `old_pcr + (double)product / o->output_bitrate`. Both integers are converted to `double`, and
the quotient and the sum are of this type too. -/
def pcrSum (oldPcr product outputBitrate : ℕ) : ℚ :=
  ts.doubles.round (ts.doubles.round oldPcr +
    ts.doubles.round (ts.doubles.round product / outputBitrate))

section pcrSum

variable {oldPcr product outputBitrate : ℕ}

private theorem quotient_nonneg :
    0 ≤ ts.doubles.round (ts.doubles.round product / outputBitrate) :=
  ts.doubles.round_nonneg (div_nonneg (ts.doubles.round_nonneg (by positivity)) (by positivity))

theorem le_pcrSum (m k : ℕ) (small : m < 2 ^ 53) (le : m * 2 ^ k ≤ oldPcr) :
    (m * 2 ^ k : ℚ) ≤ pcrSum ts oldPcr product outputBitrate := by
  apply ts.doubles.le_round m k small
  have old := ts.doubles.le_round m k small (show (m * 2 ^ k : ℚ) ≤ oldPcr by exact_mod_cast le)
  have quotient : 0 ≤ ts.doubles.round (ts.doubles.round product / outputBitrate) :=
    quotient_nonneg ts
  linarith

theorem pcrSum_le (m k m' k' : ℕ) (small : m < 2 ^ 53) (small' : m' < 2 ^ 53)
    (old : oldPcr ≤ m * 2 ^ k) (room : m * 2 ^ k + 2 ^ 44 ≤ m' * 2 ^ k')
    (fits : product < 2 ^ 64) (fast : 2 ^ 20 ≤ outputBitrate) :
    pcrSum ts oldPcr product outputBitrate ≤ (m' * 2 ^ k' : ℚ) := by
  have rate : (2 ^ 20 : ℚ) ≤ outputBitrate := by exact_mod_cast fast
  have rounded : ts.doubles.round product ≤ 2 ^ 64 := by
    simpa using ts.doubles.round_le 1 64 (by norm_num) (by positivity)
      (show (product : ℚ) ≤ (1 : ℕ) * 2 ^ 64 by exact_mod_cast by omega)
  have nonneg := ts.doubles.round_nonneg (show (0 : ℚ) ≤ product by positivity)
  have quotient : ts.doubles.round (ts.doubles.round product / outputBitrate) ≤ 2 ^ 44 := by
    have below : ts.doubles.round product / outputBitrate ≤ ((1 : ℕ) : ℚ) * 2 ^ 44 := by
      rw [div_le_iff₀ (by linarith)]
      push_cast
      linarith
    simpa using ts.doubles.round_le 1 44 (by norm_num) (by positivity) below
  have first := ts.doubles.round_le m k small (by positivity)
    (show (oldPcr : ℚ) ≤ m * 2 ^ k by exact_mod_cast old)
  have positive := ts.doubles.round_nonneg (show (0 : ℚ) ≤ oldPcr by positivity)
  have wide : (m * 2 ^ k + 2 ^ 44 : ℚ) ≤ m' * 2 ^ k' := by exact_mod_cast room
  exact ts.doubles.round_le m' k' small' (add_nonneg positive (quotient_nonneg ts)) (by linarith)

theorem pcrSum_bounds (fits : product < 2 ^ 53) (positive : 0 < outputBitrate)
    (small : oldPcr + product / outputBitrate + 1 < 2 ^ 53) :
    ((oldPcr + product / outputBitrate : ℕ) : ℚ) ≤ pcrSum ts oldPcr product outputBitrate ∧
      pcrSum ts oldPcr product outputBitrate ≤
        ((oldPcr + product / outputBitrate + 1 : ℕ) : ℚ) := by
  have rate : (0 : ℚ) < outputBitrate := by exact_mod_cast positive
  have lower : ((product / outputBitrate : ℕ) : ℚ) ≤ product / outputBitrate := Nat.cast_div_le
  have upper : (product : ℚ) / outputBitrate ≤ ((product / outputBitrate + 1 : ℕ) : ℚ) := by
    rw [div_le_iff₀ rate, mul_comm]
    exact_mod_cast (Nat.lt_mul_div_succ product positive).le
  have zero : (0 : ℚ) ≤ product / outputBitrate := by positivity
  rw [pcrSum, ts.doubles.round_natCast fits]
  generalize product / outputBitrate = whole at small lower upper ⊢
  have above := ts.doubles.natCast_le_round (by omega) lower
  have below := ts.doubles.round_le_natCast (by omega) zero upper
  have sum := add_nonneg (Nat.cast_nonneg (α := ℚ) oldPcr) (ts.doubles.round_nonneg zero)
  rw [ts.doubles.round_natCast (n := oldPcr) (by omega)]
  refine ⟨ts.doubles.natCast_le_round (by omega) ?_, ts.doubles.round_le_natCast small sum ?_⟩
  · push_cast
    linarith
  · push_cast at below ⊢
    linarith

end pcrSum

/-- The new PCR of a packet, where `pcr` is its own and `bytes` its place in the output. The
product is a `uint64_t`, and so is what is stored: the fraction of the sum is cut off. -/
def newPcr (o : Output) (pid pcr bytes : ℕ) : ℕ :=
  if o.lastPcr pid ≠ 0 ∧ o.lastOrgPcr pid < pcr then
    ⌊pcrSum ts (o.lastPcr pid) ((bytes + 2 ^ 64 - o.lastTraffic pid) * 8 * 27000000 % 2 ^ 64)
      o.outputBitrate⌋₊ % 2 ^ 64
  else pcr

/-- The quotient is short of 51343 ticks by less than `double` can tell at this size. -/
example : ⌊pcrSum headerFuncs 2576980300000 (1504 * 8 * 27000000) 6327328⌋₊ = 2576980351343 := by
  decide +kernel

theorem floor_pcrSum_exactly (oldPcr product outputBitrate : ℕ) :
    ⌊pcrSum ts.exactly oldPcr product outputBitrate⌋₊ = oldPcr + product / outputBitrate := by
  have sum : pcrSum ts.exactly oldPcr product outputBitrate =
      (product : ℚ) / outputBitrate + oldPcr := add_comm _ _
  rw [sum, Nat.floor_add_natCast (by positivity), Nat.floor_div_eq_div (K := ℚ), Nat.add_comm]

/-- `o->padding_period` counts the bytes of stuffing. -/
def Output.pad (o : Output) (pid : ℕ) : Output :=
  if pid = nullPid then { o with paddingPeriod := (o.paddingPeriod + tsPacketSize) % 2 ^ 64 } else o

/-- The three table entries of a PID after a packet with a PCR. -/
def Output.remember (o : Output) (pid new pcr bytes : ℕ) : Output :=
  { o with
    lastPcr := Function.update o.lastPcr pid new
    lastOrgPcr := Function.update o.lastOrgPcr pid pcr
    lastTraffic := Function.update o.lastTraffic pid bytes }

namespace Output

variable (o : Output) (pid : ℕ)

@[simp] theorem outputBitrate_pad : (o.pad pid).outputBitrate = o.outputBitrate := by
  rw [pad]
  split <;> rfl

@[simp] theorem traffic_pad : (o.pad pid).traffic = o.traffic := by
  rw [pad]
  split <;> rfl

@[simp] theorem lastPcr_pad : (o.pad pid).lastPcr = o.lastPcr := by
  rw [pad]
  split <;> rfl

@[simp] theorem lastOrgPcr_pad : (o.pad pid).lastOrgPcr = o.lastOrgPcr := by
  rw [pad]
  split <;> rfl

@[simp] theorem lastTraffic_pad : (o.pad pid).lastTraffic = o.lastTraffic := by
  rw [pad]
  split <;> rfl

@[simp] theorem ofd_pad : (o.pad pid).ofd = o.ofd := by
  rw [pad]
  split <;> rfl

@[simp] theorem rtpSsrc_pad : (o.pad pid).rtpSsrc = o.rtpSsrc := by
  rw [pad]
  split <;> rfl

@[simp] theorem rtpSequenceNumber_pad :
    (o.pad pid).rtpSequenceNumber = o.rtpSequenceNumber := by
  rw [pad]
  split <;> rfl

end Output

/-- The body of the loop of `ts_frame_process`, for the packet at byte `i` of the frame. -/
def tsPacketProcess (o : Output) (i : ℕ) (tsPacket : Packet) : Packet × Output :=
  let pid := ts.getPid tsPacket
  let marked := markNull ts tsPacket
  if ts.hasPcr marked then
    let pcr := ts.getPcr marked
    let bytes := (o.traffic + i) % 2 ^ 64
    let new := newPcr ts o pid pcr bytes
    (if o.lastPcr pid ≠ 0 ∧ o.lastOrgPcr pid < pcr ∧ (conf.pcrMode = 2 ∨ conf.pcrMode = 3) then
        ts.setPcr marked new
      else marked,
      (o.pad pid).remember pid new pcr bytes)
  else (marked, o.pad pid)

/-- The rest of a frame, from byte `i` on. -/
def tsFrameProcess (o : Output) (i : ℕ) : Frame → Frame × Output
  | [] => ([], o)
  | tsPacket :: rest =>
      let first := tsPacketProcess ts conf o i tsPacket
      let others := tsFrameProcess first.2 (i + tsPacketSize) rest
      (first.1 :: others.1, others.2)

section frame

variable (o : Output) (i : ℕ)

@[simp] theorem ofd_tsPacketProcess (p : Packet) :
    (tsPacketProcess ts conf o i p).2.ofd = o.ofd := by
  rw [tsPacketProcess]
  dsimp only
  split
  · exact o.ofd_pad _
  · exact o.ofd_pad _

@[simp] theorem rtpSsrc_tsPacketProcess (p : Packet) :
    (tsPacketProcess ts conf o i p).2.rtpSsrc = o.rtpSsrc := by
  rw [tsPacketProcess]
  dsimp only
  split
  · exact o.rtpSsrc_pad _
  · exact o.rtpSsrc_pad _

@[simp] theorem ofd_tsFrameProcess (frame : Frame) :
    (tsFrameProcess ts conf o i frame).2.ofd = o.ofd := by
  induction frame generalizing o i with
  | nil => rfl
  | cons p rest ih => exact (ih _ _).trans (ofd_tsPacketProcess ts conf o i p)

@[simp] theorem length_tsFrameProcess (frame : Frame) :
    (tsFrameProcess ts conf o i frame).1.length = frame.length := by
  induction frame generalizing o i with
  | nil => rfl
  | cons p rest ih => exact congrArg Nat.succ (ih _ _)

@[simp] theorem rtpSsrc_tsFrameProcess (frame : Frame) :
    (tsFrameProcess ts conf o i frame).2.rtpSsrc = o.rtpSsrc := by
  induction frame generalizing o i with
  | nil => rfl
  | cons p rest ih => exact (ih _ _).trans (rtpSsrc_tsPacketProcess ts conf o i p)

@[simp] theorem rtpSequenceNumber_tsPacketProcess (p : Packet) :
    (tsPacketProcess ts conf o i p).2.rtpSequenceNumber = o.rtpSequenceNumber := by
  simp only [tsPacketProcess]
  split
  · exact o.rtpSequenceNumber_pad _
  · exact o.rtpSequenceNumber_pad _

@[simp] theorem rtpSequenceNumber_tsFrameProcess (frame : Frame) :
    (tsFrameProcess ts conf o i frame).2.rtpSequenceNumber = o.rtpSequenceNumber := by
  induction frame generalizing o i with
  | nil => rfl
  | cons p rest ih => exact (ih _ _).trans (rtpSequenceNumber_tsPacketProcess ts conf o i p)

end frame

def bytesOf (frame : Frame) : List UInt8 := frame.flatMap List.ofFn

/-- What the system answers to the writes of one frame: `sent` is the result of `fdwrite` on the
socket, `saved` that of `write` on the output file, `time` the monotonic clock in microseconds. -/
structure FrameIo where
  sent : ℤ
  saved : ℤ
  time : ℕ

/-- What writing one frame did: the result, the bytes counted as traffic, the bytes given to the
socket, and the new state. -/
structure FrameWritten where
  written : ℤ
  counted : ℕ
  datagram : List UInt8
  output : Output

/-- `o->traffic` and `o->traffic_period` count the payload bytes. -/
def Output.count (o : Output) (written : ℕ) : Output :=
  { o with
    traffic := (o.traffic + written) % 2 ^ 64
    trafficPeriod := (o.trafficPeriod + written) % 2 ^ 64 }

def tsFrameWrite (o : Output) (frame : Frame) (io : FrameIo) : FrameWritten :=
  let written2 := if o.ofd then io.saved else 0
  let written := if written2 > io.sent then written2 else io.sent
  let counted := if written ≥ 0 then written.toNat else 0
  { written
    counted
    datagram := bytesOf frame
    output := if written ≥ 0 then o.count counted else o }

/-- The bytes of a number, most significant first. -/
def bigEndian : ℕ → ℕ → List UInt8
  | 0, _ => []
  | k + 1, v => .ofNat (v / 2 ^ (8 * k)) :: bigEndian k v

/-- The 90 kHz clock of the RTP header. -/
def timestampValue (time : ℕ) : ℕ :=
  (90000 * (time / 1000000) % 2 ^ 32 + 9 * (time % 1000000) / 100) % 2 ^ 32

/-- Version 2, no marker, payload type 33. -/
def rtpHeader (o : Output) (time : ℕ) : List UInt8 :=
  [0x80, 33] ++ bigEndian 2 o.rtpSequenceNumber ++ bigEndian 4 (timestampValue time) ++
    bigEndian 4 o.rtpSsrc

def tsFrameWriteRtp (o : Output) (frame : Frame) (io : FrameIo) : FrameWritten :=
  let written2 := if o.ofd then io.saved else 0
  let written := if written2 > io.sent then written2 + rtpHeaderSize else io.sent
  let payload := if written ≥ rtpHeaderSize then written - rtpHeaderSize else written
  let counted := if written ≥ rtpHeaderSize then payload.toNat else 0
  let after := if written ≥ rtpHeaderSize then o.count counted else o
  { written := payload
    counted
    datagram := rtpHeader o io.time ++ bytesOf frame
    output := { after with rtpSequenceNumber := (o.rtpSequenceNumber + 1) % 2 ^ 16 } }

/-- The choice between the two ways of writing. -/
def frameWrite (o : Output) (frame : Frame) (io : FrameIo) : FrameWritten :=
  if o.rtpSsrc ≠ 0 then tsFrameWriteRtp o frame io else tsFrameWrite o frame io

/-- One turn of the inner loop of `output_handle_write`: restamp the frame, then write it. -/
def handleFrame (o : Output) (frame : Frame) (io : FrameIo) : FrameWritten :=
  let processed := tsFrameProcess ts conf o 0 frame
  frameWrite processed.2 processed.1 io

/-- The inner loop over the frames of a buffer, with the sum of the results. -/
def handleFrames (o : Output) (written : ℤ) : List (Frame × FrameIo) → ℤ × Output
  | [] => (written, o)
  | x :: rest =>
      let one := handleFrame ts conf o x.1 x.2
      handleFrames one.output (written + one.written) rest

/-- What the writer does about its socket after a buffer. -/
inductive SocketAction
  | shutdownFd | connectOutput
  deriving DecidableEq

/-- Showing the statistics starts a new period; `stats` says that they were due. -/
def Output.show (o : Output) (stats : Bool) : Output :=
  if stats then { o with trafficPeriod := 0, paddingPeriod := 0 } else o

/-- The draining of one full buffer. -/
def handleBuffer (o : Output) (stats : Bool) (frames : List (Frame × FrameIo)) :
    ℤ × Output × List SocketAction :=
  let done := handleFrames ts conf (o.show stats) 0 frames
  let actions := if done.1 < 0 then
    .shutdownFd :: (if conf.writeOutputNetwork then [.connectOutput] else []) else []
  (done.1, done.2, actions)

end Mptsd.Writer.Model
