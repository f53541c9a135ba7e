/- Unit: Mptsd/Writer/Failure
   source: src/output_write.c (ts_frame_write, ts_frame_write_rtp, output_handle_write)
   digest: What becomes of a failed network write: without an output file its -1 is lost, and the
   socket stays as it is. -/

import Mptsd.Writer.Model

set_option autoImplicit false
set_option relaxedAutoImplicit false

namespace Mptsd.Writer.Failure

open Mptsd.TsPacket
open Mptsd.Conf (Config sampleConfig)
open Mptsd.Writer.Model

/-- The reaction to a buffer that could not be sent. -/
def Noticed (conf : Config) (actions : List SocketAction) : Prop :=
  .shutdownFd ∈ actions ∧ (conf.writeOutputNetwork = true → .connectOutput ∈ actions)

variable (ts : TsFuncs) (conf : Config)

private theorem noticed_iff (o : Output) (stats : Bool) (frames : List (Frame × FrameIo)) :
    Noticed conf (handleBuffer ts conf o stats frames).2.2 ↔
      (handleBuffer ts conf o stats frames).1 < 0 := by
  rw [Noticed, handleBuffer]
  dsimp only
  generalize (handleFrames ts conf _ 0 frames).1 = sum
  constructor
  · rintro ⟨shut, -⟩
    by_contra fine
    rw [if_neg fine] at shut
    cases shut
  · intro negative
    rw [if_pos negative]
    refine ⟨by simp, ?_⟩
    intro network
    simp [network]

section frame

variable (o : Output) (frame : Frame) (io : FrameIo)

private theorem written_tsFrameWrite :
    (tsFrameWrite o frame io).written = max io.sent (if o.ofd then io.saved else 0) := by
  rw [tsFrameWrite]
  dsimp only
  split <;> omega

private theorem written_tsFrameWriteRtp :
    (tsFrameWriteRtp o frame io).written =
      if (if o.ofd then io.saved else 0) > io.sent then
        (if 0 ≤ (if o.ofd then io.saved else 0) then (if o.ofd then io.saved else 0)
          else (if o.ofd then io.saved else 0) + 12)
      else if 12 ≤ io.sent then io.sent - 12 else io.sent := by
  rw [tsFrameWriteRtp, rtpHeaderSize]
  dsimp only
  generalize (if o.ofd then io.saved else 0) = saved
  split_ifs <;> omega

@[simp] theorem ofd_handleFrame : (handleFrame ts conf o frame io).output.ofd = o.ofd := by
  have processed := ofd_tsFrameProcess ts conf o 0 frame
  unfold handleFrame frameWrite tsFrameWriteRtp tsFrameWrite
  dsimp only
  split_ifs <;> exact processed

private theorem written_handleFrame_of_failed (closed : o.ofd = false) (failed : io.sent = -1) :
    (handleFrame ts conf o frame io).written = 0 := by
  unfold handleFrame frameWrite
  dsimp only
  split
  · rw [written_tsFrameWriteRtp]
    simp [closed, failed]
  · rw [written_tsFrameWrite]
    simp [closed, failed]

end frame

private theorem handleFrames_of_failed {o : Output} (closed : o.ofd = false) (written : ℤ)
    {frames : List (Frame × FrameIo)} (failed : ∀ x ∈ frames, x.2.sent = -1) :
    (handleFrames ts conf o written frames).1 = written := by
  induction frames generalizing o written with
  | nil => rfl
  | cons x rest ih =>
      have one := written_handleFrame_of_failed ts conf o x.1 x.2 closed (failed x (by simp))
      have others := ih ((ofd_handleFrame ts conf o x.1 x.2).trans closed)
        (written + (handleFrame ts conf o x.1 x.2).written)
        (fun y member => failed y (by simp [member]))
      rw [handleFrames, others, one, add_zero]

/-- When every network write of a buffer fails and no file is open, the sum is not negative and
nothing is done about the socket, whatever the buffer and the configuration. -/
theorem failed_writes_unnoticed (o : Output) (closed : o.ofd = false) (stats : Bool)
    (frames : List (Frame × FrameIo)) (failed : ∀ x ∈ frames, x.2.sent = -1) :
    ¬ (handleBuffer ts conf o stats frames).1 < 0 ∧
      ¬ Noticed conf (handleBuffer ts conf o stats frames).2.2 := by
  have sum : (handleBuffer ts conf o stats frames).1 = 0 := by
    rw [handleBuffer]
    apply handleFrames_of_failed ts conf _ 0 failed
    cases stats
    · exact closed
    · exact closed
  have fine : ¬ (handleBuffer ts conf o stats frames).1 < 0 := by omega
  exact ⟨fine, fun noticed => fine ((noticed_iff ts conf o stats frames).mp noticed)⟩

/-- A frame of stuffing that the network refuses. -/
def refusedFrame : Frame × FrameIo := (List.replicate 7 nullPacket, ⟨-1, 0, 0⟩)

theorem failed_writes_unnoticed_rtp :
    ¬ (handleBuffer headerFuncs (sampleConfig 0) (outputNew (sampleConfig 0) false 1) false
        [refusedFrame]).1 < 0 ∧
      ¬ Noticed (sampleConfig 0) (handleBuffer headerFuncs (sampleConfig 0)
        (outputNew (sampleConfig 0) false 1) false [refusedFrame]).2.2 :=
  failed_writes_unnoticed headerFuncs (sampleConfig 0) (outputNew (sampleConfig 0) false 1) rfl
    false [refusedFrame] (by simp [refusedFrame])

/-- A buffer of one frame, over plain UDP: the write fails and the socket is kept. -/
theorem failed_write_kept_socket :
    ∃ (o : Output) (frames : List (Frame × FrameIo)), o.ofd = false ∧ frames ≠ [] ∧
      (∀ x ∈ frames, x.1.length = 7 ∧ x.2.sent = -1) ∧
      ¬ (handleBuffer headerFuncs (sampleConfig 0) o false frames).1 < 0 ∧
      ¬ Noticed (sampleConfig 0)
        (handleBuffer headerFuncs (sampleConfig 0) o false frames).2.2 := by
  let o := outputNew (sampleConfig 0) false 0
  have sum : (handleBuffer headerFuncs (sampleConfig 0) o false [refusedFrame]).1 = 0 :=
    handleFrames_of_failed headerFuncs (sampleConfig 0) rfl 0 (by simp [refusedFrame])
  have fine : ¬ (handleBuffer headerFuncs (sampleConfig 0) o false [refusedFrame]).1 < 0 := by
    omega
  refine ⟨o, [refusedFrame], rfl, by simp, by simp [refusedFrame], fine, ?_⟩
  intro noticed
  exact fine ((noticed_iff headerFuncs (sampleConfig 0) o false [refusedFrame]).mp noticed)

end Mptsd.Writer.Failure
