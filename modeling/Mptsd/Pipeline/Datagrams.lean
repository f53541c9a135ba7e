/- Unit: Mptsd/Pipeline/Datagrams
   source: src/output_write.c (ts_frame_write_rtp, output_handle_write), src/config.c (config_load),
   src/input.c (input_stream, the RTP read)
   digest: The datagrams of a run of the writer, and what an input reads of them. -/

import Mptsd.Intake.Reads
import Mptsd.Lib.Lockstep
import Mptsd.Lib.Rtp
import Mptsd.Writer.Isolation

set_option autoImplicit false
set_option relaxedAutoImplicit false

namespace Mptsd.Pipeline.Datagrams

open Mptsd.TsPacket
open Mptsd.Conf (Config sampleConfig)
open Mptsd.Intake.Reads (Reader ReadMode readMore fdread)
open Mptsd.Lib.Lockstep (run getElem?_run)
open Mptsd.Lib.Radix
open Mptsd.Lib.Rtp
open Mptsd.Writer.Isolation (framesWritten)
open Mptsd.Writer.Model

/-- The output as `config_load` sets it up. -/
def outputLoaded (conf : Config) (ofd : Bool) (rtpSsrc : UInt32) : Output :=
  { outputNew conf ofd rtpSsrc.toNat with rtpSequenceNumber := 1 }

/-- One call of `ts_frame_write_rtp`: the datagram, and the state after it. -/
def rtpStep (o : Output) (x : Frame × FrameIo) : List UInt8 × Output :=
  ((tsFrameWriteRtp o x.1 x.2).datagram, (tsFrameWriteRtp o x.1 x.2).output)

/-- The datagrams of a run. -/
def rtpRun (o : Output) (frames : List (Frame × FrameIo)) : List (List UInt8) :=
  (run rtpStep o frames).1

section bytes

@[simp] theorem length_bigEndian (k v : ℕ) : (bigEndian k v).length = k := by
  induction k with
  | zero => rfl
  | succ k ih => rw [bigEndian, List.length_cons, ih]

private theorem number_bigEndian (k v : ℕ) : number (bigEndian k v) = v % 256 ^ k := by
  have row : (bigEndian k v).map UInt8.toNat = places 256 k v := by
    induction k with
    | zero => rfl
    | succ k ih =>
        rw [bigEndian, List.map_cons, ih, places, UInt8.toNat_ofNat', Nat.pow_mul]
  rw [number, row, value_places]

private theorem length_bytesOf (frame : Frame) : (bytesOf frame).length = 188 * frame.length := by
  induction frame with
  | nil => rfl
  | cons p rest ih =>
      rw [bytesOf] at ih ⊢
      rw [List.flatMap_cons, List.length_append, ih, List.length_ofFn, List.length_cons]
      omega

private theorem timestampValue_eq (time : ℕ) : timestampValue time = ticks time % 2 ^ 32 := by
  have whole : 90000 * (time / 1000000) + 9 * (time % 1000000) / 100 = ticks time := by
    have split := Nat.div_add_mod time 1000000
    rw [ticks]
    omega
  rw [timestampValue, Nat.mod_add_mod, whole]

end bytes

section frame

variable (o : Output) (frame : Frame) (io : FrameIo)

private theorem sequence_tsFrameWriteRtp :
    (tsFrameWriteRtp o frame io).output.rtpSequenceNumber = (o.rtpSequenceNumber + 1) % 2 ^ 16 ∧
      (tsFrameWriteRtp o frame io).output.rtpSsrc = o.rtpSsrc := by
  simp only [tsFrameWriteRtp]
  refine ⟨trivial, ?_⟩
  split_ifs
  all_goals rfl

/-- The header that is meant. -/
def rtpFields (sequenceNumber time ssrc : ℕ) : Header where
  version := 2
  padding := 0
  extension := 0
  csrcCount := 0
  marker := 0
  payloadType := 33
  sequenceNumber
  timestamp := ticks time % 2 ^ 32
  ssrc

theorem length_rtpHeader (time : ℕ) : (rtpHeader o time).length = 12 := by
  simp only [rtpHeader, List.length_append, List.length_cons, List.length_nil, length_bigEndian]

private theorem length_datagram (seven : frame.length = 7) :
    (tsFrameWriteRtp o frame io).datagram.length = 1328 := by
  have payload := length_bytesOf frame
  simp only [tsFrameWriteRtp, List.length_append, length_rtpHeader]
  omega

private theorem decode_datagram (sequence : o.rtpSequenceNumber < 2 ^ 16)
    (source : o.rtpSsrc < 2 ^ 32) :
    decode (tsFrameWriteRtp o frame io).datagram =
      some (rtpFields o.rtpSequenceNumber io.time o.rtpSsrc, bytesOf frame) := by
  have fields := decode_fields 0x80 33 (length_bigEndian 2 o.rtpSequenceNumber)
    (length_bigEndian 4 (timestampValue io.time)) (length_bigEndian 4 o.rtpSsrc) (bytesOf frame)
  have first : number (bigEndian 2 o.rtpSequenceNumber) = o.rtpSequenceNumber := by
    rw [number_bigEndian]
    exact Nat.mod_eq_of_lt sequence
  have clock : number (bigEndian 4 (timestampValue io.time)) = ticks io.time % 2 ^ 32 := by
    rw [number_bigEndian, timestampValue_eq]
    exact Nat.mod_mod _ _
  have last : number (bigEndian 4 o.rtpSsrc) = o.rtpSsrc := by
    rw [number_bigEndian]
    exact Nat.mod_eq_of_lt source
  rw [first, clock, last] at fields
  simp only [tsFrameWriteRtp, rtpHeader, List.append_assoc, List.cons_append, List.nil_append]
  exact fields

end frame

section reader

variable {w : Reader}

private theorem readMore_rtp (rtp : w.mode = some .rtp) (finished : w.readen ≤ w.i)
    {header : List UInt8}
    {payload : List UInt8} (twelve : header.length = 12) (whole : payload.length = 1316) :
    (readMore w (header ++ payload)).readen = 1316 ∧
      (List.range 1316).map (fun j => ((readMore w (header ++ payload)).buffer (12 + j)).byte) =
        payload := by
  have length : (header ++ payload).length = 1328 := by
    rw [List.length_append]
    omega
  have asked : (header ++ payload).take ReadMode.rtp.requested = header ++ payload := by
    apply List.take_of_length_le
    rw [length]
    exact le_refl _
  have idle : ¬ w.i < w.readen := not_lt.mpr finished
  simp only [readMore, rtp, if_neg idle, asked]
  refine ⟨by rw [length]; rfl, ?_⟩
  apply List.ext_getElem
  · rw [List.length_map, List.length_range, whole]
  · intro j before _
    rw [List.length_map, List.length_range] at before
    have start : ReadMode.rtp.offset = 0 := rfl
    have inside : ReadMode.rtp.offset ≤ 12 + j ∧
        12 + j - ReadMode.rtp.offset < (header ++ payload).length := by omega
    have place : 12 + j - ReadMode.rtp.offset - header.length = j := by omega
    have behind : header.length ≤ 12 + j - ReadMode.rtp.offset := by omega
    rw [List.getElem_map, List.getElem_range, fdread, dif_pos inside]
    simp only [List.get_eq_getElem, List.getElem_append_right behind, place]

end reader

section run

private theorem sequence_run {o : Output} (small : o.rtpSequenceNumber < 2 ^ 16)
    (frames : List (Frame × FrameIo)) :
    (run rtpStep o frames).2.rtpSequenceNumber = (o.rtpSequenceNumber + frames.length) % 2 ^ 16 ∧
      (run rtpStep o frames).2.rtpSsrc = o.rtpSsrc := by
  induction frames generalizing o with
  | nil => exact ⟨(Nat.mod_eq_of_lt small).symm, rfl⟩
  | cons x rest ih =>
      obtain ⟨next, source⟩ := sequence_tsFrameWriteRtp o x.1 x.2
      have below : (rtpStep o x).2.rtpSequenceNumber < 2 ^ 16 := by
        rw [rtpStep, next]
        exact Nat.mod_lt _ (by norm_num)
      obtain ⟨count, kept⟩ := ih below
      rw [run]
      refine ⟨count.trans ?_, kept.trans source⟩
      rw [rtpStep, next, List.length_cons, Nat.mod_add_mod]
      congr 1
      omega

variable (conf : Config) (ofd : Bool) (rtpSsrc : UInt32) {frames : List (Frame × FrameIo)} {k : ℕ}
  {x : Frame × FrameIo}

private theorem datagram_of_run (found : frames[k]? = some x) :
    ∃ o : Output, o.rtpSequenceNumber = (1 + k) % 2 ^ 16 ∧ o.rtpSsrc = rtpSsrc.toNat ∧
      (rtpRun (outputLoaded conf ofd rtpSsrc) frames)[k]? =
        some (tsFrameWriteRtp o x.1 x.2).datagram := by
  have start : (outputLoaded conf ofd rtpSsrc).rtpSequenceNumber < 2 ^ 16 := by
    show 1 < 2 ^ 16
    norm_num
  obtain ⟨count, source⟩ := sequence_run start (frames.take k)
  have before : (frames.take k).length = k := by
    obtain ⟨inside, -⟩ := List.getElem?_eq_some_iff.mp found
    rw [List.length_take]
    omega
  rw [before] at count
  refine ⟨_, count, source, ?_⟩
  rw [rtpRun, getElem?_run, found]
  rfl

private theorem decode_of_run (found : frames[k]? = some x) {datagram : List UInt8}
    (sent : (rtpRun (outputLoaded conf ofd rtpSsrc) frames)[k]? = some datagram) :
    decode datagram =
      some (rtpFields ((1 + k) % 2 ^ 16) x.2.time rtpSsrc.toNat, bytesOf x.1) := by
  obtain ⟨o, sequence, source, written⟩ := datagram_of_run conf ofd rtpSsrc found
  rw [sent] at written
  obtain rfl := Option.some.inj written
  have small : o.rtpSequenceNumber < 2 ^ 16 := by
    rw [sequence]
    exact Nat.mod_lt _ (by norm_num)
  have below : o.rtpSsrc < 2 ^ 32 := by
    rw [source]
    exact rtpSsrc.toNat_lt
  rw [decode_datagram o x.1 x.2 small below, sequence, source]

end run

section writer

variable (ts : TsFuncs) (conf : Config)

/-- What the inner loop of `output_handle_write` gives to the socket. -/
def datagramsWritten (o : Output) : List (Frame × FrameIo) → List (List UInt8)
  | [] => []
  | x :: rest =>
      (handleFrame ts conf o x.1 x.2).datagram ::
        datagramsWritten (handleFrame ts conf o x.1 x.2).output rest

/-- With a source number the writer's datagrams are a run of `ts_frame_write_rtp` over the frames
it has processed. -/
theorem datagramsWritten_eq_rtpRun {o s : Output} (rtp : o.rtpSsrc ≠ 0)
    (sequence : s.rtpSequenceNumber = o.rtpSequenceNumber) (source : s.rtpSsrc = o.rtpSsrc)
    (frames : List (Frame × FrameIo)) :
    datagramsWritten ts conf o frames =
      rtpRun s ((framesWritten ts conf o frames).zip (frames.map Prod.snd)) := by
  induction frames generalizing o s with
  | nil => rfl
  | cons x rest ih =>
      have processed : (tsFrameProcess ts conf o 0 x.1).2.rtpSsrc ≠ 0 := by
        rwa [rtpSsrc_tsFrameProcess]
      have choice : handleFrame ts conf o x.1 x.2 =
          tsFrameWriteRtp (tsFrameProcess ts conf o 0 x.1).2 (tsFrameProcess ts conf o 0 x.1).1
            x.2 := if_pos processed
      obtain ⟨next, kept⟩ := sequence_tsFrameWriteRtp (tsFrameProcess ts conf o 0 x.1).2
        (tsFrameProcess ts conf o 0 x.1).1 x.2
      obtain ⟨next', kept'⟩ := sequence_tsFrameWriteRtp s (tsFrameProcess ts conf o 0 x.1).1 x.2
      have first : (handleFrame ts conf o x.1 x.2).datagram =
          (tsFrameWriteRtp s (tsFrameProcess ts conf o 0 x.1).1 x.2).datagram := by
        rw [choice]
        simp only [tsFrameWriteRtp, rtpHeader, rtpSequenceNumber_tsFrameProcess,
          rtpSsrc_tsFrameProcess, sequence, source]
      rw [datagramsWritten, framesWritten, List.map_cons, List.zip_cons_cons, rtpRun, run]
      refine congrArg₂ List.cons first (ih ?_ ?_ ?_)
      · rw [choice, kept]
        exact processed
      · rw [choice, next, rtpSequenceNumber_tsFrameProcess, rtpStep, next', sequence]
      · rw [choice, kept, rtpSsrc_tsFrameProcess, rtpStep, kept', source]

end writer

/-- In every run of `ts_frame_write_rtp` since the start, whatever the writes answer, the `k`-th
datagram has 1328 bytes with the header that is meant, and an RTP input that reads it has the frame
in `buf`. The timestamps of two datagrams differ by the ticks between them. -/
theorem datagrams_decode (conf : Config) (ofd : Bool) (rtpSsrc : UInt32)
    (frames : List (Frame × FrameIo)) (whole : ∀ x ∈ frames, x.1.length = 7) :
    (∀ k x, frames[k]? = some x →
      ∃ datagram, (rtpRun (outputLoaded conf ofd rtpSsrc) frames)[k]? = some datagram ∧
        datagram.length = 1328 ∧
        decode datagram =
          some (rtpFields ((1 + k) % 2 ^ 16) x.2.time rtpSsrc.toNat, bytesOf x.1) ∧
        (bytesOf x.1).length = 1316 ∧
        ∀ w : Reader, w.mode = some .rtp → w.readen ≤ w.i →
          (readMore w datagram).readen = 1316 ∧
            (List.range 1316).map (fun j => ((readMore w datagram).buffer (12 + j)).byte) =
              bytesOf x.1) ∧
      ∀ (j k : ℕ) (x y : Frame × FrameIo) (d e : List UInt8), frames[j]? = some x →
        frames[k]? = some y →
        (rtpRun (outputLoaded conf ofd rtpSsrc) frames)[j]? = some d →
        (rtpRun (outputLoaded conf ofd rtpSsrc) frames)[k]? = some e → x.2.time ≤ y.2.time →
        ∃ first second, decode d = some first ∧ decode e = some second ∧
          (second.1.timestamp + 2 ^ 32 - first.1.timestamp) % 2 ^ 32 =
            (ticks y.2.time - ticks x.2.time) % 2 ^ 32 ∧
          9 * (y.2.time - x.2.time) < 100 * (ticks y.2.time - ticks x.2.time + 1) ∧
          100 * (ticks y.2.time - ticks x.2.time) < 9 * (y.2.time - x.2.time) + 100 := by
  constructor
  · intro k x found
    have seven := whole x (List.mem_of_getElem? found)
    obtain ⟨o, -, -, sent⟩ := datagram_of_run conf ofd rtpSsrc found
    have payload : (bytesOf x.1).length = 1316 := by
      rw [length_bytesOf, seven]
    refine ⟨_, sent, length_datagram o x.1 x.2 seven, decode_of_run conf ofd rtpSsrc found sent,
      payload, ?_⟩
    intro w rtp finished
    exact readMore_rtp rtp finished (length_rtpHeader o x.2.time) payload
  · intro j k x y d e found found' sent sent' le
    exact ⟨_, _, decode_of_run conf ofd rtpSsrc found sent,
      decode_of_run conf ofd rtpSsrc found' sent', ticks_elapsed le⟩

/-- Two frames, the second of them not sent, when the clock of the header has gone round. -/
def wrapFrames : List (Frame × FrameIo) :=
  [(List.replicate 7 nullPacket, ⟨1328, 0, 0⟩), (List.replicate 7 nullPacket, ⟨-1, 0, 47721858845⟩)]

theorem datagrams_decode_wrap :
    ∃ datagram, (rtpRun (outputLoaded (sampleConfig 3) false 7) wrapFrames)[1]? = some datagram ∧
      datagram.length = 1328 ∧
      decode datagram =
        some (rtpFields 2 47721858845 7, bytesOf (List.replicate 7 nullPacket)) := by
  have whole : ∀ x ∈ wrapFrames, x.1.length = 7 := by simp [wrapFrames]
  obtain ⟨datagram, sent, length, decoded, -⟩ :=
    (datagrams_decode (sampleConfig 3) false 7 wrapFrames whole).1 1 _ rfl
  exact ⟨datagram, sent, length, decoded⟩

end Mptsd.Pipeline.Datagrams
