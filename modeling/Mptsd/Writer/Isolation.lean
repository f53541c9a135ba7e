/- Unit: Mptsd/Writer/Isolation
   source: src/output_write.c (ts_frame_process, output_handle_write)
   digest: What leaves on one PID depends on the packets of that PID only. -/

import Mptsd.Lib.Lockstep
import Mptsd.Writer.Restamp

set_option autoImplicit false
set_option relaxedAutoImplicit false

namespace Mptsd.Writer.Isolation

open Mptsd.TsPacket
open Mptsd.Conf (Config sampleConfig)
open Mptsd.Lib.Lockstep (run run_related forall₂_view)
open Mptsd.Sections (pcrPacket)
open Mptsd.Writer.Model
open Mptsd.Writer.Restamp

/-- A call of `ts_frame_process`: the frame, and the traffic counter it finds. -/
structure Call where
  traffic : ℕ
  frame : Frame

variable (ts : TsFuncs) (conf : Config)

def processCall (o : Output) (call : Call) : Frame × Output :=
  tsFrameProcess ts conf { o with traffic := call.traffic } 0 call.frame

/-- The frames as they leave, and the state after the last of them. -/
def processRun (o : Output) (calls : List Call) : List Frame × Output :=
  run (processCall ts conf) o calls

/-- A packet, if it is one of PID `x`. -/
def onPid (x : ℕ) (p : Packet) : Option Packet := if ts.getPid p = x then some p else none

/-- The packets of a frame on PID `x`, each in its place. -/
def seenOn (x : ℕ) (frame : Frame) : List (Option Packet) := frame.map (onPid ts x)

/-- The three table entries of a PID. -/
def entries (o : Output) (x : ℕ) : ℕ × ℕ × ℕ := (o.lastPcr x, o.lastOrgPcr x, o.lastTraffic x)

/-- Two states that PID `x` can't tell apart. -/
structure Agree (x : ℕ) (o o' : Output) : Prop where
  bitrate : o.outputBitrate = o'.outputBitrate
  traffic : o.traffic = o'.traffic
  entries : entries o x = entries o' x

section packet

variable {ts} {conf} {conf' : Config} {x : ℕ} {o o' : Output}

variable (ts) (conf) in
@[simp] theorem getPid_tsPacketProcess (o : Output) (i : ℕ) (p : Packet) :
    ts.getPid (tsPacketProcess ts conf o i p).1 = ts.getPid p := by
  have marked : ts.getPid (markNull ts p) = ts.getPid p := by
    rw [markNull]
    split
    · exact ts.getPid_update_three p _
    · rfl
  rw [tsPacketProcess]
  dsimp only
  split
  · dsimp only
    split
    · exact (ts.getPid_setPcr _ _).trans marked
    · exact marked
  · exact marked

private theorem entries_of_other (i : ℕ) {p : Packet} (other : ts.getPid p ≠ x) :
    entries (tsPacketProcess ts conf o i p).2 x = entries o x := by
  cases pcr : ts.hasPcr (markNull ts p) with
  | false =>
      obtain ⟨one, two, three⟩ := tables_of_noPcr ts conf o i p pcr x
      rw [entries, one, two, three, entries]
  | true =>
      obtain ⟨one, two, three⟩ := tables_of_pcr ts conf o i p pcr x
      rw [entries, one, two, three, if_neg other.symm, if_neg other.symm, if_neg other.symm,
        entries]

private theorem own_packet (agree : Agree x o o') (mode : conf.pcrMode = conf'.pcrMode) (i : ℕ)
    {p : Packet} (own : ts.getPid p = x) :
    (tsPacketProcess ts conf o i p).1 = (tsPacketProcess ts conf' o' i p).1 ∧
      entries (tsPacketProcess ts conf o i p).2 x =
        entries (tsPacketProcess ts conf' o' i p).2 x := by
  have same : o.lastPcr x = o'.lastPcr x ∧ o.lastOrgPcr x = o'.lastOrgPcr x ∧
      o.lastTraffic x = o'.lastTraffic x := by
    simpa only [entries, Prod.mk.injEq] using agree.entries
  subst own
  have new : ∀ pcr bytes, newPcr ts o (ts.getPid p) pcr bytes =
      newPcr ts o' (ts.getPid p) pcr bytes := by
    intro pcr bytes
    simp only [newPcr, same.1, same.2.1, same.2.2, agree.bitrate]
  cases pcr : ts.hasPcr (markNull ts p) with
  | false =>
      constructor
      · simp only [tsPacketProcess, pcr, Bool.false_eq_true, if_false]
      · obtain ⟨one, two, three⟩ := tables_of_noPcr ts conf o i p pcr (ts.getPid p)
        obtain ⟨one', two', three'⟩ := tables_of_noPcr ts conf' o' i p pcr (ts.getPid p)
        rw [entries, one, two, three, entries, one', two', three']
        exact agree.entries
  | true =>
      constructor
      · simp only [tsPacketProcess, pcr, if_true, same.1, same.2.1, mode, agree.traffic, new]
      · obtain ⟨one, two, three⟩ := tables_of_pcr ts conf o i p pcr (ts.getPid p)
        obtain ⟨one', two', three'⟩ := tables_of_pcr ts conf' o' i p pcr (ts.getPid p)
        rw [entries, one, two, three, entries, one', two', three']
        simp only [if_true, agree.traffic, new]

private theorem agree_tsPacketProcess (agree : Agree x o o') (mode : conf.pcrMode = conf'.pcrMode)
    (i : ℕ)
    {p p' : Packet} (same : onPid ts x p = onPid ts x p') :
    onPid ts x (tsPacketProcess ts conf o i p).1 = onPid ts x (tsPacketProcess ts conf' o' i p').1 ∧
      Agree x (tsPacketProcess ts conf o i p).2 (tsPacketProcess ts conf' o' i p').2 := by
  have bitrate : (tsPacketProcess ts conf o i p).2.outputBitrate =
      (tsPacketProcess ts conf' o' i p').2.outputBitrate := by
    rw [outputBitrate_tsPacketProcess, outputBitrate_tsPacketProcess]
    exact agree.bitrate
  have traffic : (tsPacketProcess ts conf o i p).2.traffic =
      (tsPacketProcess ts conf' o' i p').2.traffic := by
    rw [traffic_tsPacketProcess, traffic_tsPacketProcess]
    exact agree.traffic
  by_cases own : ts.getPid p = x
  · have equal : p = p' := by
      rw [onPid, if_pos own, onPid] at same
      split at same
      · exact Option.some.inj same
      · cases same
    subst equal
    obtain ⟨sent, kept⟩ := own_packet agree mode i own
    exact ⟨congrArg (onPid ts x) sent, bitrate, traffic, kept⟩
  · have other : ts.getPid p' ≠ x := by
      intro own'
      rw [onPid, if_neg own, onPid, if_pos own'] at same
      cases same
    refine ⟨?_, bitrate, traffic, ?_⟩
    · rw [onPid, onPid, getPid_tsPacketProcess, getPid_tsPacketProcess, if_neg own, if_neg other]
    · rw [entries_of_other i own, entries_of_other i other]
      exact agree.entries

end packet

/-- The loop of `ts_frame_process`, with the byte it has reached as part of the state. -/
def packetStep (s : Output × ℕ) (p : Packet) : Packet × Output × ℕ :=
  let one := tsPacketProcess ts conf s.1 s.2 p
  (one.1, one.2, s.2 + tsPacketSize)

private theorem tsFrameProcess_eq_run (o : Output) (i : ℕ) (frame : Frame) :
    tsFrameProcess ts conf o i frame =
      ((run (packetStep ts conf) (o, i) frame).1, (run (packetStep ts conf) (o, i) frame).2.1) := by
  induction frame generalizing o i with
  | nil => rfl
  | cons p rest ih =>
      rw [tsFrameProcess, ih]
      rfl

section run

variable {ts} {conf} {conf' : Config} {x : ℕ} {o o' : Output}

private theorem agree_tsFrameProcess (agree : Agree x o o') (mode : conf.pcrMode = conf'.pcrMode)
    (i : ℕ)
    {frame frame' : Frame} (same : seenOn ts x frame = seenOn ts x frame') :
    seenOn ts x (tsFrameProcess ts conf o i frame).1 =
        seenOn ts x (tsFrameProcess ts conf' o' i frame').1 ∧
      Agree x (tsFrameProcess ts conf o i frame).2 (tsFrameProcess ts conf' o' i frame').2 := by
  have keeps : ∀ (s s' : Output × ℕ) (p p' : Packet), Agree x s.1 s'.1 ∧ s.2 = s'.2 →
      onPid ts x p = onPid ts x p' →
      onPid ts x (packetStep ts conf s p).1 = onPid ts x (packetStep ts conf' s' p').1 ∧
        Agree x (packetStep ts conf s p).2.1 (packetStep ts conf' s' p').2.1 ∧
        (packetStep ts conf s p).2.2 = (packetStep ts conf' s' p').2.2 := by
    rintro ⟨s, i⟩ ⟨s', i'⟩ p p' ⟨agree, rfl⟩ same
    obtain ⟨sent, next⟩ := agree_tsPacketProcess agree mode i same
    exact ⟨sent, next, rfl⟩
  have both := run_related (packetStep ts conf) (packetStep ts conf')
    (R := fun s s' => Agree x s.1 s'.1 ∧ s.2 = s'.2) (O := fun p p' => onPid ts x p = onPid ts x p')
    keeps (s := (o, i)) (t := (o', i)) ⟨agree, rfl⟩ (forall₂_view.mpr same)
  rw [tsFrameProcess_eq_run, tsFrameProcess_eq_run]
  exact ⟨forall₂_view.mp both.1, both.2.1⟩

private theorem agree_processCall (bitrate : o.outputBitrate = o'.outputBitrate)
    (known : entries o x = entries o' x) (mode : conf.pcrMode = conf'.pcrMode) {c c' : Call}
    (traffic : c.traffic = c'.traffic) (seen : seenOn ts x c.frame = seenOn ts x c'.frame) :
    seenOn ts x (processCall ts conf o c).1 = seenOn ts x (processCall ts conf' o' c').1 ∧
      Agree x (processCall ts conf o c).2 (processCall ts conf' o' c').2 := by
  have start : Agree x { o with traffic := c.traffic } { o' with traffic := c'.traffic } :=
    ⟨bitrate, traffic, known⟩
  exact agree_tsFrameProcess start mode 0 seen

end run

section writer

variable {ts} {conf}

private theorem eq_of_seenOn {f f' : Frame} (same : ∀ x, seenOn ts x f = seenOn ts x f') :
    f = f' := by
  ext k p : 2
  have at_k : ∀ x, (f[k]?).map (onPid ts x) = (f'[k]?).map (onPid ts x) := by
    intro x
    have entry := congrArg (·[k]?) (same x)
    simpa only [seenOn, List.getElem?_map] using entry
  cases first : f[k]? with
  | none =>
      have missing := at_k 0
      rw [first, Option.map_none, eq_comm, Option.map_eq_none_iff] at missing
      rw [missing]
  | some q =>
      have own := at_k (ts.getPid q)
      rw [first, Option.map_some, onPid, if_pos rfl, eq_comm, Option.map_eq_some_iff] at own
      obtain ⟨q', second, seen⟩ := own
      rw [onPid] at seen
      split at seen
      · rw [second, Option.some.inj seen]
      · cases seen

private theorem frameWrite_tables (o : Output) (frame : Frame) (io : FrameIo) :
    (frameWrite o frame io).output.outputBitrate = o.outputBitrate ∧
      ∀ x, entries (frameWrite o frame io).output x = entries o x := by
  simp only [frameWrite, tsFrameWriteRtp, tsFrameWrite]
  split_ifs <;> exact ⟨rfl, fun _ => rfl⟩

variable (ts) (conf) in
/-- The calls that the inner loop of `output_handle_write` makes. -/
def callsOf (o : Output) : List (Frame × FrameIo) → List Call
  | [] => []
  | x :: rest => ⟨o.traffic, x.1⟩ :: callsOf (handleFrame ts conf o x.1 x.2).output rest

variable (ts) (conf) in
/-- The frames that it writes. -/
def framesWritten (o : Output) : List (Frame × FrameIo) → List Frame
  | [] => []
  | x :: rest =>
      (tsFrameProcess ts conf o 0 x.1).1 ::
        framesWritten (handleFrame ts conf o x.1 x.2).output rest

/-- The writer restamps as these calls do, whatever becomes of its writes. -/
theorem processRun_callsOf {o s : Output} (bitrate : s.outputBitrate = o.outputBitrate)
    (known : ∀ x, entries s x = entries o x) (written : ℤ) (frames : List (Frame × FrameIo)) :
    (processRun ts conf s (callsOf ts conf o frames)).1 = framesWritten ts conf o frames ∧
      ∀ x, entries (processRun ts conf s (callsOf ts conf o frames)).2 x =
        entries (handleFrames ts conf o written frames).2 x := by
  induction frames generalizing o s written with
  | nil => exact ⟨rfl, known⟩
  | cons y rest ih =>
      have call : ∀ x, seenOn ts x (processCall ts conf s ⟨o.traffic, y.1⟩).1 =
          seenOn ts x (tsFrameProcess ts conf o 0 y.1).1 ∧
          Agree x (processCall ts conf s ⟨o.traffic, y.1⟩).2
            (tsFrameProcess ts conf o 0 y.1).2 := by
        intro x
        have start : Agree x { s with traffic := o.traffic } o := ⟨bitrate, rfl, known x⟩
        exact agree_tsFrameProcess start rfl 0 rfl
      have processed := eq_of_seenOn fun x => (call x).1
      obtain ⟨rate, tables⟩ := frameWrite_tables (tsFrameProcess ts conf o 0 y.1).2
        (tsFrameProcess ts conf o 0 y.1).1 y.2
      obtain ⟨frames, kept⟩ := ih (o := (handleFrame ts conf o y.1 y.2).output)
        (s := (processCall ts conf s ⟨o.traffic, y.1⟩).2)
        ((call 0).2.bitrate.trans rate.symm) (fun x => (call x).2.entries.trans (tables x).symm)
        (written + (handleFrame ts conf o y.1 y.2).written)
      exact ⟨congrArg₂ List.cons processed frames, kept⟩

end writer

/-- Two runs of `ts_frame_process` that start with the same entries of PID `x`, the same bitrate and
the same mode, find the same traffic counters, and are given the same packets on `x` in the same
places, whatever the other packets are: what leaves on `x` is the same, and so are the entries of
`x` afterwards. -/
theorem undisturbed (conf' : Config) (mode : conf.pcrMode = conf'.pcrMode) (x : ℕ) (o o' : Output)
    (bitrate : o.outputBitrate = o'.outputBitrate) (known : entries o x = entries o' x)
    (calls calls' : List Call)
    (same : List.Forall₂ (fun c c' => c.traffic = c'.traffic ∧
      seenOn ts x c.frame = seenOn ts x c'.frame) calls calls') :
    (processRun ts conf o calls).1.map (seenOn ts x) =
        (processRun ts conf' o' calls').1.map (seenOn ts x) ∧
      entries (processRun ts conf o calls).2 x = entries (processRun ts conf' o' calls').2 x := by
  have keeps : ∀ (s s' : Output) (c c' : Call),
      s.outputBitrate = s'.outputBitrate ∧ entries s x = entries s' x →
      c.traffic = c'.traffic ∧ seenOn ts x c.frame = seenOn ts x c'.frame →
      seenOn ts x (processCall ts conf s c).1 = seenOn ts x (processCall ts conf' s' c').1 ∧
        (processCall ts conf s c).2.outputBitrate = (processCall ts conf' s' c').2.outputBitrate ∧
        entries (processCall ts conf s c).2 x = entries (processCall ts conf' s' c').2 x := by
    rintro s s' c c' ⟨bitrate, known⟩ ⟨traffic, seen⟩
    obtain ⟨sent, next⟩ := agree_processCall bitrate known mode traffic seen
    exact ⟨sent, next.bitrate, next.entries⟩
  obtain ⟨frames, -, kept⟩ := run_related (processCall ts conf) (processCall ts conf')
    (R := fun s s' => s.outputBitrate = s'.outputBitrate ∧ entries s x = entries s' x)
    (O := fun f f' => seenOn ts x f = seenOn ts x f') keeps ⟨bitrate, known⟩ same
  exact ⟨forall₂_view.mp frames, kept⟩

/-- The PCRs of PID `0x101` next to a malformed PCR of another channel, or to stuffing. -/
def sampleCalls (other : Packet) : List Call :=
  [⟨0, [pcrPacket 0x101 90000, other]⟩, ⟨1316, [other, pcrPacket 0x101 90010]⟩]

theorem undisturbed_by_malformed :
    (processRun headerFuncs (sampleConfig 3) (outputNew (sampleConfig 3) false 0)
          (sampleCalls (pcrPacket 0x102 (2 ^ 33 - 1)))).1.map (seenOn headerFuncs 0x101) =
        (processRun headerFuncs (sampleConfig 3) (outputNew (sampleConfig 3) false 0)
          (sampleCalls nullPacket)).1.map (seenOn headerFuncs 0x101) ∧
      entries (processRun headerFuncs (sampleConfig 3) (outputNew (sampleConfig 3) false 0)
          (sampleCalls (pcrPacket 0x102 (2 ^ 33 - 1)))).2 0x101 =
        entries (processRun headerFuncs (sampleConfig 3) (outputNew (sampleConfig 3) false 0)
          (sampleCalls nullPacket)).2 0x101 := by
  apply undisturbed headerFuncs (sampleConfig 3) (sampleConfig 3) rfl 0x101 _ _ rfl rfl _ _
  have other : onPid headerFuncs 0x101 (pcrPacket 0x102 (2 ^ 33 - 1)) =
      onPid headerFuncs 0x101 nullPacket := by
    rw [onPid, onPid, if_neg (by decide +kernel), if_neg (by decide +kernel)]
  simp only [sampleCalls, seenOn, List.map_cons, List.map_nil, other, List.forall₂_cons,
    and_self, List.Forall₂.nil]

end Mptsd.Writer.Isolation
