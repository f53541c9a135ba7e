/- Unit: Mptsd/Pipeline/SyncByte
   source: src/input.c (input_stream), src/network.c (mpeg_sync), src/output_mix.c
   (output_handle_mix), src/data.c (obuf_reset)
   digest: The first byte of every slot that is given to the network: nothing but the packets that
   are forwarded can bring in another one than the sync byte. -/

import Mptsd.Mixer.Gate
import Mptsd.Pipeline.Supply
import Mptsd.Psi.Refused

set_option autoImplicit false
set_option relaxedAutoImplicit false

namespace Mptsd.Pipeline.SyncByte

open Mptsd.TsPacket
open Mptsd.Channels (sampleChannel sampleChannel_made)
open Mptsd.Conf (Config)
open Mptsd.PidTable (pidrefChangePacketPid)
open Mptsd.PsiTables
open Mptsd.Psi.Model
open Mptsd.Intake.Model
open Mptsd.Intake.Frames
open Mptsd.Intake.StreamInvariant
open Mptsd.Intake.Effects
open Mptsd.Mixer.Gate (slowConfig)
open Mptsd.Psi.Refused (samplePsi sampleTimeFuncs)
open Mptsd.Sections
open Mptsd.Pipeline.Model
open Mptsd.Pipeline.Flow
open Mptsd.Pipeline.Supply

/-- The tables the TS library generates consist of packets with a sync byte. -/
structure GeneratesSync (lib : Libs) : Prop where
  pmt : ∀ t, ∀ p ∈ (lib.pmt.regenerate t).packets, p 0 = 0x47
  eit : ∀ t, ∀ p ∈ (lib.eit.regenerate t).packets, p 0 = 0x47

/-- The packets an input holds, stored or to be stored, start with a byte of this kind. -/
structure Starts (B : UInt8 → Prop) (r : Input) : Prop where
  stored : ∀ q ∈ r.buf.filled, B (q 0)
  pmt : ∀ M, r.stream.pmtRewritten = some M → ∀ q ∈ M.packets, B (q 0)
  eit : r.stream.eitRewritten = none

variable {lib : Libs} {conf : Config} {B : UInt8 → Prop} {r r' : Input} {p : Packet}

private theorem Starts.add (h : Starts B r) {data : List Packet} (starts : ∀ q ∈ data, B (q 0))
    (buf : bufView r' = bufView (inputBufferAdd lib r data)) : ∀ q ∈ r'.buf.filled, B (q 0) := by
  intro q stored
  rw [filled_congr buf, filled_inputBufferAdd] at stored
  split at stored
  · rcases List.mem_append.mp stored with old | new
    · exact h.stored q old
    · exact starts q new
  · exact h.stored q stored

private theorem Starts.keep (h : Starts B r) (buf : bufView r' = bufView r) :
    ∀ q ∈ r'.buf.filled, B (q 0) := by
  rw [filled_congr buf]
  exact h.stored

private theorem starts_setConts {cont : ℕ} {packets : List Packet}
    (starts : ∀ q ∈ packets, B (q 0)) :
    ∀ q ∈ setConts lib.toTsFuncs cont packets, B (q 0) := by
  intro q member
  obtain ⟨j, inside, rfl⟩ := List.mem_mapIdx.mp member
  rw [lib.sync_setCont]
  exact starts _ (List.getElem_mem inside)

section handlers

private theorem Starts.processPat (h : Starts B r) (pid : ℕ) (p : Packet) :
    Starts B (processPat lib r pid p).2.1 := by
  refine ⟨h.keep (bufView_processPat lib r pid p), ?_, ?_⟩
  · rw [pmtRewritten_processPat]
    exact h.pmt
  · exact (congrArg (fun v => v.2.1) (Intake.EitForward.eitView_processPat lib r pid p)).trans h.eit

private theorem Starts.emitPmt (h : Starts B r) : Starts B (emitPmt lib r) := by
  rcases emitPmt_cases lib r with same | ⟨M, rewritten, -, same⟩
  · rw [same]
    exact h
  · have starts := h.pmt M rewritten
    rw [same]
    refine ⟨?_, ?_, ?_⟩
    · exact h.add (starts_setConts starts)
        (bufView_inputBufferAdd_congr lib (bufView_onStream r _) _)
    · rw [stream_inputBufferAdd]
      rintro M' other
      obtain rfl := Option.some.inj other
      exact starts_setConts starts
    · rw [stream_inputBufferAdd]
      exact h.eit

private theorem Starts.inputRewritePmt (h : Starts B r) (generates : GeneratesSync lib)
    (sync : B 0x47) :
    Starts B (inputRewritePmt lib r) := by
  rw [Intake.Model.inputRewritePmt]
  split
  · exact h
  · refine ⟨h.stored, ?_, h.eit⟩
    rintro M same
    obtain rfl := Option.some.inj same
    intro q member
    rw [generates.pmt _ q member]
    exact sync

private theorem Starts.processPmt (h : Starts B r) (generates : GeneratesSync lib) (sync : B 0x47)
    (pid : ℕ) (p : Packet) : Starts B (processPmt lib r pid p).2 := by
  have noted : Starts B (pushLastPmt lib (r.setPmt (lib.pmt.push r.stream.pmt p)) p) :=
    ⟨h.stored, h.pmt, h.eit⟩
  rw [Intake.Model.processPmt]
  dsimp only
  split_ifs
  · exact h
  · exact ⟨h.stored, h.pmt, h.eit⟩
  · exact ⟨h.stored, h.pmt, h.eit⟩
  · exact noted.emitPmt
  · exact (noted.inputRewritePmt generates sync).emitPmt
  · exact noted

private theorem Starts.processEit (h : Starts B r) (generates : GeneratesSync lib) (sync : B 0x47)
    (conf : Config) (p : Packet) : Starts B (processEit lib conf r p).2 := by
  obtain ⟨pmt, eit⟩ := rewritten_processEit lib conf h.eit p
  refine ⟨?_, by rw [pmt]; exact h.pmt, eit⟩
  rcases processEit_effect lib conf p h.eit with ⟨buf, -⟩ | ⟨t, -, buf, -⟩
  · exact h.keep buf
  · refine h.add (starts_setConts fun q member => ?_) buf
    rw [generates.eit _ q member]
    exact sync

private theorem sync_changePid (ts : TsFuncs) (p : Packet) (pid : ℕ) (ref : PidTable.Pidref) :
    (pidrefChangePacketPid ts p pid ref).2 0 = p 0 := by
  unfold pidrefChangePacketPid
  dsimp only
  split
  · exact ts.sync_setPid p _
  · rfl

private theorem Starts.forwardPacket (h : Starts B r) (pid : ℕ) (p : Packet)
    (own : (notePcr lib r pid p).stream.inputPcr ≠ 0 → B (p 0)) :
    Starts B (forwardPacket lib r pid p) := by
  have noted : (notePcr lib r pid p).stream.pmtRewritten = r.stream.pmtRewritten ∧
      (notePcr lib r pid p).stream.eitRewritten = r.stream.eitRewritten := by
    obtain ⟨_, same⟩ := notePcr_frame lib r pid p
    rw [same]
    exact ⟨rfl, rfl⟩
  refine ⟨?_, ?_, ?_⟩
  · have effect := forwardPacket_effect lib r pid p
    split_ifs at effect with seen
    · refine h.add (fun q member => ?_) effect
      obtain rfl := List.mem_singleton.mp member
      rw [sync_changePid]
      exact own seen
    · exact h.keep effect
  · rw [forwardPacket_stream, noted.1]
    exact h.pmt
  · rw [forwardPacket_stream, noted.2]
    exact h.eit

end handlers

theorem Starts.inputPacket (h : Starts B r) (generates : GeneratesSync lib) (sync : B 0x47)
    (own : forwards lib r p → B (p 0)) : Starts B (inputPacket lib conf r p).2 := by
  cases alive : r.dienow with
  | true =>
      rw [inputPacket_of_dead alive]
      exact h
  | false =>
      by_cases pid : lib.getPid p = 0
      · rw [inputPacket_of_pat alive pid]
        exact h.processPat 0 p
      · have after := h.processPmt generates sync (lib.getPid p) p
        rw [inputPacket_of_other alive pid]
        dsimp only
        split_ifs with reconnect early eit dropped
        · exact after
        · exact after
        · exact after.processEit generates sync conf p
        · exact after
        · exact after.forwardPacket _ p fun seen =>
            own ⟨alive, pid, by omega, eit, by simpa using dropped, seen⟩

variable (lib conf B) in
/-- What an input may do with a packet: forward it only if it starts with such a byte. -/
def StartsOnly (_ : ℕ) (r : Input) : InputStep → Prop
  | .packet p => forwards lib r p → B (p 0)
  | _ => True

private theorem starts_law (generates : GeneratesSync lib) (sync : B 0x47) :
    InputLaw lib conf (StartsOnly lib B) (fun _ _ r => Starts B r) where
  start _ c ifd := ⟨(fun _ stored => nomatch stored), (fun _ rewritten => nomatch rewritten), rfl⟩
  visited := by
    intro _ _ r r' h visited
    refine ⟨?_, ?_, ?_⟩
    · rw [visited.filled]
      exact h.stored
    · rw [visited.stream]
      exact h.pmt
    · rw [visited.stream]
      exact h.eit
  step := by
    intro _ _ r e _ _ h other allowed
    cases e with
    | packet p => exact h.inputPacket generates sync allowed
    | reconnect => exact ⟨h.stored, (fun _ rewritten => nomatch rewritten), rfl⟩
    | take => exact absurd rfl other
    | stop => exact ⟨h.stored, h.pmt, h.eit⟩

/-- The PSI buffer holds packets with a sync byte only. -/
def Synced (b : Cbuf) : Prop := ∀ q ∈ b.filled, q 0 = 0x47

private theorem synced_law (tf : TimeFuncs lib.toTsFuncs) :
    PsiLaw lib tf (fun _ => True) (fun _ b => Synced b) where
  read := by
    intro o b h q stored
    rw [filled_cbufGet] at stored
    exact h q stored
  call := by
    intro o b call h _ q stored
    cases psiCall_called lib tf o b call with
    | idle _ _ buf =>
        rw [buf] at stored
        exact h q stored
    | added t _ _ buf =>
        rw [buf] at stored
        rcases filled_cbufFill lib b (setConts lib.toTsFuncs (o.cont call.generator) t.packets) with
          pushed | same
        · rw [pushed] at stored
          rcases List.mem_append.mp stored with old | new
          · exact h q old
          · exact starts_setConts (B := fun byte => byte = 0x47) t.sync q new
        · rw [same] at stored
          exact h q stored

section run

variable {tf : TimeFuncs lib.toTsFuncs} {lineup : Lineup} {psi : PsiOutput lib.toTsFuncs}
  {ifd ofd : Bool} {rtpSsrc : ℕ}

private theorem starts_sent (generates : GeneratesSync lib) (sync : B 0x47)
    {steps : List (WorldStep lib)}
    (all : AllMeet conf tf lineup psi ifd ofd rtpSsrc (Permits (StartsOnly lib B)) steps)
    {frame : Frame} (written : frame ∈ (worldAfter conf tf lineup psi ifd ofd rtpSsrc steps).sent)
    {q : Packet} (member : q ∈ frame) : B (q 0) := by
  have flows : Flows conf (worldAfter conf tf lineup psi ifd ofd rtpSsrc steps) := flows_after steps
  obtain ⟨p, kin, origin⟩ := flows.mem_sent written member
  rw [kin.sync]
  rcases origin with rfl | ⟨o, b, found, taken⟩
  · exact sync
  · have stored : p ∈ b.filled := List.mem_append_left _ taken
    cases o with
    | psi =>
        obtain rfl := Option.some.inj found
        have synced : Synced (worldAfter conf tf lineup psi ifd ofd rtpSsrc steps).mix.psibuf :=
          psi_after (synced_law tf) (fun _ stored => nomatch stored) fun _ _ _ _ _ => trivial
        rw [synced p stored]
        exact sync
    | input i =>
        obtain ⟨r, at_i, rfl⟩ := Option.map_eq_some_iff.mp found
        obtain ⟨c, -, starts⟩ := (each_after (starts_law generates sync) all).exists_channel at_i
        exact starts.stored p stored

end run

/-- The packet is forwarded by input `i` in this state. -/
def Forwarded (s : World lib) (i : ℕ) (p : Packet) : Prop :=
  ∃ r, s.mix.inputs[i]? = some r ∧ forwards lib r p

/-- In every run of all threads, every slot of every frame that is given to the network starts with
the sync byte, or with the first byte of a packet that an input has forwarded. -/
theorem slot_starts_sync_or_forwarded (lib : Libs) (conf : Config) (tf : TimeFuncs lib.toTsFuncs)
    (lineup : Lineup) (psi : PsiOutput lib.toTsFuncs) (ifd ofd : Bool) (rtpSsrc : ℕ)
    (generates : GeneratesSync lib) (steps : List (WorldStep lib)) :
    ∀ frame ∈ (worldAfter conf tf lineup psi ifd ofd rtpSsrc steps).sent, ∀ q ∈ frame,
      q 0 = 0x47 ∨ ∃ front i p, front ++ [.packet i p] <+: steps ∧
        Forwarded (worldAfter conf tf lineup psi ifd ofd rtpSsrc front) i p ∧ q 0 = p 0 := by
  intro frame written q member
  refine starts_sent (B := fun byte => byte = 0x47 ∨ ∃ front i p,
    front ++ [.packet i p] <+: steps ∧
      Forwarded (worldAfter conf tf lineup psi ifd ofd rtpSsrc front) i p ∧ byte = p 0)
    generates (Or.inl rfl) ?_ written member
  intro front step part i e r event found
  cases step with
  | packet j p =>
      obtain ⟨rfl, rfl⟩ := Prod.mk.inj (Option.some.inj event)
      exact fun on => Or.inr ⟨front, j, p, part, ⟨r, found, on⟩, rfl⟩
  | reconnect j =>
      obtain ⟨-, rfl⟩ := Prod.mk.inj (Option.some.inj event)
      trivial
  | stop j =>
      obtain ⟨-, rfl⟩ := Prod.mk.inj (Option.some.inj event)
      trivial
  | psi call => cases event
  | mix => cases event
  | write stats io => cases event

private theorem sync_sectionPackets {pid : ℕ} {bytes : List ℕ} {p : Packet}
    (member : p ∈ sectionPackets pid bytes) : p 0 = 0x47 := by
  rw [sectionPackets] at member
  split at member
  · cases member
  · obtain ⟨j, -, rfl⟩ := List.mem_map.mp member
    rfl

private theorem generatesSync_sectionLibs : GeneratesSync sectionLibs where
  pmt t p member := by
    simp only [sectionLibs, regeneratePmt] at member
    split at member
    · cases member
    · exact sync_sectionPackets member
  eit t p member := by
    simp only [sectionLibs, regenerateEit] at member
    split at member
    · cases member
    · exact sync_sectionPackets member

/-- One channel. -/
def oneChannel (eitMode : ℤ) : Lineup where
  channels := [sampleChannel 1 eitMode]
  made c member := by
    obtain rfl := List.mem_singleton.mp member
    exact sampleChannel_made (by norm_num) (by norm_num) eitMode
  low c member := by
    obtain rfl := List.mem_singleton.mp member
    show 1 < 32
    norm_num

/-- A PAT, a PMT, the first PCR, and a packet of the video that has lost its first byte. -/
def corruptSteps : List (WorldStep sectionLibs) :=
  (patPackets [⟨1, 0x100⟩] ++ pmtPackets 0x100 1 0x101 [0x101, 0x102] ++
    [pcrPacket 0x101 1, Function.update (payloadPacket 0x102) 0 0x00]).map (.packet 0) ++
  List.replicate 13 .mix ++ List.replicate 28 (.write false ⟨1316, 0, 0⟩)

/-- All threads after these steps, with one channel and nothing on the PSI side. -/
def corruptWorld : World sectionLibs :=
  worldAfter slowConfig sampleTimeFuncs (oneChannel 0) samplePsi false false 0 corruptSteps

theorem slot_starts_corrupt :
    corruptWorld.sent.length = 13 ∧ ∀ frame ∈ corruptWorld.sent, ∀ q ∈ frame,
      q 0 = 0x47 ∨ ∃ front i p, front ++ [.packet i p] <+: corruptSteps ∧
        Forwarded
          (worldAfter slowConfig sampleTimeFuncs (oneChannel 0) samplePsi false false 0 front) i p ∧
          q 0 = p 0 :=
  ⟨by decide +kernel, slot_starts_sync_or_forwarded sectionLibs slowConfig sampleTimeFuncs
    (oneChannel 0) samplePsi false false 0 generatesSync_sectionLibs corruptSteps⟩

/-- The packet without its first byte is given to the network as it came. -/
theorem slot_without_sync :
    GeneratesSync sectionLibs ∧ ∃ frame ∈ corruptWorld.sent, ∃ q ∈ frame, q 0 ≠ 0x47 := by
  have zero : 0x00 ∈ corruptWorld.sent.flatten.map (fun q => q 0) := by decide +kernel
  obtain ⟨q, member, byte⟩ := List.mem_map.mp zero
  obtain ⟨frame, written, inside⟩ := List.mem_flatten.mp member
  exact ⟨generatesSync_sectionLibs, frame, written, q, inside, by rw [byte]; decide⟩

end Mptsd.Pipeline.SyncByte
