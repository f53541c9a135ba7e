/- Unit: Mptsd/Pipeline/Provenance
   source: src/input.c, src/output_psi.c, src/output_mix.c, src/output_write.c
   digest: Where the packets that are given to the network come from. -/

import Mptsd.Intake.Origins
import Mptsd.Pipeline.Threads

set_option autoImplicit false
set_option relaxedAutoImplicit false

namespace Mptsd.Pipeline.Provenance

open Mptsd.Channels (Channel)
open Mptsd.Conf (Config)
open Mptsd.Handoff.Sending (Kin)
open Mptsd.Intake.Model
open Mptsd.Intake.Origins
open Mptsd.Intake.Steps
open Mptsd.Intake.Stored (Stocked)
open Mptsd.Mixer.Gate (slowConfig)
open Mptsd.Pipeline.Flow
open Mptsd.Pipeline.Model
open Mptsd.Pipeline.Supply
open Mptsd.Pipeline.Threads
open Mptsd.Psi.Model
open Mptsd.Psi.Refused (sampleTimeFuncs samplePsi)
open Mptsd.PsiTables
open Mptsd.Sections (sectionLibs)
open Mptsd.TsPacket (Packet nullPid)

section comes

variable {lib : Libs} {conf : Config}

/-- The packets an input works on are these. -/
def Receives (received : ℕ → List Packet) (i : ℕ) (_ : Input) (e : InputStep) : Prop :=
  ∀ p, e = .packet p → p ∈ received i

private theorem traced_law (lib : Libs) (conf : Config) (received : ℕ → List Packet) :
    InputLaw lib conf (Receives received) fun i c r => Traced lib conf c (received i) r where
  start i c ifd := by
    refine ⟨(stocked_law lib conf).start i c ifd, rfl, ?_, ?_, ?_⟩
    · exact ⟨gathered_alloc, gathered_alloc, gathered_alloc⟩
    · rintro M ⟨⟩
    · rintro q ⟨⟩
  visited := by
    intro i c r r' h visited
    refine ⟨(stocked_law lib conf).visited (i := i) h.stocked visited, ?_, ?_, ?_, ?_⟩
    · rw [visited.channel]
      exact h.serviceId
    · exact h.collects.congr (by rw [visited.stream]) (by rw [visited.stream])
    · rw [PmtMade, visited.stream]
      exact h.pmt
    · rw [visited.filled]
      exact h.stored
  step := by
    intro i c r e made low h other receives
    have stocked : Stocked lib c (inputStep lib conf r e) := h.stocked.inputStep made low e
    cases e with
    | packet p => exact h.inputPacket made low (receives p rfl)
    | reconnect =>
        refine ⟨stocked, ?_, ?_, ?_, h.stored⟩
        · exact (Channels.chansrcNext_frame r.channel).2.2.1.trans h.serviceId
        · exact ⟨gathered_alloc, gathered_alloc, gathered_alloc⟩
        · rintro M ⟨⟩
    | take => exact absurd rfl other
    | stop => exact ⟨stocked, h.serviceId, h.collects.congr rfl rfl, h.pmt, h.stored⟩

private theorem handed_law (lib : Libs) (tf : TimeFuncs lib.toTsFuncs) :
    PsiLaw lib tf (fun _ => True) fun o b => ∀ q ∈ b.filled, q ∈ o.fed.flatten where
  read := by
    intro o b h q stored
    rw [filled_cbufGet] at stored
    exact h q stored
  call := by
    intro o b call h _ q stored
    cases psiCall_called lib tf o b call with
    | idle fed _ buf =>
        rw [buf] at stored
        rw [fed]
        exact h q stored
    | added t fed _ buf =>
        rw [buf] at stored
        rw [fed, List.flatten_append, List.flatten_singleton, List.mem_append]
        rcases filled_cbufFill lib b (setConts lib.toTsFuncs (o.cont call.generator) t.packets) with
          pushed | same
        · rw [pushed] at stored
          exact (List.mem_append.mp stored).imp_left (h q)
        · rw [same] at stored
          exact .inl (h q stored)

end comes

section run

variable {lib : Libs} {conf : Config} {tf : TimeFuncs lib.toTsFuncs} {lineup : Lineup}
  {psi : PsiOutput lib.toTsFuncs} {ifd ofd : Bool} {rtpSsrc : ℕ}

private theorem receives_steps (steps : List (WorldStep lib)) :
    AllMeet conf tf lineup psi ifd ofd rtpSsrc
      (Permits (Receives fun i => (stepsOf i steps).filterMap packetOf)) steps := by
  rintro front step part i e r event - p rfl
  have member : step ∈ steps := part.subset (by simp)
  have taken : .packet p ∈ stepsOf i steps :=
    List.mem_filterMap.mpr ⟨step, member, by rw [event]; simp⟩
  exact List.mem_filterMap.mpr ⟨_, taken, rfl⟩

private theorem comes_sent (steps : List (WorldStep lib)) {frame : TsPacket.Frame}
    (written : frame ∈ (worldAfter conf tf lineup psi ifd ofd rtpSsrc steps).sent) {q : Packet}
    (member : q ∈ frame) (data : lib.getPid q ≠ nullPid) :
    ∃ p, Kin lib.toTsFuncs p q ∧
      (p ∈ (worldAfter conf tf lineup psi ifd ofd rtpSsrc steps).psi.fed.flatten ∨
        ∃ i c, lineup.channels[i]? = some c ∧
          Comes lib conf c ((stepsOf i steps).filterMap packetOf) p) := by
  have flows : Flows conf (worldAfter conf tf lineup psi ifd ofd rtpSsrc steps) := flows_after steps
  obtain ⟨p, kin, origin⟩ := flows.mem_sent written member
  refine ⟨p, kin, ?_⟩
  rcases origin with rfl | ⟨o, b, found, taken⟩
  · exact absurd (kin.pid.trans lib.getPid_nullPacket) data
  · have stored : p ∈ b.filled := List.mem_append_left _ taken
    cases o with
    | psi =>
        obtain rfl := Option.some.inj found
        exact .inl (psi_after (handed_law lib tf) (fun _ stored => nomatch stored)
          (fun _ _ _ _ _ => trivial) p stored)
    | input i =>
        obtain ⟨r, at_i, rfl⟩ := Option.map_eq_some_iff.mp found
        obtain ⟨c, there, traced⟩ :=
          (each_after (traced_law lib conf _) (receives_steps steps)).exists_channel at_i
        exact .inr ⟨i, c, there, traced.stored p stored⟩

end run

variable {lib : Libs} (conf : Config) (tf : TimeFuncs lib.toTsFuncs) (lineup : Lineup)
  (psi : PsiOutput lib.toTsFuncs) (ifd ofd : Bool) (rtpSsrc : ℕ)

/-- Nothing is invented. As long as no input has ended, in every interleaving of all threads each
packet given to the network is stuffing, or was handed on by the PSI thread, or comes from an input:
its thread has read the packet itself, or the packet under another PID, or it belongs to a PMT or
EIT that its thread has read and the input rewritten. On the way to the network only its PCR is
changed. -/
theorem nothing_invented (inWorktime : Channel → Bool) (turns : List (Turn lib)) (s : Program lib)
    (run : programAfter conf tf lineup psi ifd ofd rtpSsrc inWorktime turns = some s) :
    ∀ frame ∈ s.world.sent, ∀ q ∈ frame, lib.getPid q ≠ nullPid →
      ∃ p, Kin lib.toTsFuncs p q ∧ (p ∈ s.world.psi.fed.flatten ∨
        ∃ i c, lineup.channels[i]? = some c ∧ Comes lib conf c (offeredTo i turns) p) := by
  intro frame written q member data
  obtain ⟨steps, follows⟩ : ∃ steps, Matches conf tf lineup psi ifd ofd rtpSsrc turns s steps :=
    exists_matches inWorktime turns run
  rw [← sent_unsourcedWorld, follows.world, sent_unsourcedWorld] at written
  rw [← psi_unsourcedWorld, follows.world, psi_unsourcedWorld]
  obtain ⟨p, kin, origin⟩ := comes_sent steps written member data
  refine ⟨p, kin, origin.imp_right ?_⟩
  rintro ⟨i, c, there, comes⟩
  refine ⟨i, c, there, comes.mono ?_⟩
  have worker := List.getElem?_eq_getElem
    (follows.length ▸ (List.getElem?_eq_some_iff.mp there).1)
  exact ((List.sublist_append_left _ _).trans (follows.packets i _ worker)).subset

/-- The PAT, and the PMT, the PCR and the payload of the channel on their new PIDs. -/
theorem nothing_invented_sample :
    (sampleProgram.world.sent.flatten.map sectionLibs.getPid).filter (· ≠ nullPid) =
        [0, 32, 33, 34] ∧
      ∀ frame ∈ sampleProgram.world.sent, ∀ q ∈ frame, sectionLibs.getPid q ≠ nullPid →
        ∃ p, Kin sectionLibs.toTsFuncs p q ∧ (p ∈ sampleProgram.world.psi.fed.flatten ∨
          ∃ i c, rtpLineup.channels[i]? = some c ∧
            Comes sectionLibs slowConfig c (offeredTo i sampleTurns) p) :=
  ⟨by decide +kernel, nothing_invented slowConfig sampleTimeFuncs rtpLineup samplePsi false false 0
    (fun _ => true) sampleTurns sampleProgram (Option.some_get _).symm⟩

end Mptsd.Pipeline.Provenance
