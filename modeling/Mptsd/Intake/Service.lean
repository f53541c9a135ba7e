/- Unit: Mptsd/Intake/Service
   source: src/output_psi.c (output_psi_init_pat, output_psi_init_sdt), src/input.c
   (input_process_pat, input_rewrite_pat, input_rewrite_pmt)
   digest: The service the output tables announce for a channel, and the rewritten PMT that has to
   carry it. -/

import Mptsd.Intake.Guard
import Mptsd.Intake.Window

set_option autoImplicit false
set_option relaxedAutoImplicit false

namespace Mptsd.Intake.Service

open Mptsd.TsPacket (Packet)
open Mptsd.Channels (Channel Made chansrcNext sampleChannel sampleChannel_made chansrcNext_frame)
open Mptsd.Conf (Config sampleConfig)
open Mptsd.Lib.Counter (cyclicRun_succ)
open Mptsd.PidTable
open Mptsd.PsiTables
open Mptsd.Sections (sectionLibs patPackets pmtPackets)
open Mptsd.Intake.Model
open Mptsd.Intake.Rewrite
open Mptsd.Intake.Announce (uint16_lt uint16_basePid)
open Mptsd.Intake.EitForward (eitView_processPmt)
open Mptsd.Intake.StreamInvariant
open Mptsd.Intake.Effects
open Mptsd.Intake.Guard
open Mptsd.Intake.Window (inputAfter inputAfter_concat sound_after)

/-- The programs of the output PAT. -/
def outputPsiInitPat (channels : List Channel) : List TsPatProgram :=
  channels.map fun c => ⟨uint16 c.serviceId, uint16 c.pmtPid⟩

/-- What `ts_sdt_add_service_descriptor` is told about a service, less the provider. -/
structure SdtService where
  serviceId : ℕ
  video : Bool
  name : String

/-- The services of the SDT. -/
def outputPsiInitSdt (channels : List Channel) : List SdtService :=
  channels.map fun c => ⟨uint16 c.serviceId, c.radio = 0, c.name⟩

private theorem lookup_head {num basePid pid : ℕ} {rest : List ℕ} (small : basePid < 2 ^ 16)
    (room : 0 < num) (ne : pid ≠ 0) :
    pidrefGetNewPid (assignPids (pidrefInit num basePid) (pid :: rest)).2 pid = basePid := by
  obtain ⟨num, rfl⟩ := Nat.exists_eq_succ_of_ne_zero room.ne'
  have first : requests basePid (pid :: rest) =
      ⟨pid, basePid⟩ :: requests (basePid + 1) rest := by
    simp [requests, cyclicRun_succ, ne]
    omega
  rw [(records_assigned (num + 1) (pid :: rest) small).getNewPid ne, first, List.take_succ_cons,
    List.find?_cons_of_pos (by simp)]
  rfl

variable {lib : Libs} {conf : Config} {base : ℕ} {r : Input} {s : InputStream} {p : Packet}

private theorem header_eq_base (h : Tracked lib base s) (small : base < 2 ^ 16) {M : TsPmt}
    (rewritten : s.pmtRewritten = some M)
    (nonzero : ∀ prg ∈ s.pat.programs, prg.program ≠ 0 → prg.pid ≠ 0) : M.headerPid = base := by
  obtain ⟨-, -, -, known, header, -⟩ := h.pmt M rewritten
  have first := (h.pmtPid known).2
  cases orgs : patOrgs s.pat.programs with
  | nil => simp [orgs] at first
  | cons pid rest =>
      have ne : pid ≠ 0 := by
        have member : pid ∈ patOrgs s.pat.programs := by simp [orgs]
        obtain ⟨prg, inside, rfl⟩ := List.mem_map.mp member
        obtain ⟨entry, program⟩ := List.mem_filter.mp inside
        exact nonzero prg entry (by simpa using program)
      obtain rfl : pid = s.pmtPid := by simpa [orgs, ne] using first
      rw [header, patTable, orgs]
      exact lookup_head small (by norm_num) ne

private theorem number_processPmt (pid : ℕ) {number : ℕ}
    (h : ∀ M, r.stream.pmtRewritten = some M → M.tsIdNumber = number)
    (service : uint16 r.channel.serviceId = number) :
    ∀ M, (processPmt lib r pid p).2.stream.pmtRewritten = some M → M.tsIdNumber = number := by
  have emitted : ∀ r' : Input, (∀ M, r'.stream.pmtRewritten = some M → M.tsIdNumber = number) →
      ∀ M, (emitPmt lib r').stream.pmtRewritten = some M → M.tsIdNumber = number := by
    intro r' before M rewritten
    have same := congrArg (fun v => v.2.1) (gateView_emitPmt lib r')
    simp only [gateView, rewritten, Option.map_some] at same
    obtain ⟨M', some, equal⟩ := Option.map_eq_some_iff.mp same.symm
    rw [← equal]
    exact before M' some
  rw [processPmt]
  dsimp only
  split_ifs with other incomplete changed complete again
  · exact h
  · exact h
  · exact h
  · exact emitted _ h
  · apply emitted
    intro M rewritten
    have fresh : (inputRewritePmt lib (pushLastPmt lib
        (r.setPmt (lib.pmt.push r.stream.pmt p)) p)).stream.pmtRewritten = some _ :=
      pmtRewritten_inputRewritePmt complete
    rw [fresh] at rewritten
    obtain rfl := Option.some.inj rewritten
    rw [lib.pmt_regenerate]
    exact service
  · exact h

private theorem number_inputPacket (clean : r.stream.eitRewritten = none) {number : ℕ}
    (h : ∀ M, r.stream.pmtRewritten = some M → M.tsIdNumber = number)
    (service : uint16 r.channel.serviceId = number) (p : Packet) :
    ∀ M, (inputPacket lib conf r p).2.stream.pmtRewritten = some M → M.tsIdNumber = number := by
  have transfer : ∀ r' r'' : Input, gateView r''.stream = gateView r'.stream →
      (∀ M, r'.stream.pmtRewritten = some M → M.tsIdNumber = number) →
      ∀ M, r''.stream.pmtRewritten = some M → M.tsIdNumber = number := by
    intro r' r'' view before M rewritten
    have same := congrArg (fun v => v.2.1) view
    simp only [gateView, rewritten, Option.map_some] at same
    obtain ⟨M', some, equal⟩ := Option.map_eq_some_iff.mp same.symm
    rw [← equal]
    exact before M' some
  cases alive : r.dienow with
  | true =>
      rw [inputPacket_of_dead alive]
      exact h
  | false =>
      by_cases pid : lib.getPid p = 0
      · rw [inputPacket_of_pat alive pid]
        exact transfer r _ (gateView_processPat lib r 0 p) h
      · have after : ∀ M, (processPmt lib r (lib.getPid p) p).2.stream.pmtRewritten = some M →
            M.tsIdNumber = number := number_processPmt (lib.getPid p) h service
        have clean' : (processPmt lib r (lib.getPid p) p).2.stream.eitRewritten = none :=
          (congrArg (fun v => v.2.1) (eitView_processPmt lib r (lib.getPid p) p)).trans clean
        rw [inputPacket_of_other alive pid]
        dsimp only
        split_ifs
        · exact after
        · exact after
        · exact transfer _ _ (gateView_processEit lib conf p clean') after
        · exact after
        · rw [forwardPacket_stream]
          rw [notePcr]
          split
          · exact after
          · exact after

section run

variable (lib conf) (name : String) (c : Channel) (ifd : Bool)

private theorem number_after (steps : List InputStep) :
    (inputAfter lib conf name c ifd steps).channel.serviceId = c.serviceId ∧
      ∀ M, (inputAfter lib conf name c ifd steps).stream.pmtRewritten = some M →
        M.tsIdNumber = uint16 c.serviceId := by
  induction steps using List.reverseRecOn with
  | nil =>
      refine ⟨rfl, ?_⟩
      intro M rewritten
      cases rewritten
  | append_singleton steps step ih =>
      obtain ⟨service, number⟩ := ih
      have clean := (sound_after lib conf name c ifd steps).1.tracked.eit
      rw [inputAfter_concat]
      cases step with
      | packet p =>
          refine ⟨?_, number_inputPacket clean number (by rw [service]) p⟩
          exact (congrArg Channel.serviceId (channel_inputPacket clean)).trans service
      | reconnect =>
          refine ⟨(chansrcNext_frame _).2.2.1.trans service, ?_⟩
          intro M rewritten
          cases rewritten
      | take => exact ⟨service, number⟩
      | stop => exact ⟨service, number⟩

variable {c}

/-- A rewritten PMT that carries what the output tables announce for the channel. -/
structure Carries (channels : List Channel) (c : Channel) (M : TsPmt) : Prop where
  complete : M.initialized = true
  pid : M.headerPid = c.pmtPid
  packets : ∀ q ∈ M.packets, lib.getPid q = c.pmtPid
  pat : (⟨M.tsIdNumber, M.headerPid⟩ : TsPatProgram) ∈ outputPsiInitPat channels
  sdt : ∃ service ∈ outputPsiInitSdt channels, service.serviceId = M.tsIdNumber ∧
    service.name = c.name

variable (c) in
private theorem guarded_after (steps : List InputStep) :
    Guarded lib (uint16 c.basePid) (inputAfter lib conf name c ifd steps).stream := by
  induction steps using List.reverseRecOn with
  | nil =>
      obtain ⟨sound, -⟩ := sound_after lib conf name c ifd []
      refine ⟨sound.tracked, sound.known, fun up => absurd rfl up, ?_⟩
      intro rewritten
      cases rewritten
  | append_singleton steps step ih =>
      obtain ⟨sound, -⟩ := sound_after lib conf name c ifd steps
      rw [inputAfter_concat]
      generalize inputAfter lib conf name c ifd steps = r at ih sound
      cases step with
      | packet p => exact (inputPacket_step conf ih p).guarded
      | reconnect =>
          have base : uint16 (chansrcNext r.channel).basePid = uint16 c.basePid := by
            rw [(chansrcNext_frame r.channel).2.1, sound.basePid]
          rw [← base]
          exact @guarded_reset lib { r with channel := chansrcNext r.channel }
      | take => exact ih
      | stop => exact ih

private theorem carries_after (made : Made c) (channels : List Channel) (announced : c ∈ channels)
    (steps : List InputStep)
    (nonzero : ∀ prg ∈ (inputAfter lib conf name c ifd steps).stream.pat.programs,
      prg.program ≠ 0 → prg.pid ≠ 0) {M : TsPmt}
    (rewritten : (inputAfter lib conf name c ifd steps).stream.pmtRewritten = some M) :
    Carries lib channels c M := by
  obtain ⟨sound, -⟩ := sound_after lib conf name c ifd steps
  obtain ⟨complete, -, -, -, -, packets⟩ := sound.tracked.pmt M rewritten
  have lt := made.index_lt
  have base := uint16_basePid made
  have pmtPid : c.pmtPid = 32 * c.index := made.pmtPid_eq.trans made.basePid_eq
  have announcedPid : uint16 c.pmtPid = c.pmtPid := by
    rw [made.pmtPid_eq, base, made.basePid_eq]
  have number := (number_after lib conf name c ifd steps).2 M rewritten
  have header : M.headerPid = c.pmtPid := by
    rw [header_eq_base sound.tracked (uint16_lt _) rewritten nonzero, base, pmtPid]
  refine ⟨complete, header, ?_, ?_, ?_⟩
  · intro q member
    rw [packets (by omega) q member, header]
  · rw [number, header, ← announcedPid]
    exact List.mem_map.mpr ⟨c, announced, by rw [announcedPid]⟩
  · exact ⟨_, List.mem_map.mpr ⟨c, announced, rfl⟩, number.symm, rfl⟩

/-- In every run of an input, when no program of its PAT has PID 0, the rewritten PMT carries what
the output PAT and the SDT announce for the channel; and a packet makes the input hand on nothing
but that PMT, a rewritten EIT, or the packet itself. -/
theorem carries_announced (lib : Libs) (conf : Config) (name : String) (c : Channel) (ifd : Bool)
    (made : Made c) (channels : List Channel) (announced : c ∈ channels) (steps : List InputStep)
    (nonzero : ∀ prg ∈ (inputAfter lib conf name c ifd steps).stream.pat.programs,
      prg.program ≠ 0 → prg.pid ≠ 0) :
    (∀ M, (inputAfter lib conf name c ifd steps).stream.pmtRewritten = some M →
      Carries lib channels c M) ∧
    ∀ before p, steps = before ++ [.packet p] →
      HandsTables lib conf (inputAfter lib conf name c ifd before)
          (inputAfter lib conf name c ifd steps) ∨
        HandsPacket lib (inputAfter lib conf name c ifd before)
          (inputAfter lib conf name c ifd steps) p := by
  refine ⟨?_, ?_⟩
  · intro M rewritten
    exact carries_after lib conf name ifd made channels announced steps nonzero rewritten
  · rintro before p rfl
    have effect := inputPacket_step conf (guarded_after lib conf name c ifd before) p
    rw [inputAfter_concat]
    rcases effect.hands with ⟨tables, -⟩ | ⟨packet, -⟩
    · exact Or.inl tables
    · exact Or.inr packet

/-- A PAT with the NIT, then two programs that share a PMT PID, and their PMT. -/
def sharedSteps : List InputStep :=
  (patPackets [⟨0, 0x10⟩, ⟨1, 0x100⟩, ⟨2, 0x100⟩] ++
    pmtPackets 0x100 1 0x101 [0x101, 0x102]).map InputStep.packet

end run

theorem carries_announced_shared :
    ((inputAfter sectionLibs (sampleConfig 0) "tv" (sampleChannel 1 0) false
        sharedSteps).stream.pmtRewritten.isSome = true) ∧
    ∀ M, (inputAfter sectionLibs (sampleConfig 0) "tv" (sampleChannel 1 0) false
        sharedSteps).stream.pmtRewritten = some M →
      Carries sectionLibs [sampleChannel 1 0] (sampleChannel 1 0) M :=
  ⟨by decide +kernel,
    (carries_announced sectionLibs (sampleConfig 0) "tv" (sampleChannel 1 0) false
      (sampleChannel_made (by norm_num) (by norm_num) 0) [sampleChannel 1 0]
      List.mem_cons_self sharedSteps (by decide +kernel)).1⟩

end Mptsd.Intake.Service
