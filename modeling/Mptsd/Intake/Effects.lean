/- Unit: Mptsd/Intake/Effects
   source: src/input.c (input_buffer_add and its callers in the loop of input_stream)
   digest: What one packet can put into the buffer of its input. -/

import Mptsd.Intake.EitForward
import Mptsd.Intake.StreamInvariant

set_option autoImplicit false
set_option relaxedAutoImplicit false

namespace Mptsd.Intake.Effects

open Mptsd.TsPacket (Packet tsPacketSize)
open Mptsd.Channels (Channel chansrcNext chansrcNext_frame)
open Mptsd.Conf (Config)
open Mptsd.Lib.Counter (cyclicRun cyclicRun_add)
open Mptsd.PidTable
open Mptsd.PsiTables
open Mptsd.Intake.Model
open Mptsd.Intake.Rewrite
open Mptsd.Intake.Frames
open Mptsd.Intake.EitForward
  (eitView_processPat eitView_processPmt eitView_forwardPacket eitView_emitEit dispatched
    inputPacket_dispatched eitView_inputPacket)
open Mptsd.Intake.StreamInvariant

/-- The part of an input that `input_buffer_add` works on. -/
def bufView (r : Input) : List (List Packet) × Cbuf × Bool × Bool :=
  (r.fed, r.buf, r.disabled, r.dienow)

/-- Whether `input_buffer_add` stores the data. -/
def takes (lib : Libs) (r : Input) (data : List Packet) : Prop :=
  r.dienow = false ∧ (r.disabled = true → (r.buf.stored : ℚ) / r.buf.size * 100 ≤ 50) ∧
    lib.cbufAccepts r.buf.size r.buf.stored (tsPacketSize * data.length) = true

instance (lib : Libs) (r : Input) (data : List Packet) : Decidable (takes lib r data) := by
  rw [takes]
  infer_instance

section Frame

variable (lib : Libs) (conf : Config) {r r' : Input}

theorem filled_inputBufferAdd (r : Input) (data : List Packet) :
    (inputBufferAdd lib r data).buf.filled =
      if takes lib r data then r.buf.filled ++ data else r.buf.filled := by
  rw [inputBufferAdd]
  dsimp only
  by_cases dead : r.dienow = true
  · simp [dead, takes]
  · by_cases full : r.disabled = true ∧ ¬ (r.buf.stored : ℚ) / r.buf.size * 100 ≤ 50
    · simp [dead, full, takes]
    · have half : r.disabled = true → (r.buf.stored : ℚ) / r.buf.size * 100 ≤ 50 := by
        intro disabled
        by_contra more
        exact full ⟨disabled, more⟩
      rw [if_neg dead, if_neg full]
      by_cases accepted : lib.cbufAccepts r.buf.size r.buf.stored
          (tsPacketSize * data.length) = true
      · have taken : takes lib r data := ⟨by simpa using dead, half, accepted⟩
        rw [if_pos taken]
        simp [cbufFill, accepted]
      · simp [cbufFill, accepted, takes]

theorem filled_congr (same : bufView r = bufView r') : r.buf.filled = r'.buf.filled :=
  congrArg (fun v => v.2.1.filled) same

theorem bufView_inputBufferAdd_congr (same : bufView r = bufView r') (data : List Packet) :
    bufView (inputBufferAdd lib r data) = bufView (inputBufferAdd lib r' data) := by
  simp only [bufView, Prod.mk.injEq] at same
  obtain ⟨fed, buf, disabled, dienow⟩ := same
  unfold inputBufferAdd bufView
  simp only [fed, buf, disabled, dienow]
  split_ifs <;> rfl

@[simp] theorem bufView_onStream (r : Input) (f : InputStream → InputStream) :
    bufView (r.onStream f) = bufView r := rfl

@[simp] theorem bufView_inputRewritePmt (r : Input) :
    bufView (inputRewritePmt lib r) = bufView r := by
  obtain ⟨_, _, _, _, same⟩ := inputRewritePmt_frame lib r
  rw [same]
  rfl

@[simp] theorem bufView_processPat (r : Input) (pid : ℕ) (p : Packet) :
    bufView (processPat lib r pid p).2.1 = bufView r := by
  obtain ⟨_, _, _, _, _, _, _, same⟩ := processPat_frame lib r pid p
  rw [same]
  rfl

theorem bufView_emitEit (r : Input) (P : TsEit) :
    bufView (emitEit lib r P) =
      bufView (inputBufferAdd lib r (setConts lib.toTsFuncs r.stream.pidEitCont P.packets)) :=
  bufView_inputBufferAdd_congr lib (bufView_onStream r _) _

@[simp] theorem bufView_notePcr (r : Input) (pid : ℕ) (p : Packet) :
    bufView (notePcr lib r pid p) = bufView r := by
  obtain ⟨_, same⟩ := notePcr_frame lib r pid p
  rw [same]
  rfl

end Frame

/-- The packet reaches the end of the loop body, and a PCR has been seen. -/
def forwards (lib : Libs) (r : Input) (p : Packet) : Prop :=
  r.dienow = false ∧ lib.getPid p ≠ 0 ∧ 0 ≤ (processPmt lib r (lib.getPid p) p).1 ∧
    lib.getPid p ≠ 0x12 ∧
    killed (processPmt lib r (lib.getPid p) p).2.stream (lib.getPid p) = false ∧
    (notePcr lib (processPmt lib r (lib.getPid p) p).2 (lib.getPid p) p).stream.inputPcr ≠ 0

/-- What working on the packet `p` in the state `r` has done to the buffer and to the continuity
counter of the EIT. -/
inductive Effect (lib : Libs) (conf : Config) (base : ℕ) (r : Input) (p : Packet) (r' : Input) :
    Prop
  | quiet (buf : bufView r' = bufView r) (cont : r'.stream.pidEitCont = r.stream.pidEitCont)
  | pmt (pid : ℕ) (data : List Packet)
      (assigned : pid ∈ cyclicRun (2 ^ 16) base (orgsDone r.stream).length)
      (pids : pid < 0x2000 → ∀ q ∈ data, lib.getPid q = pid)
      (buf : bufView r' = bufView (inputBufferAdd lib r data))
      (cont : r'.stream.pidEitCont = r.stream.pidEitCont)
  | eit (t : TsEit) (mode : r.channel.eitMode ≠ 0)
      (buf : bufView r' = bufView (inputBufferAdd lib r
        (setConts lib.toTsFuncs r.stream.pidEitCont (rewrittenEit lib conf t).packets)))
      (cont : r'.stream.pidEitCont =
        (r.stream.pidEitCont + (rewrittenEit lib conf t).packets.length) % 16)
  | forward (on : forwards lib r p)
      (buf : bufView r' = bufView (inputBufferAdd lib r
        [(pidrefChangePacketPid lib.toTsFuncs p (lib.getPid p) r.stream.pidref).2]))
      (cont : r'.stream.pidEitCont = r.stream.pidEitCont)

variable {lib : Libs} {conf : Config} {base : ℕ} {r : Input} {s : InputStream} {p : Packet}

private theorem emitPmt_effect (h : Tracked lib base r.stream) (small : base < 2 ^ 16) :
    bufView (emitPmt lib r) = bufView r ∨
      ∃ pid data, pid ∈ cyclicRun (2 ^ 16) base (patOrgs r.stream.pat.programs).length ∧
        (pid < 0x2000 → ∀ q ∈ data, lib.getPid q = pid) ∧
        bufView (emitPmt lib r) = bufView (inputBufferAdd lib r data) := by
  rw [emitPmt]
  split
  · rename_i M rewritten
    split
    · obtain ⟨-, -, -, known, header, pids⟩ := h.pmt M rewritten
      refine Or.inr ⟨M.headerPid, setConts lib.toTsFuncs r.stream.pidPmtCont M.packets, ?_, ?_, ?_⟩
      · rw [header]
        exact lookup_first small (by norm_num) (h.pmtPid known).2
      · exact fun inside => pid_setConts lib.toTsFuncs (pids inside)
      · exact bufView_inputBufferAdd_congr lib (bufView_onStream r _) _
    · exact Or.inl rfl
  · exact Or.inl rfl

private theorem mem_orgsDone_run (rewritten : s.patRewritten.isSome = true) {pid : ℕ}
    (member : pid ∈ cyclicRun (2 ^ 16) base (patOrgs s.pat.programs).length) :
    pid ∈ cyclicRun (2 ^ 16) base (orgsDone s).length := by
  rw [orgsDone]
  rw [if_pos rewritten, List.length_append, cyclicRun_add]
  exact List.mem_append_left _ member

theorem processPmt_effect (h : Tracked lib base r.stream) (known : Known r.stream)
    (small : base < 2 ^ 16) (pid : ℕ) :
    bufView (processPmt lib r pid p).2 = bufView r ∨
      ((processPmt lib r pid p).1 = -1 ∧
        ∃ header data, header ∈ cyclicRun (2 ^ 16) base (orgsDone r.stream).length ∧
          (header < 0x2000 → ∀ q ∈ data, lib.getPid q = header) ∧
          bufView (processPmt lib r pid p).2 = bufView (inputBufferAdd lib r data)) := by
  have noted := tracked_pushLastPmt (tracked_setPmt h p) p
  have view : bufView (pushLastPmt lib (r.setPmt (lib.pmt.push r.stream.pmt p)) p) = bufView r :=
    rfl
  rw [processPmt]
  dsimp only
  split_ifs with other incomplete changed complete again
  · exact Or.inl rfl
  · exact Or.inl rfl
  · exact Or.inl rfl
  · have found : r.stream.pmtPid ≠ 0 := by
      rintro zero
      rw [zero] at other
      omega
    rcases emitPmt_effect noted small with same | ⟨header, data, member, pids, buf⟩
    · exact Or.inl same
    · exact Or.inr ⟨rfl, header, data, mem_orgsDone_run (known found) member, pids,
        buf.trans (bufView_inputBufferAdd_congr lib view _)⟩
  · have found : r.stream.pmtPid ≠ 0 := by
      rintro zero
      rw [zero] at other
      omega
    have rewritten := tracked_inputRewritePmt noted complete (noted.pmt_absent again)
      (known found) found
    rcases emitPmt_effect rewritten small with same | ⟨header, data, member, pids, buf⟩
    · exact Or.inl (same.trans ((bufView_inputRewritePmt lib _).trans view))
    · rw [pat_inputRewritePmt] at member
      exact Or.inr ⟨rfl, header, data, mem_orgsDone_run (known found) member, pids,
        buf.trans
          (bufView_inputBufferAdd_congr lib ((bufView_inputRewritePmt lib _).trans view) _)⟩
  · exact Or.inl rfl

theorem pidref_processPmt {pid : ℕ} (on : 0 ≤ (processPmt lib r pid p).1) :
    (processPmt lib r pid p).2.stream.pidref = r.stream.pidref ∧
      bufView (processPmt lib r pid p).2 = bufView r := by
  rw [processPmt] at on ⊢
  dsimp only at on ⊢
  split_ifs at on ⊢ <;> first | exact ⟨rfl, rfl⟩ | (norm_num at on)

@[simp] theorem pidref_notePcr (r : Input) (pid : ℕ) (p : Packet) :
    (notePcr lib r pid p).stream.pidref = r.stream.pidref := by
  rw [notePcr]
  split <;> rfl

variable (lib) in
theorem processEit_effect (conf : Config) (p : Packet) (clean : r.stream.eitRewritten = none) :
    (bufView (processEit lib conf r p).2 = bufView r ∧
      (processEit lib conf r p).2.stream.pidEitCont = r.stream.pidEitCont) ∨
      ∃ t, r.channel.eitMode ≠ 0 ∧
        bufView (processEit lib conf r p).2 = bufView (inputBufferAdd lib r
          (setConts lib.toTsFuncs r.stream.pidEitCont (rewrittenEit lib conf t).packets)) ∧
        (processEit lib conf r p).2.stream.pidEitCont =
          (r.stream.pidEitCont + (rewrittenEit lib conf t).packets.length) % 16 := by
  rcases processEit_cases conf p clean with same | same | ⟨on, same⟩
  · rw [same]
    exact Or.inl ⟨rfl, rfl⟩
  · rw [same]
    exact Or.inl ⟨rfl, rfl⟩
  · rw [same]
    refine Or.inr ⟨_, on, ?_, congrArg (fun v => v.2.2.1) (eitView_emitEit lib _ _)⟩
    exact (bufView_emitEit lib _ _).trans (bufView_inputBufferAdd_congr lib (by rfl) _)

variable (lib) in
theorem forwardPacket_effect (r : Input) (pid : ℕ) (p : Packet) :
    bufView (forwardPacket lib r pid p) =
      if (notePcr lib r pid p).stream.inputPcr ≠ 0 then
        bufView (inputBufferAdd lib r
          [(pidrefChangePacketPid lib.toTsFuncs p pid r.stream.pidref).2])
      else bufView r := by
  rw [forwardPacket]
  dsimp only
  rw [pidref_notePcr]
  split_ifs with seen first
  · exact bufView_inputBufferAdd_congr lib (bufView_notePcr lib r pid p) _
  · exact bufView_inputBufferAdd_congr lib (bufView_notePcr lib r pid p) _
  · exact bufView_notePcr lib r pid p

theorem inputPacket_forwards (on : forwards lib r p) :
    bufView (inputPacket lib conf r p).2 = bufView (inputBufferAdd lib r
      [(pidrefChangePacketPid lib.toTsFuncs p (lib.getPid p) r.stream.pidref).2]) := by
  obtain ⟨alive, pid, early, eit, dropped, seen⟩ := on
  obtain ⟨pidref, same⟩ := pidref_processPmt early
  rw [inputPacket_of_other alive pid]
  dsimp only
  rw [if_neg (by omega), if_neg (by omega), if_neg eit, dropped]
  apply (forwardPacket_effect lib _ _ _).trans
  rw [if_pos seen, pidref]
  exact bufView_inputBufferAdd_congr lib same _

theorem inputPacket_effect (h : Tracked lib base r.stream) (known : Known r.stream)
    (small : base < 2 ^ 16) : Effect lib conf base r p (inputPacket lib conf r p).2 := by
  cases alive : r.dienow with
  | true =>
      rw [inputPacket_of_dead alive]
      exact .quiet rfl rfl
  | false =>
      by_cases pid : lib.getPid p = 0
      · rw [inputPacket_of_pat alive pid]
        exact .quiet (bufView_processPat lib r 0 p)
          (congrArg (fun v => v.2.2.1) (eitView_processPat lib r 0 p))
      · have view := eitView_processPmt lib r (lib.getPid p) p
        have cont : (processPmt lib r (lib.getPid p) p).2.stream.pidEitCont =
            r.stream.pidEitCont := congrArg (fun v => v.2.2.1) view
        have handed : Effect lib conf base r p (processPmt lib r (lib.getPid p) p).2 := by
          rcases processPmt_effect h known small (lib.getPid p) with
            same | ⟨-, header, data, member, pids, buf⟩
          · exact .quiet same cont
          · exact .pmt header data member pids buf cont
        rw [inputPacket_of_other alive pid]
        dsimp only
        split_ifs with reconnect early eit dropped
        · exact handed
        · exact handed
        · have on : 0 ≤ (processPmt lib r (lib.getPid p) p).1 := by omega
          obtain ⟨-, same⟩ := pidref_processPmt on
          have clean : (processPmt lib r (lib.getPid p) p).2.stream.eitRewritten = none :=
            (congrArg (fun v => v.2.1) view).trans h.eit
          have channel : (processPmt lib r (lib.getPid p) p).2.channel = r.channel :=
            congrArg (fun v => v.2.2.2) view
          have effect := processEit_effect lib conf p clean
          rw [same, cont, channel] at effect
          rcases effect with ⟨buf, still⟩ | ⟨t, mode, buf, next⟩
          · exact .quiet buf still
          · exact .eit t mode (buf.trans (bufView_inputBufferAdd_congr lib same _)) next
        · exact handed
        · have on : 0 ≤ (processPmt lib r (lib.getPid p) p).1 := by omega
          obtain ⟨pidref, same⟩ := pidref_processPmt on
          have kept := (congrArg (fun v => v.2.2.1) (eitView_forwardPacket lib
            (processPmt lib r (lib.getPid p) p).2 (lib.getPid p) p)).trans cont
          have effect := forwardPacket_effect lib
            (processPmt lib r (lib.getPid p) p).2 (lib.getPid p) p
          rw [pidref, same] at effect
          split_ifs at effect with seen
          · exact .forward ⟨alive, pid, on, eit, by simpa using dropped, seen⟩
              (effect.trans (bufView_inputBufferAdd_congr lib same _)) kept
          · exact .quiet effect kept

theorem pmtRewritten_processPat (r : Input) (pid : ℕ) (p : Packet) :
    (processPat lib r pid p).2.1.stream.pmtRewritten = r.stream.pmtRewritten := by
  obtain ⟨_, _, _, _, _, _, _, same⟩ := processPat_frame lib r pid p
  rw [same]
  rfl

variable (lib) in
theorem rewritten_processEit (conf : Config) (clean : r.stream.eitRewritten = none) (p : Packet) :
    (processEit lib conf r p).2.stream.pmtRewritten = r.stream.pmtRewritten ∧
      (processEit lib conf r p).2.stream.eitRewritten = none := by
  rcases processEit_cases conf p clean with same | same | ⟨-, same⟩
  · rw [same]
    exact ⟨rfl, clean⟩
  · rw [same]
    exact ⟨rfl, clean⟩
  · rw [same, stream_emitEit]
    exact ⟨rfl, rfl⟩

private theorem channel_processEit (clean : r.stream.eitRewritten = none) :
    (processEit lib conf r p).2.channel = r.channel := by
  rcases processEit_cases conf p clean with same | same | ⟨-, same⟩
  · rw [same]
  · rw [same]
    rfl
  · rw [same]
    exact congrArg (fun v => v.2.2.2) (eitView_emitEit lib _ _)

theorem channel_inputPacket (clean : r.stream.eitRewritten = none) :
    (inputPacket lib conf r p).2.channel = r.channel := by
  by_cases on : dispatched lib r p
  · have view := eitView_processPmt lib r 0x12 p
    rw [inputPacket_dispatched lib conf on]
    exact (channel_processEit ((congrArg (fun v => v.2.1) view).trans clean)).trans
      (congrArg (fun v => v.2.2.2) view)
  · exact congrArg (fun v => v.2.2.2) (eitView_inputPacket lib conf on)

/-- What is known of an input of channel `c` after whatever has happened to it. -/
structure Sound (lib : Libs) (c : Channel) (r : Input) : Prop where
  tracked : Tracked lib (uint16 c.basePid) r.stream
  known : Known r.stream
  basePid : r.channel.basePid = c.basePid
  eitMode : r.channel.eitMode = c.eitMode

variable {c : Channel}

theorem sound_inputNew (name : String) (c : Channel) (ifd : Bool) :
    Sound lib c (inputNew lib name c ifd) :=
  ⟨(tracked_inputStreamReset lib (inputNew lib name c ifd)).1,
    (tracked_inputStreamReset lib (inputNew lib name c ifd)).2, rfl, rfl⟩

theorem Sound.inputStep (h : Sound lib c r) (step : InputStep) :
    Sound lib c (inputStep lib conf r step) := by
  cases step with
  | packet p =>
      obtain ⟨tracked, known⟩ : Tracked lib _ (inputPacket lib conf r p).2.stream ∧ Known _ :=
        tracked_inputPacket h.tracked h.known p
      have channel : (inputPacket lib conf r p).2.channel = r.channel :=
        channel_inputPacket h.tracked.eit
      exact ⟨tracked, known, (congrArg _ channel).trans h.basePid,
        (congrArg _ channel).trans h.eitMode⟩
  | reconnect =>
      obtain ⟨-, basePid, -, eitMode⟩ := chansrcNext_frame r.channel
      have reset := tracked_inputStreamReset lib
        { r with channel := chansrcNext r.channel }
      simp only [basePid, h.basePid] at reset
      exact ⟨reset.1, reset.2, basePid.trans h.basePid, eitMode.trans h.eitMode⟩
  | take => exact ⟨h.tracked, h.known, h.basePid, h.eitMode⟩
  | stop => exact ⟨h.tracked, h.known, h.basePid, h.eitMode⟩

end Mptsd.Intake.Effects
