/- Unit: Mptsd/Intake/Frames
   source: src/input.c (process_pat, process_pmt, process_eit, input_rewrite_pat,
   input_rewrite_pmt, input_rewrite_eit, the end of the packet loop of input_stream)
   digest: Which fields of an input the handlers of a packet may change. -/

import Mptsd.Intake.Rewrite

set_option autoImplicit false
set_option relaxedAutoImplicit false

namespace Mptsd.Intake.Frames

open Mptsd.TsPacket (Packet)
open Mptsd.Conf (Config)
open Mptsd.PsiTables
open Mptsd.Intake.Model
open Mptsd.Intake.Rewrite

variable (lib : Libs) (r : Input)

section parts

theorem parsePat_frame :
    ∃ nitPid pmtPid, (parsePat r).2 = r.onStream fun s => { s with nitPid, pmtPid } := by
  rw [parsePat]
  split
  · obtain ⟨nitPid, pmtPid, same⟩ := inputProcessPat_frame r.stream
    exact ⟨nitPid, pmtPid, congrArg (fun s => r.onStream fun _ => s) same⟩
  · exact ⟨r.stream.nitPid, r.stream.pmtPid, rfl⟩

theorem inputRewritePat_frame :
    ∃ pidref patRewritten,
      inputRewritePat lib r = r.onStream fun s => { s with pidref, patRewritten } := by
  rw [inputRewritePat]
  split
  · exact ⟨r.stream.pidref, r.stream.patRewritten, rfl⟩
  · exact ⟨_, _, rfl⟩

theorem emitPat_frame :
    ∃ pidPatCont patRewritten,
      emitPat lib r = r.onStream (fun s => { s with pidPatCont, patRewritten }) ∧
        patRewritten.map TsPat.initialized = r.stream.patRewritten.map TsPat.initialized := by
  rw [emitPat]
  split
  · rename_i P rewritten
    split
    · exact ⟨_, _, rfl, by rw [rewritten]; rfl⟩
    · exact ⟨r.stream.pidPatCont, r.stream.patRewritten, rfl, rfl⟩
  · exact ⟨r.stream.pidPatCont, r.stream.patRewritten, rfl, rfl⟩

theorem inputRewritePmt_frame :
    ∃ outputPcrPid pidref pcrPid pmtRewritten,
      inputRewritePmt lib r =
        { r with outputPcrPid, stream := { r.stream with pidref, pcrPid, pmtRewritten } } := by
  rw [inputRewritePmt]
  split
  · exact ⟨r.outputPcrPid, r.stream.pidref, r.stream.pcrPid, r.stream.pmtRewritten, rfl⟩
  · exact ⟨_, _, _, _, rfl⟩

/-- What `emitPmt` makes of a rewritten PMT that is complete. -/
def countedPmt (s : InputStream) (M : TsPmt) : InputStream :=
  { s with
    pidPmtCont := (s.pidPmtCont + M.packets.length) % 16
    pmtRewritten := some
      { M with
        packets := setConts lib.toTsFuncs s.pidPmtCont M.packets
        continuity := s.pidPmtCont } }

theorem emitPmt_cases :
    emitPmt lib r = r ∨
      ∃ M, r.stream.pmtRewritten = some M ∧ M.initialized = true ∧
        emitPmt lib r =
          inputBufferAdd lib (r.onStream fun s => countedPmt lib s M)
            (setConts lib.toTsFuncs r.stream.pidPmtCont M.packets) := by
  rw [emitPmt]
  split
  · rename_i M rewritten
    split
    · rename_i complete
      exact Or.inr ⟨M, rewritten, complete, rfl⟩
    · exact Or.inl rfl
  · exact Or.inl rfl

private theorem inputRewriteEit_frame (conf : Config) :
    ∃ eitRewritten,
      inputRewriteEit lib conf r = r.onStream fun s => { s with eitRewritten } := by
  rw [inputRewriteEit]
  split
  · exact ⟨r.stream.eitRewritten, rfl⟩
  · exact ⟨_, rfl⟩

theorem notePcr_frame (pid : ℕ) (p : Packet) :
    ∃ inputPcr, notePcr lib r pid p = r.onStream fun s => { s with inputPcr } := by
  rw [notePcr]
  split
  · exact ⟨_, rfl⟩
  · exact ⟨r.stream.inputPcr, rfl⟩

theorem ready_frame (x : Input) :
    ∃ inputReady,
      (if x.inputReady = 0 then { x with inputReady := 1 } else x) = { x with inputReady } := by
  split
  · exact ⟨1, rfl⟩
  · exact ⟨x.inputReady, rfl⟩

end parts

section handlers

variable {lib} {r} {x : Input}

/-- `x` is `r`, apart from the PAT and from what is read in it. -/
def PatFrame (r x : Input) : Prop :=
  ∃ pidref nitPid pmtPid pat pidPatCont patRewritten lastPat,
    x = r.onStream fun s =>
      { s with pidref, nitPid, pmtPid, pat, pidPatCont, patRewritten, lastPat }

theorem PatFrame.refl (r : Input) : PatFrame r r :=
  ⟨r.stream.pidref, r.stream.nitPid, r.stream.pmtPid, r.stream.pat, r.stream.pidPatCont,
    r.stream.patRewritten, r.stream.lastPat, rfl⟩

theorem PatFrame.setPat (h : PatFrame r x) (pat : TsPat) : PatFrame r (x.setPat pat) := by
  obtain ⟨pidref, nitPid, pmtPid, _, pidPatCont, patRewritten, lastPat, rfl⟩ := h
  exact ⟨pidref, nitPid, pmtPid, pat, pidPatCont, patRewritten, lastPat, rfl⟩

theorem PatFrame.pushLastPat (h : PatFrame r x) (p : Packet) :
    PatFrame r (pushLastPat lib x p) := by
  obtain ⟨pidref, nitPid, pmtPid, pat, pidPatCont, patRewritten, _, rfl⟩ := h
  exact ⟨pidref, nitPid, pmtPid, pat, pidPatCont, patRewritten, _, rfl⟩

theorem PatFrame.parsePat (h : PatFrame r x) : PatFrame r (parsePat x).2 := by
  obtain ⟨nitPid, pmtPid, parsed⟩ := parsePat_frame x
  obtain ⟨pidref, _, _, pat, pidPatCont, patRewritten, lastPat, rfl⟩ := h
  exact ⟨pidref, nitPid, pmtPid, pat, pidPatCont, patRewritten, lastPat, parsed⟩

theorem PatFrame.inputRewritePat (h : PatFrame r x) : PatFrame r (inputRewritePat lib x) := by
  obtain ⟨pidref, patRewritten, rewritten⟩ := inputRewritePat_frame lib x
  obtain ⟨_, nitPid, pmtPid, pat, pidPatCont, _, lastPat, rfl⟩ := h
  exact ⟨pidref, nitPid, pmtPid, pat, pidPatCont, patRewritten, lastPat, rewritten⟩

theorem PatFrame.emitPat (h : PatFrame r x) : PatFrame r (emitPat lib x) := by
  obtain ⟨pidPatCont, patRewritten, emitted, -⟩ := emitPat_frame lib x
  obtain ⟨pidref, nitPid, pmtPid, pat, _, _, lastPat, rfl⟩ := h
  exact ⟨pidref, nitPid, pmtPid, pat, pidPatCont, patRewritten, lastPat, emitted⟩

variable (lib) (r) in
theorem processPat_frame (pid : ℕ) (p : Packet) : PatFrame r (processPat lib r pid p).2.1 := by
  have pushed := (PatFrame.refl r).setPat (lib.pat.push r.stream.pat p)
  have noted : PatFrame r (pushLastPat lib _ p) := pushed.pushLastPat p
  rw [processPat]
  dsimp only
  split_ifs
  · exact .refl r
  · exact pushed
  · exact pushed
  · exact noted.parsePat
  · exact noted.parsePat.emitPat
  · exact noted.parsePat.inputRewritePat.emitPat
  · exact noted

/-- `x` is `r`, apart from the PMT and from what is read in it. -/
def PmtFrame (r x : Input) : Prop :=
  ∃ outputPcrPid pidref pcrPid pmt pidPmtCont pmtRewritten lastPmt,
    x = { r with
      outputPcrPid
      stream := { r.stream with pidref, pcrPid, pmt, pidPmtCont, pmtRewritten, lastPmt } }

variable (lib) (r) in
theorem processPmt_frame (pid : ℕ) (p : Packet) :
    ∃ x, PmtFrame r x ∧
      ((processPmt lib r pid p).2 = x ∨
        ∃ data, (processPmt lib r pid p).2 = inputBufferAdd lib x data) := by
  have pushed : ∀ pmt, PmtFrame r (r.setPmt pmt) := fun pmt =>
    ⟨r.outputPcrPid, r.stream.pidref, r.stream.pcrPid, pmt, r.stream.pidPmtCont,
      r.stream.pmtRewritten, r.stream.lastPmt, rfl⟩
  have noted : PmtFrame r (pushLastPmt lib (r.setPmt (lib.pmt.push r.stream.pmt p)) p) :=
    ⟨r.outputPcrPid, r.stream.pidref, r.stream.pcrPid, _, r.stream.pidPmtCont,
      r.stream.pmtRewritten, _, rfl⟩
  have emitted : ∀ x, PmtFrame r x → ∃ y, PmtFrame r y ∧
      (emitPmt lib x = y ∨ ∃ data, emitPmt lib x = inputBufferAdd lib y data) := by
    intro x h
    rcases emitPmt_cases lib x with same | ⟨M, -, -, same⟩
    · exact ⟨x, h, Or.inl same⟩
    · obtain ⟨outputPcrPid, pidref, pcrPid, pmt, _, _, lastPmt, rfl⟩ := h
      exact ⟨_, ⟨outputPcrPid, pidref, pcrPid, pmt, _, _, lastPmt, rfl⟩, Or.inr ⟨_, same⟩⟩
  rw [processPmt]
  dsimp only
  split_ifs
  · exact ⟨_, pushed r.stream.pmt, Or.inl rfl⟩
  · exact ⟨_, pushed _, Or.inl rfl⟩
  · exact ⟨_, pushed _, Or.inl rfl⟩
  · exact emitted _ noted
  · obtain ⟨outputPcrPid, pidref, pcrPid, pmtRewritten, same⟩ := inputRewritePmt_frame lib
      (pushLastPmt lib (r.setPmt (lib.pmt.push r.stream.pmt p)) p)
    rw [same]
    exact emitted _ ⟨outputPcrPid, pidref, pcrPid, _, r.stream.pidPmtCont, pmtRewritten, _, rfl⟩
  · exact ⟨_, noted, Or.inl rfl⟩

/-- `x` is `r`, apart from the EIT. -/
def EitFrame (r x : Input) : Prop :=
  ∃ eit eitRewritten, x = r.onStream fun s => { s with eit, eitRewritten }

variable (lib) (r) in
theorem processEit_frame (conf : Config) (p : Packet) :
    ∃ x, EitFrame r x ∧
      ((processEit lib conf r p).2 = x ∨ ∃ P, (processEit lib conf r p).2 = emitEit lib x P) := by
  have pushed : EitFrame r (r.setEit (lib.eit.push r.stream.eit p)) :=
    ⟨_, r.stream.eitRewritten, rfl⟩
  have rewritten : EitFrame r
      (if (r.setEit (lib.eit.push r.stream.eit p)).stream.eitRewritten.any TsEit.initialized then
        r.setEit (lib.eit.push r.stream.eit p)
      else inputRewriteEit lib conf (r.setEit (lib.eit.push r.stream.eit p))) := by
    split
    · exact pushed
    · obtain ⟨eitRewritten, same⟩ :=
        inputRewriteEit_frame lib (r.setEit (lib.eit.push r.stream.eit p)) conf
      exact ⟨_, eitRewritten, same⟩
  rw [processEit]
  dsimp only
  split
  · exact ⟨r, ⟨r.stream.eit, r.stream.eitRewritten, rfl⟩, Or.inl rfl⟩
  · split
    · split
      · exact ⟨_, pushed, Or.inl rfl⟩
      · split
        · split
          · exact ⟨_, rewritten, Or.inr ⟨_, rfl⟩⟩
          · exact ⟨_, rewritten, Or.inl rfl⟩
        · exact ⟨_, rewritten, Or.inl rfl⟩
    · exact ⟨_, pushed, Or.inl rfl⟩

variable (lib) (r) in
theorem forwardPacket_frame (pid : ℕ) (p : Packet) :
    ∃ inputPcr,
      forwardPacket lib r pid p = r.onStream (fun s => { s with inputPcr }) ∨
        ∃ data inputReady,
          forwardPacket lib r pid p =
            { inputBufferAdd lib (r.onStream fun s => { s with inputPcr }) data with
              inputReady } := by
  obtain ⟨inputPcr, noted⟩ := notePcr_frame lib r pid p
  refine ⟨inputPcr, ?_⟩
  rw [forwardPacket]
  dsimp only
  rw [noted]
  split
  · exact Or.inr ⟨_, ready_frame _⟩
  · exact Or.inl rfl

end handlers

end Mptsd.Intake.Frames
