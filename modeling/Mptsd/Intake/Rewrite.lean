/- Unit: Mptsd/Intake/Rewrite
   source: src/input.c (input_process_pat, input_rewrite_pat, input_rewrite_pmt)
   digest: The table rewriters as rows of assignments in the PID table. -/

import Mptsd.Intake.Model

set_option autoImplicit false
set_option relaxedAutoImplicit false

namespace Mptsd.Intake.Rewrite

open Mptsd.TsPacket (Packet)
open Mptsd.Conf (Config)
open Mptsd.PidTable
open Mptsd.PsiTables
open Mptsd.Intake.Model

/-- The PIDs the PAT rewriter replaces, in its order. -/
def patOrgs (programs : List TsPatProgram) : List ℕ :=
  (programs.filter (fun prg => prg.program ≠ 0)).map TsPatProgram.pid

/-- The PIDs the PMT rewriter replaces, in its order. -/
def pmtOrgs (M : TsPmt) : List ℕ := M.pcrPid :: M.streams.filter (fun pid => pid ≠ M.pcrPid)

/-- The programs that got a new PID, old beside new. -/
def patPairs (old new : List TsPatProgram) : List (ℕ × ℕ) :=
  ((old.zip new).filter (fun x => x.1.program ≠ 0)).map (fun x => (x.1.pid, x.2.pid))

/-- The PIDs of a PMT beside those of its rewritten form. -/
def pmtPairs (M M' : TsPmt) : List (ℕ × ℕ) :=
  (M.pcrPid, M'.pcrPid) :: M.streams.zip M'.streams

theorem rewritePrograms_pidref (serviceId : ℕ) (ref : Pidref) (programs : List TsPatProgram) :
    (rewritePrograms serviceId ref programs).2 = (assignPids ref (patOrgs programs)).2 := by
  induction programs generalizing ref with
  | nil => rfl
  | cons prg rest ih =>
      by_cases nit : prg.program = 0 <;>
        simp [rewritePrograms, patOrgs, assignPids, nit, ih]

theorem patPairs_rewritePrograms (serviceId : ℕ) (ref : Pidref) (programs : List TsPatProgram) :
    patPairs programs (rewritePrograms serviceId ref programs).1 =
      (patOrgs programs).zip (assignPids ref (patOrgs programs)).1 := by
  induction programs generalizing ref with
  | nil => rfl
  | cons prg rest ih =>
      by_cases nit : prg.program = 0
      · simpa [rewritePrograms, patOrgs, patPairs, nit] using ih ref
      · simpa [rewritePrograms, patOrgs, patPairs, assignPids, nit] using
          ih (assignPid ref prg.pid).2

private theorem rewriteStreams_pidref (org new : ℕ) (ref : Pidref) (streams : List ℕ) :
    (rewriteStreams org new ref streams).2 =
      (assignPids ref (streams.filter (fun pid => pid ≠ org))).2 := by
  induction streams generalizing ref with
  | nil => rfl
  | cons pid rest ih =>
      by_cases pcr : pid = org <;> simp [rewriteStreams, assignPids, pcr, ih]

theorem length_rewriteStreams (org new : ℕ) (ref : Pidref) (streams : List ℕ) :
    (rewriteStreams org new ref streams).1.length = streams.length := by
  induction streams generalizing ref with
  | nil => rfl
  | cons pid rest ih =>
      by_cases pcr : pid = org <;> simp [rewriteStreams, pcr, ih]

theorem mem_zip_rewriteStreams (org new : ℕ) (ref : Pidref) (streams : List ℕ) (x : ℕ × ℕ) :
    x ∈ (org, new) :: streams.zip (rewriteStreams org new ref streams).1 ↔
      x ∈ (org, new) :: (streams.filter (fun pid => pid ≠ org)).zip
        (assignPids ref (streams.filter (fun pid => pid ≠ org))).1 := by
  induction streams generalizing ref with
  | nil => rfl
  | cons pid rest ih =>
      by_cases pcr : pid = org
      · subst pcr
        simpa [rewriteStreams] using ih ref
      · have tail := ih (assignPid ref pid).2
        simp only [List.mem_cons] at tail
        simp only [rewriteStreams, pcr, if_false, List.zip_cons_cons, List.mem_cons, ne_eq,
          not_false_eq_true, decide_true, List.filter_cons_of_pos, assignPids]
        rw [or_left_comm, tail, or_left_comm]

private theorem scanPrograms_frame (s : InputStream) (n : ℕ) (programs : List TsPatProgram) :
    ∃ nitPid pmtPid, (scanPrograms s n programs).1 = { s with nitPid, pmtPid } := by
  induction programs generalizing s with
  | nil => exact ⟨s.nitPid, s.pmtPid, rfl⟩
  | cons prg rest ih =>
      rw [scanPrograms]
      split
      · split
        · obtain ⟨nitPid, pmtPid, same⟩ := ih { s with nitPid := prg.pid }
          exact ⟨nitPid, pmtPid, same⟩
        · exact ⟨s.nitPid, prg.pid, rfl⟩
      · exact ih s

theorem scanPrograms_pmtPid (s : InputStream) (n : ℕ) (programs : List TsPatProgram) :
    (scanPrograms s n programs).1.pmtPid =
      ((patOrgs programs).find? (fun pid => pid ≠ 0)).getD s.pmtPid := by
  induction programs generalizing s with
  | nil => rfl
  | cons prg rest ih =>
      rw [scanPrograms]
      by_cases zero : prg.pid = 0 <;> by_cases nit : prg.program = 0 <;>
        simp [zero, nit, ih, patOrgs]

theorem inputProcessPat_snd (s : InputStream) :
    (inputProcessPat s).2 = (scanPrograms { s with nitPid := 0x10 } 0 s.pat.programs).1 := by
  unfold inputProcessPat
  dsimp only
  split <;> rfl

private theorem scanPrograms_count (s : InputStream) (n : ℕ) (programs : List TsPatProgram) :
    (scanPrograms s n programs).2 ≤ n + 1 := by
  induction programs generalizing s with
  | nil => exact Nat.le_succ n
  | cons prg rest ih =>
      rw [scanPrograms]
      split
      · split
        · exact ih _
        · exact le_rfl
      · exact ih s

theorem inputProcessPat_fst (s : InputStream) : (inputProcessPat s).1 = 1 := by
  have count := scanPrograms_count { s with nitPid := 0x10 } 0 s.pat.programs
  unfold inputProcessPat
  dsimp only
  rw [if_neg (by omega)]

theorem inputProcessPat_frame (s : InputStream) :
    ∃ nitPid pmtPid, (inputProcessPat s).2 = { s with nitPid, pmtPid } := by
  rw [inputProcessPat_snd]
  exact scanPrograms_frame { s with nitPid := 0x10 } 0 s.pat.programs

@[simp] theorem pidref_inputProcessPat (s : InputStream) :
    (inputProcessPat s).2.pidref = s.pidref := by
  obtain ⟨_, _, same⟩ := inputProcessPat_frame s
  rw [same]

@[simp] theorem pat_inputProcessPat (s : InputStream) : (inputProcessPat s).2.pat = s.pat := by
  obtain ⟨_, _, same⟩ := inputProcessPat_frame s
  rw [same]

variable {lib : Libs} {r : Input}

theorem pidref_inputRewritePat (complete : r.stream.pat.initialized = true) :
    (inputRewritePat lib r).stream.pidref =
      (assignPids r.stream.pidref (patOrgs r.stream.pat.programs)).2 := by
  simp only [inputRewritePat, lib.pat.copy_initialized _ complete, rewritePrograms_pidref]

theorem patRewritten_inputRewritePat (complete : r.stream.pat.initialized = true) :
    (inputRewritePat lib r).stream.patRewritten =
      some (lib.pat.regenerate { r.stream.pat with
        programs := (rewritePrograms (uint16 r.channel.serviceId) r.stream.pidref
          r.stream.pat.programs).1 }) := by
  simp only [inputRewritePat, lib.pat.copy_initialized _ complete]

theorem pmtPid_inputRewritePat : (inputRewritePat lib r).stream.pmtPid = r.stream.pmtPid := by
  rw [inputRewritePat]
  split <;> rfl

theorem pidref_inputRewritePmt (complete : r.stream.pmt.initialized = true) :
    (inputRewritePmt lib r).stream.pidref =
      (assignPids r.stream.pidref (pmtOrgs r.stream.pmt)).2 := by
  simp only [inputRewritePmt, lib.pmt.copy_initialized _ complete, rewriteStreams_pidref,
    pmtOrgs, assignPids]

theorem pmtRewritten_inputRewritePmt (complete : r.stream.pmt.initialized = true) :
    (inputRewritePmt lib r).stream.pmtRewritten =
      some (lib.pmt.regenerate { r.stream.pmt with
        headerPid := pidrefGetNewPid r.stream.pidref r.stream.pmtPid
        tsIdNumber := uint16 r.channel.serviceId
        pcrPid := r.stream.pidref.basePid
        streams := (rewriteStreams r.stream.pmt.pcrPid r.stream.pidref.basePid
          (assignPid r.stream.pidref r.stream.pmt.pcrPid).2 r.stream.pmt.streams).1 }) := by
  simp only [inputRewritePmt, lib.pmt.copy_initialized _ complete]
  rfl

theorem pmtPid_inputRewritePmt : (inputRewritePmt lib r).stream.pmtPid = r.stream.pmtPid := by
  rw [inputRewritePmt]
  split <;> rfl

theorem pat_inputRewritePmt : (inputRewritePmt lib r).stream.pat = r.stream.pat := by
  rw [inputRewritePmt]
  split <;> rfl

theorem pmt_inputRewritePmt : (inputRewritePmt lib r).stream.pmt = r.stream.pmt := by
  rw [inputRewritePmt]
  split <;> rfl

theorem eitRewritten_inputRewritePmt :
    (inputRewritePmt lib r).stream.eitRewritten = r.stream.eitRewritten := by
  rw [inputRewritePmt]
  split <;> rfl

theorem patRewritten_inputRewritePmt :
    (inputRewritePmt lib r).stream.patRewritten = r.stream.patRewritten := by
  rw [inputRewritePmt]
  split <;> rfl

private theorem inputRewriteEit_complete (lib : Libs) (conf : Config) {r : Input}
    (complete : r.stream.eit.initialized = true) :
    inputRewriteEit lib conf r = r.onStream fun s =>
      { s with
        eitRewritten := some (lib.eit.regenerate
          { r.stream.eit with transportStreamId := conf.transportStreamId }) } := by
  simp only [inputRewriteEit, lib.eit.copy_initialized _ complete]
  rfl

section Eit

variable {conf : Config} {p : Packet}

theorem processEit_off (off : r.channel.eitMode = 0) : processEit lib conf r p = (-1, r) := by
  simp [processEit, off]

theorem processEit_pending (mode : r.channel.eitMode ≠ 0)
    (pending : ¬ (lib.eit.push r.stream.eit p).initialized = true) :
    processEit lib conf r p = (0, r.setEit (lib.eit.push r.stream.eit p)) := by
  rw [processEit]
  dsimp only
  rw [if_neg mode, if_neg pending]

theorem processEit_other (mode : r.channel.eitMode ≠ 0)
    (complete : (lib.eit.push r.stream.eit p).initialized = true)
    (other : ((lib.eit.push r.stream.eit p).tsIdNumber : ℤ) ≠ r.channel.serviceId) :
    processEit lib conf r p = (-2, r.setEit (lib.eit.push r.stream.eit p)) := by
  rw [processEit]
  dsimp only
  rw [if_neg mode, if_pos complete, if_pos]
  exact other

/-- The table of a complete section with the transport stream of this multiplex. -/
def rewrittenEit (lib : Libs) (conf : Config) (t : TsEit) : TsEit :=
  lib.eit.regenerate { t with transportStreamId := conf.transportStreamId }

theorem processEit_own (mode : r.channel.eitMode ≠ 0) (clean : r.stream.eitRewritten = none)
    (complete : (lib.eit.push r.stream.eit p).initialized = true)
    (own : ¬ ((lib.eit.push r.stream.eit p).tsIdNumber : ℤ) ≠ r.channel.serviceId) :
    processEit lib conf r p =
      (1, emitEit lib
        ((r.setEit (lib.eit.push r.stream.eit p)).onStream fun s =>
          { s with eitRewritten := some (rewrittenEit lib conf (lib.eit.push r.stream.eit p)) })
        (rewrittenEit lib conf (lib.eit.push r.stream.eit p))) := by
  have rewritten := inputRewriteEit_complete lib conf
    (r := r.setEit (lib.eit.push r.stream.eit p)) complete
  have fresh : ¬ (r.setEit (lib.eit.push r.stream.eit p)).stream.eitRewritten.any
      TsEit.initialized = true := by
    simp [clean]
  have ready : (rewrittenEit lib conf (lib.eit.push r.stream.eit p)).initialized = true := by
    rw [rewrittenEit, lib.eit_regenerate_initialized]
    exact complete
  rw [processEit]
  dsimp only
  rw [if_neg mode, if_pos complete, if_neg fresh, rewritten, if_neg]
  · exact if_pos ready
  · exact own

theorem processEit_cases (conf : Config) (p : Packet) (clean : r.stream.eitRewritten = none) :
    (processEit lib conf r p).2 = r ∨
      (processEit lib conf r p).2 = r.setEit (lib.eit.push r.stream.eit p) ∨
      r.channel.eitMode ≠ 0 ∧
        (processEit lib conf r p).2 =
          emitEit lib
            ((r.setEit (lib.eit.push r.stream.eit p)).onStream fun s =>
              { s with eitRewritten := some (rewrittenEit lib conf (lib.eit.push r.stream.eit p)) })
            (rewrittenEit lib conf (lib.eit.push r.stream.eit p)) := by
  by_cases off : r.channel.eitMode = 0
  · rw [processEit_off off]
    exact Or.inl rfl
  · by_cases complete : (lib.eit.push r.stream.eit p).initialized = true
    · by_cases other : ((lib.eit.push r.stream.eit p).tsIdNumber : ℤ) ≠ r.channel.serviceId
      · rw [processEit_other off complete other]
        exact Or.inr (Or.inl rfl)
      · rw [processEit_own off clean complete other]
        exact Or.inr (Or.inr ⟨off, rfl⟩)
    · rw [processEit_pending off complete]
      exact Or.inr (Or.inl rfl)

theorem stream_emitEit (r : Input) (P : TsEit) :
    (emitEit lib r P).stream =
      { r.stream with
        pidEitCont := (r.stream.pidEitCont + P.packets.length) % 16
        eit := lib.eit.alloc
        eitRewritten := none } := by
  rw [emitEit]
  rw [stream_onStream, stream_inputBufferAdd]
  rfl

end Eit

end Mptsd.Intake.Rewrite
