/- Unit: Mptsd/Intake/StreamInvariant
   source: src/input.c (process_pat, process_pmt, and the loop of input_stream)
   digest: What holds of the stream of an input whatever it has received: the PID table is the one
   its rewritten tables have asked for. -/

import Mptsd.Intake.Frames

set_option autoImplicit false
set_option relaxedAutoImplicit false

namespace Mptsd.Intake.StreamInvariant

open Mptsd.TsPacket (Packet)
open Mptsd.Conf (Config)
open Mptsd.PidTable
open Mptsd.PsiTables
open Mptsd.Intake.Model
open Mptsd.Intake.Rewrite
open Mptsd.Intake.Frames

/-- The PIDs replaced since the last reset. -/
def orgsDone (s : InputStream) : List ℕ :=
  (if s.patRewritten.isSome then patOrgs s.pat.programs else []) ++
    (if s.pmtRewritten.isSome then pmtOrgs s.pmt else [])

/-- The PID table of a channel after the PAT alone has been rewritten. -/
def patTable (base : ℕ) (s : InputStream) : Pidref :=
  (assignPids (pidrefInit 64 base) (patOrgs s.pat.programs)).2

/-- The invariant of the stream of an input whose channel has its window at `base`. -/
structure Tracked (lib : Libs) (base : ℕ) (s : InputStream) : Prop where
  pidref : s.pidref = (assignPids (pidrefInit 64 base) (orgsDone s)).2
  pat : ∀ P', s.patRewritten = some P' → P'.initialized = true ∧ s.pat.initialized = true
  pmt : ∀ M', s.pmtRewritten = some M' → M'.initialized = true ∧ s.pmt.initialized = true ∧
    s.patRewritten.isSome = true ∧ s.pmtPid ≠ 0 ∧
    M'.headerPid = pidrefGetNewPid (patTable base s) s.pmtPid ∧
    (M'.headerPid < 0x2000 → ∀ p ∈ M'.packets, lib.getPid p = M'.headerPid)
  pmtPid : s.pmtPid ≠ 0 → s.pat.initialized = true ∧
    (patOrgs s.pat.programs).find? (fun pid => pid ≠ 0) = some s.pmtPid
  eit : s.eitRewritten = none

/-- Between packets a known PMT PID means that the PAT has been rewritten. -/
def Known (s : InputStream) : Prop := s.pmtPid ≠ 0 → s.patRewritten.isSome = true

variable {lib : Libs} {conf : Config} {base : ℕ} {r : Input} {s : InputStream}

private theorem Tracked.orgsDone_nil (h : Tracked lib base s) (absent : s.patRewritten = none) :
    s.pmtRewritten = none ∧ orgsDone s = [] := by
  have pmt : s.pmtRewritten = none := by
    cases rewritten : s.pmtRewritten with
    | none => rfl
    | some M' =>
        have := (h.pmt M' rewritten).2.2.1
        rw [absent] at this
        cases this
  exact ⟨pmt, by simp [orgsDone, absent, pmt]⟩

variable (lib) in
theorem tracked_inputStreamReset (r : Input) :
    Tracked lib (uint16 r.channel.basePid) (inputStreamReset lib r).stream ∧
      Known (inputStreamReset lib r).stream := by
  refine ⟨⟨rfl, ?_, ?_, ?_, rfl⟩, ?_⟩
  · intro P' rewritten
    cases rewritten
  · intro M' rewritten
    cases rewritten
  · intro ne
    exact absurd rfl ne
  · intro ne
    exact absurd rfl ne

private theorem tracked_setPat (h : Tracked lib base r.stream) (p : Packet) :
    Tracked lib base (r.setPat (lib.pat.push r.stream.pat p)).stream := by
  cases complete : r.stream.pat.initialized with
  | true =>
      rw [lib.pat.push_initialized _ _ complete]
      exact h
  | false =>
      have absent : r.stream.patRewritten = none := by
        cases rewritten : r.stream.patRewritten with
        | none => rfl
        | some P' => simp [(h.pat P' rewritten).2] at complete
      have unknown : r.stream.pmtPid = 0 := by
        by_contra known
        simp [(h.pmtPid known).1] at complete
      obtain ⟨pmt, nil⟩ := h.orgsDone_nil absent
      refine ⟨?_, ?_, ?_, ?_, h.eit⟩
      · rw [show orgsDone (r.setPat (lib.pat.push r.stream.pat p)).stream = [] by
          simp [orgsDone, Input.setPat, absent, pmt], ← nil]
        exact h.pidref
      · intro P' rewritten
        exact absurd (absent.symm.trans rewritten) (by simp)
      · intro M' rewritten
        exact absurd (pmt.symm.trans rewritten) (by simp)
      · intro known
        exact absurd unknown known

theorem tracked_setPmt (h : Tracked lib base r.stream) (p : Packet) :
    Tracked lib base (r.setPmt (lib.pmt.push r.stream.pmt p)).stream := by
  cases complete : r.stream.pmt.initialized with
  | true =>
      rw [lib.pmt.push_initialized _ _ complete]
      exact h
  | false =>
      have absent : r.stream.pmtRewritten = none := by
        cases rewritten : r.stream.pmtRewritten with
        | none => rfl
        | some M' => simp [(h.pmt M' rewritten).2.1] at complete
      refine ⟨?_, h.pat, ?_, h.pmtPid, h.eit⟩
      · have same : orgsDone (r.setPmt (lib.pmt.push r.stream.pmt p)).stream =
            orgsDone r.stream := by
          simp [orgsDone, Input.setPmt, absent]
        rw [same]
        exact h.pidref
      · intro M' rewritten
        exact absurd (absent.symm.trans rewritten) (by simp)

private theorem tracked_pushLastPat (h : Tracked lib base r.stream) (p : Packet) :
    Tracked lib base (pushLastPat lib r p).stream := ⟨h.pidref, h.pat, h.pmt, h.pmtPid, h.eit⟩

theorem tracked_pushLastPmt (h : Tracked lib base r.stream) (p : Packet) :
    Tracked lib base (pushLastPmt lib r p).stream := ⟨h.pidref, h.pat, h.pmt, h.pmtPid, h.eit⟩

private theorem tracked_parsePat (h : Tracked lib base r.stream)
    (complete : r.stream.pat.initialized = true) : Tracked lib base (parsePat r).2.stream := by
  rw [parsePat]
  split
  · rename_i unknown
    obtain ⟨nitPid, pmtPid, same⟩ := inputProcessPat_frame r.stream
    have found := scanPrograms_pmtPid { r.stream with nitPid := 0x10 } 0 r.stream.pat.programs
    rw [← inputProcessPat_snd] at found
    rw [stream_onStream]
    rw [same] at found ⊢
    refine ⟨h.pidref, h.pat, ?_, ?_, h.eit⟩
    · intro M' rewritten
      exact absurd unknown (h.pmt M' rewritten).2.2.2.1
    · intro known
      refine ⟨complete, ?_⟩
      cases first : (patOrgs r.stream.pat.programs).find? (fun pid => pid ≠ 0) with
      | none =>
          rw [first] at found
          exact absurd (found.trans unknown) known
      | some pid =>
          rw [first] at found
          exact congrArg some found.symm
  · exact h

private theorem tracked_inputRewritePat (h : Tracked lib base r.stream)
    (complete : r.stream.pat.initialized = true) (absent : r.stream.patRewritten = none) :
    Tracked lib base (inputRewritePat lib r).stream := by
  obtain ⟨pmt, nil⟩ := h.orgsDone_nil absent
  have table := h.pidref
  rw [nil] at table
  rw [inputRewritePat]
  rw [lib.pat.copy_initialized _ complete]
  refine ⟨?_, ?_, ?_, h.pmtPid, h.eit⟩
  · simp only [rewritePrograms_pidref, orgsDone, pmt, Option.isSome_some, Option.isSome_none,
      if_true, Bool.false_eq_true, if_false, List.append_nil, table]
    rfl
  · rintro P' same
    obtain rfl := Option.some.inj same
    rw [lib.pat_regenerate_initialized]
    exact ⟨complete, complete⟩
  · intro M' rewritten
    exact absurd (pmt.symm.trans rewritten) (by simp)

theorem Tracked.pidref_patTable (h : Tracked lib base s) (pat : s.patRewritten.isSome = true)
    (absent : s.pmtRewritten = none) : s.pidref = patTable base s := by
  have done : orgsDone s = patOrgs s.pat.programs := by simp [orgsDone, pat, absent]
  rw [h.pidref, done]
  rfl

theorem tracked_inputRewritePmt (h : Tracked lib base r.stream)
    (complete : r.stream.pmt.initialized = true) (absent : r.stream.pmtRewritten = none)
    (pat : r.stream.patRewritten.isSome = true) (known : r.stream.pmtPid ≠ 0) :
    Tracked lib base (inputRewritePmt lib r).stream := by
  have table : r.stream.pidref = patTable base r.stream := h.pidref_patTable pat absent
  have rewritten : (inputRewritePmt lib r).stream.pmtRewritten = _ :=
    pmtRewritten_inputRewritePmt complete
  have after : orgsDone (inputRewritePmt lib r).stream =
      patOrgs r.stream.pat.programs ++ pmtOrgs r.stream.pmt := by
    simp only [orgsDone, rewritten, patRewritten_inputRewritePmt, pat_inputRewritePmt,
      pmt_inputRewritePmt, pat, Option.isSome_some, if_true]
  refine ⟨?_, ?_, ?_, ?_, eitRewritten_inputRewritePmt.trans h.eit⟩
  · rw [pidref_inputRewritePmt complete, after, table, assignPids_append]
    rfl
  · rw [patRewritten_inputRewritePmt, pat_inputRewritePmt]
    exact h.pat
  · intro M' same
    obtain rfl := Option.some.inj (rewritten.symm.trans same)
    rw [patRewritten_inputRewritePmt, pmt_inputRewritePmt, pmtPid_inputRewritePmt]
    refine ⟨?_, complete, pat, known, ?_, ?_⟩
    · rw [lib.pmt_regenerate_initialized]
      exact complete
    · rw [lib.pmt_regenerate_headerPid, patTable, pat_inputRewritePmt, table]
      rfl
    · intro small p member
      rw [lib.pmt_regenerate_headerPid] at small ⊢
      exact lib.pmt_packets_pid _ small p member
  · rw [pmtPid_inputRewritePmt, pat_inputRewritePmt]
    exact h.pmtPid

private theorem tracked_emitPat (h : Tracked lib base r.stream) :
    Tracked lib base (emitPat lib r).stream := by
  rw [emitPat]
  split
  · rename_i P rewritten
    split
    · refine ⟨?_, ?_, ?_, h.pmtPid, h.eit⟩
      · apply h.pidref.trans
        rw [orgsDone]
        rw [rewritten]
        rfl
      · rintro P' same
        obtain rfl := Option.some.inj same
        exact h.pat P rewritten
      · intro M' pmt
        obtain ⟨ready, complete, -, rest⟩ := h.pmt M' pmt
        exact ⟨ready, complete, rfl, rest⟩
    · exact h
  · exact h

private theorem tracked_emitPmt (h : Tracked lib base r.stream) :
    Tracked lib base (emitPmt lib r).stream := by
  rcases emitPmt_cases lib r with same | ⟨M, rewritten, -, same⟩
  · rw [same]
    exact h
  · obtain ⟨ready, complete, pat, known, header, pids⟩ := h.pmt M rewritten
    rw [same, stream_inputBufferAdd]
    refine ⟨?_, h.pat, ?_, h.pmtPid, h.eit⟩
    · apply h.pidref.trans
      rw [orgsDone]
      rw [rewritten]
      rfl
    · rintro M' other
      obtain rfl := Option.some.inj other
      exact ⟨ready, complete, pat, known, header, fun small =>
        pid_setConts lib.toTsFuncs (pids small)⟩

private theorem patRewritten_emitPat (r : Input) :
    (emitPat lib r).stream.patRewritten.isSome = r.stream.patRewritten.isSome := by
  obtain ⟨cont, P, same, initialized⟩ := emitPat_frame lib r
  rw [same]
  simpa using congrArg Option.isSome initialized

private theorem Tracked.pat_absent (h : Tracked lib base s)
    (again : ¬ s.patRewritten.any TsPat.initialized = true) : s.patRewritten = none := by
  cases rewritten : s.patRewritten with
  | none => rfl
  | some P' => simp [rewritten, (h.pat P' rewritten).1] at again

theorem Tracked.pmt_absent (h : Tracked lib base s)
    (again : ¬ s.pmtRewritten.any TsPmt.initialized = true) : s.pmtRewritten = none := by
  cases rewritten : s.pmtRewritten with
  | none => rfl
  | some M' => simp [rewritten, (h.pmt M' rewritten).1] at again

private theorem parsePat_fst (r : Input) : (parsePat r).1 = 1 := by
  rw [parsePat]
  split
  · exact inputProcessPat_fst _
  · rfl

private theorem pat_parsePat (r : Input) : (parsePat r).2.stream.pat = r.stream.pat := by
  obtain ⟨_, _, same⟩ := parsePat_frame r
  rw [same]
  rfl

theorem isSome_of_any {α : Type} {q : α → Bool} {o : Option α} (any : o.any q = true) :
    o.isSome = true := by
  cases o with
  | none => cases any
  | some _ => rfl

theorem tracked_processPat (h : Tracked lib base r.stream) (known : Known r.stream) (pid : ℕ)
    (p : Packet) : Tracked lib base (processPat lib r pid p).2.1.stream ∧
      Known (processPat lib r pid p).2.1.stream := by
  have pushed := tracked_setPat h p
  have noted := tracked_pushLastPat pushed p
  rw [processPat]
  dsimp only
  split_ifs with other incomplete changed complete failed again
  · exact ⟨h, known⟩
  · exact ⟨pushed, known⟩
  · exact ⟨pushed, known⟩
  · exact absurd failed (by rw [parsePat_fst]; norm_num)
  · refine ⟨tracked_emitPat (tracked_parsePat noted complete), fun _ => ?_⟩
    rw [patRewritten_emitPat]
    exact isSome_of_any again
  · have parsed := tracked_parsePat noted complete
    have whole : (parsePat (pushLastPat lib (r.setPat (lib.pat.push r.stream.pat p))
        p)).2.stream.pat.initialized = true := by
      rw [pat_parsePat]
      exact complete
    have rewritten := tracked_inputRewritePat parsed whole (parsed.pat_absent again)
    refine ⟨tracked_emitPat rewritten, fun _ => ?_⟩
    rw [patRewritten_emitPat, patRewritten_inputRewritePat whole]
    rfl
  · exact ⟨noted, known⟩

private theorem patRewritten_emitPmt (r : Input) :
    (emitPmt lib r).stream.patRewritten = r.stream.patRewritten := by
  rcases emitPmt_cases lib r with same | ⟨M, -, -, same⟩
  · rw [same]
  · rw [same, stream_inputBufferAdd]
    rfl

theorem tracked_processPmt (h : Tracked lib base r.stream) (known : Known r.stream) (pid : ℕ)
    (p : Packet) : Tracked lib base (processPmt lib r pid p).2.stream ∧
      Known (processPmt lib r pid p).2.stream := by
  have pushed := tracked_setPmt h p
  have noted := tracked_pushLastPmt pushed p
  rw [processPmt]
  dsimp only
  split_ifs with other incomplete changed complete again
  · exact ⟨h, known⟩
  · exact ⟨pushed, known⟩
  · exact ⟨pushed, known⟩
  · have found : r.stream.pmtPid ≠ 0 := by
      rintro zero
      rw [zero] at other
      omega
    refine ⟨tracked_emitPmt noted, fun _ => ?_⟩
    rw [patRewritten_emitPmt]
    exact known found
  · have found : r.stream.pmtPid ≠ 0 := by
      rintro zero
      rw [zero] at other
      omega
    have rewritten := tracked_inputRewritePmt noted complete (noted.pmt_absent again)
      (known found) found
    refine ⟨tracked_emitPmt rewritten, fun _ => ?_⟩
    rw [patRewritten_emitPmt, patRewritten_inputRewritePmt]
    exact known found
  · exact ⟨noted, known⟩

theorem tracked_processEit (h : Tracked lib base r.stream) (known : Known r.stream) (p : Packet) :
    Tracked lib base (processEit lib conf r p).2.stream ∧
      Known (processEit lib conf r p).2.stream := by
  rcases processEit_cases conf p h.eit with same | same | ⟨-, same⟩
  · rw [same]
    exact ⟨h, known⟩
  · rw [same]
    exact ⟨⟨h.pidref, h.pat, h.pmt, h.pmtPid, h.eit⟩, known⟩
  · rw [same, stream_emitEit]
    exact ⟨⟨h.pidref, h.pat, h.pmt, h.pmtPid, rfl⟩, known⟩

theorem forwardPacket_stream (r : Input) (pid : ℕ) (p : Packet) :
    (forwardPacket lib r pid p).stream = (notePcr lib r pid p).stream := by
  rw [forwardPacket]
  dsimp only
  split_ifs
  · exact stream_inputBufferAdd lib _ _
  · exact stream_inputBufferAdd lib _ _
  · rfl

private theorem tracked_forwardPacket (h : Tracked lib base r.stream) (known : Known r.stream)
    (pid : ℕ)
    (p : Packet) : Tracked lib base (forwardPacket lib r pid p).stream ∧
      Known (forwardPacket lib r pid p).stream := by
  rw [forwardPacket_stream]
  rw [notePcr]
  split
  · exact ⟨⟨h.pidref, h.pat, h.pmt, h.pmtPid, h.eit⟩, known⟩
  · exact ⟨h, known⟩

theorem tracked_inputPacket (h : Tracked lib base r.stream) (known : Known r.stream) (p : Packet) :
    Tracked lib base (inputPacket lib conf r p).2.stream ∧
      Known (inputPacket lib conf r p).2.stream := by
  cases alive : r.dienow with
  | true =>
      rw [inputPacket_of_dead alive]
      exact ⟨h, known⟩
  | false =>
      by_cases pid : lib.getPid p = 0
      · rw [inputPacket_of_pat alive pid]
        exact tracked_processPat h known 0 p
      · obtain ⟨after, still⟩ := tracked_processPmt h known (lib.getPid p) p
        rw [inputPacket_of_other alive pid]
        dsimp only
        split_ifs
        · exact ⟨after, still⟩
        · exact ⟨after, still⟩
        · exact tracked_processEit after still p
        · exact ⟨after, still⟩
        · exact tracked_forwardPacket after still _ p

end Mptsd.Intake.StreamInvariant
