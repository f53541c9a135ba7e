/- Unit: Mptsd/Intake/Programs
   source: src/input.c (input_process_pat)
   digest: What the scan of a PAT takes from it, and which PATs it understands. -/

import Mptsd.Intake.Rewrite
import Mptsd.Sections

set_option autoImplicit false
set_option relaxedAutoImplicit false

namespace Mptsd.Intake.Programs

open Mptsd.Channels (sampleChannel)
open Mptsd.PsiTables (TsPatProgram)
open Mptsd.Sections (sectionLibs samplePat)
open Mptsd.Intake.Model
open Mptsd.Intake.Rewrite (inputProcessPat_fst inputProcessPat_snd)

/-- An entry of a program, as opposed to one of the NIT or one without a PID. -/
def namesProgram (prg : TsPatProgram) : Bool := prg.program ≠ 0 && prg.pid ≠ 0

/-- The PIDs of the programs, in the order of the table. -/
def programPids (programs : List TsPatProgram) : List ℕ :=
  (programs.filter namesProgram).map TsPatProgram.pid

/-- The PIDs of the NIT entries, in the order of the table. -/
def nitPids (programs : List TsPatProgram) : List ℕ :=
  (programs.filter (fun prg => prg.program = 0 && prg.pid ≠ 0)).map TsPatProgram.pid

/-- The entries before the first program. -/
def beforeProgram (programs : List TsPatProgram) : List TsPatProgram :=
  programs.takeWhile (fun prg => !namesProgram prg)

/-- The PAT of the stream is taken for what it says: its NIT is found wherever it stands, the PMT
is that of its first program, and a table of several programs is refused. -/
structure Understood (s : InputStream) : Prop where
  nit : nitPids s.pat.programs ≠ [] → (inputProcessPat s).2.nitPid ∈ nitPids s.pat.programs
  default : nitPids s.pat.programs = [] → (inputProcessPat s).2.nitPid = 0x10
  pmt : ∀ pid, (programPids s.pat.programs).head? = some pid → (inputProcessPat s).2.pmtPid = pid
  refused : (inputProcessPat s).1 = 0 ↔ 1 < (programPids s.pat.programs).length

variable (s : InputStream) (n : ℕ) (programs : List TsPatProgram)

private theorem scanPrograms_nitPid :
    (scanPrograms s n programs).1.nitPid =
      ((nitPids (beforeProgram programs)).getLast?).getD s.nitPid := by
  induction programs generalizing s with
  | nil => rfl
  | cons prg rest ih =>
      by_cases none : prg.pid = 0
      · simpa [scanPrograms, beforeProgram, nitPids, namesProgram, none] using ih s
      · by_cases nit : prg.program = 0
        · have rest_eq := ih { s with nitPid := prg.pid }
          simp only [beforeProgram, nitPids] at rest_eq
          simp [scanPrograms, beforeProgram, nitPids, namesProgram, none, nit, rest_eq,
            List.getLast?_cons]
        · simp [scanPrograms, beforeProgram, nitPids, namesProgram, none, nit]

private theorem scanPrograms_head :
    (scanPrograms s n programs).1.pmtPid = ((programPids programs).head?).getD s.pmtPid := by
  induction programs generalizing s with
  | nil => rfl
  | cons prg rest ih =>
      by_cases none : prg.pid = 0
      · simpa [scanPrograms, programPids, namesProgram, none] using ih s
      · by_cases nit : prg.program = 0
        · simpa [scanPrograms, programPids, namesProgram, none, nit] using
            ih { s with nitPid := prg.pid }
        · simp [scanPrograms, programPids, namesProgram, none, nit]

private theorem nitPids_beforeProgram {pid : ℕ} (member : pid ∈ nitPids (beforeProgram programs)) :
    pid ∈ nitPids programs := by
  obtain ⟨prg, inside, rfl⟩ := List.mem_map.mp member
  obtain ⟨before, nit⟩ := List.mem_filter.mp inside
  apply List.mem_map_of_mem
  exact List.mem_filter.mpr ⟨List.takeWhile_subset _ before, nit⟩

/-- The scan ends at the first program: it never counts a second one, and sees no NIT behind. -/
theorem understood_iff :
    Understood s ↔ (programPids s.pat.programs).length ≤ 1 ∧
      (nitPids s.pat.programs = [] ∨ nitPids (beforeProgram s.pat.programs) ≠ [] ∨
        0x10 ∈ nitPids s.pat.programs) := by
  have nitPid := scanPrograms_nitPid { s with nitPid := 0x10 } 0 s.pat.programs
  have pmtPid := scanPrograms_head { s with nitPid := 0x10 } 0 s.pat.programs
  rw [← inputProcessPat_snd] at nitPid pmtPid
  have accepted := inputProcessPat_fst s
  constructor
  · intro h
    have single : ¬ 1 < (programPids s.pat.programs).length := by
      rw [← h.refused, accepted]
      norm_num
    refine ⟨by omega, ?_⟩
    by_cases none : nitPids s.pat.programs = []
    · exact Or.inl none
    · by_cases hidden : nitPids (beforeProgram s.pat.programs) = []
      · have found := h.nit none
        rw [nitPid, hidden] at found
        exact Or.inr (Or.inr found)
      · exact Or.inr (Or.inl hidden)
  · rintro ⟨single, nits⟩
    refine ⟨?_, ?_, ?_, ?_⟩
    · intro some
      rw [nitPid]
      cases last : (nitPids (beforeProgram s.pat.programs)).getLast? with
      | none =>
          rw [List.getLast?_eq_none_iff] at last
          rcases nits with none | seen | default
          · exact absurd none some
          · exact absurd last seen
          · exact default
      | some pid => exact nitPids_beforeProgram _ (List.mem_of_getLast? last)
    · intro none
      have unseen : nitPids (beforeProgram s.pat.programs) = [] := by
        apply List.eq_nil_iff_forall_not_mem.mpr
        intro pid member
        have := nitPids_beforeProgram _ member
        simp [none] at this
      rw [nitPid, unseen]
      rfl
    · intro pid first
      rw [pmtPid, first]
      rfl
    · rw [accepted]
      omega

/-- A stream that has received a PAT of two programs, with its NIT in the last entry. -/
def twoPrograms : InputStream :=
  { (inputNew sectionLibs "a" (sampleChannel 1 0) false).stream with
    pat := samplePat [⟨1, 0x100⟩, ⟨2, 0x200⟩, ⟨0, 0x30⟩] }

/-- It is accepted, and its NIT is looked for on the default PID. -/
theorem two_programs_accepted :
    twoPrograms.pat.initialized = true ∧ (inputProcessPat twoPrograms).1 = 1 ∧
      (inputProcessPat twoPrograms).2.nitPid = 0x10 ∧ ¬ Understood twoPrograms := by
  have two : (programPids twoPrograms.pat.programs).length = 2 := by decide +kernel
  refine ⟨by decide +kernel, by decide +kernel, by decide +kernel, ?_⟩
  intro h
  have refused := h.refused.mpr (by omega)
  rw [inputProcessPat_fst] at refused
  norm_num at refused

end Mptsd.Intake.Programs
