/- Unit: Mptsd/Psi/Schedule
   source: src/output_psi.c (output_psi_add, output_handle_psi), src/data.h (OUTPUT)
   digest: When the PSI thread hands on each of its tables, and how often. -/

import Mptsd.Lib.Periodic
import Mptsd.Psi.Refused

set_option autoImplicit false
set_option relaxedAutoImplicit false

namespace Mptsd.Psi.Schedule

open Mptsd.Conf (Config)
open Mptsd.Intake.Model (Input)
open Mptsd.Lib.Periodic
open Mptsd.Psi.Model
open Mptsd.Psi.Refused
open Mptsd.PsiTables
open Mptsd.Sections (sectionLibs)
open Mptsd.TsPacket (TsFuncs)

/-- The tables that have a time and a timeout of their own. -/
inductive Table
  | pat | nit | sdt | tdt | tot | eit
  deriving DecidableEq

/-- `timeval_diff_msec`, with times in microseconds. -/
structure TimevalDiff where
  msec : ℕ → ℕ → ℕ
  msec_of_le : ∀ a b, a ≤ b → msec a b = (b - a) / 1000

/-- A table that was handed on, with the calls that did so. -/
structure Sent (ts : TsFuncs) where
  table : Table
  time : ℕ
  calls : List (PsiCall ts)

/-- The part of `OUTPUT` the PSI thread works on: `stamps` are `pat_ts` .. `eit_ts`. `sent` is not a
field of the source. -/
structure PsiThread (ts : TsFuncs) where
  stamps : Table → ℕ
  psi : PsiOutput ts
  psibuf : Cbuf
  sent : List (Sent ts)

/-- What one pass of the loop meets: the clock, the times put into TDT and TOT, the tables of the
inputs behind `config_load_epg`, and what the mixer takes out of the buffer before each table. -/
structure Pass (ts : TsFuncs) where
  now : ℕ
  tdtTime : ℤ
  totTime : ℤ
  eits : List (Option (PsiTable ts 0x12))
  takes : Table → ℕ

variable (lib : Libs) (tf : TimeFuncs lib.toTsFuncs) (diff : TimevalDiff) (timeouts : Table → ℕ)

/-- One table of `output_psi_add`. -/
def addWhenDue (table : Table) (calls : List (PsiCall lib.toTsFuncs)) (pass : Pass lib.toTsFuncs)
    (o : PsiThread lib.toTsFuncs) : PsiThread lib.toTsFuncs :=
  let o := { o with psibuf := (fun b => (cbufGet b).2)^[pass.takes table] o.psibuf }
  if diff.msec (o.stamps table) pass.now ≥ timeouts table then
    let added := calls.foldl (fun s call => psiCall lib tf s.1 s.2 call) (o.psi, o.psibuf)
    { stamps := Function.update o.stamps table pass.now
      psi := added.1
      psibuf := added.2
      sent := o.sent ++ [⟨table, pass.now, calls⟩] }
  else o

def outputPsiAdd (o : PsiThread lib.toTsFuncs) (pass : Pass lib.toTsFuncs) :
    PsiThread lib.toTsFuncs :=
  let o := addWhenDue lib tf diff timeouts .pat [.pat] pass o
  let o := addWhenDue lib tf diff timeouts .nit [.nit] pass o
  let o := addWhenDue lib tf diff timeouts .sdt [.sdt] pass o
  let o := addWhenDue lib tf diff timeouts .tdt [.tdt pass.tdtTime] pass o
  let o := addWhenDue lib tf diff timeouts .tot [.tot pass.totTime] pass o
  addWhenDue lib tf diff timeouts .eit (pass.eits.map .eit) pass o

/-- The loop of `output_handle_psi`. -/
def outputHandlePsi (o : PsiThread lib.toTsFuncs) (passes : List (Pass lib.toTsFuncs)) :
    PsiThread lib.toTsFuncs :=
  passes.foldl (outputPsiAdd lib tf diff timeouts) o

/-- The tables in the order of `output_psi_add`. -/
def tables : List Table := [.pat, .nit, .sdt, .tdt, .tot, .eit]

/-- The generators' calls for a table. -/
def callsOf {ts : TsFuncs} (pass : Pass ts) : Table → List (PsiCall ts)
  | .pat => [.pat]
  | .nit => [.nit]
  | .sdt => [.sdt]
  | .tdt => [.tdt pass.tdtTime]
  | .tot => [.tot pass.totTime]
  | .eit => pass.eits.map .eit

/-- The timeout of a table is over. -/
def Due (stamps : Table → ℕ) (now : ℕ) (table : Table) : Prop :=
  timeouts table ≤ diff.msec (stamps table) now

instance (stamps : Table → ℕ) (now : ℕ) (table : Table) :
    Decidable (Due diff timeouts stamps now table) :=
  inferInstanceAs (Decidable (timeouts table ≤ diff.msec (stamps table) now))

/-- What a pass does on the tables for one of them: the mixer takes packets, and if the table is due
its generator is called. -/
def tableSteps {lib : Libs} (stamps : Table → ℕ) (pass : Pass lib.toTsFuncs) (table : Table) :
    List (TablesStep lib) :=
  List.replicate (pass.takes table) .takePsi ++
    if Due diff timeouts stamps pass.now table then (callsOf pass table).map .psi else []

/-- What a pass hands on of one table. -/
def tableSent {ts : TsFuncs} (stamps : Table → ℕ) (pass : Pass ts) (table : Table) :
    List (Sent ts) :=
  if Due diff timeouts stamps pass.now table then [⟨table, pass.now, callsOf pass table⟩] else []

/-- The times of the tables after a pass. -/
def stampsAfter (stamps : Table → ℕ) (now : ℕ) (table : Table) : ℕ :=
  if Due diff timeouts stamps now table then now else stamps table

/-- The steps of the loop: pass by pass, each table in its place. -/
def loopSteps {lib : Libs} :
    (Table → ℕ) → List (Pass lib.toTsFuncs) → List (TablesStep lib)
  | _, [] => []
  | stamps, pass :: rest =>
      tables.flatMap (tableSteps diff timeouts stamps pass) ++
        loopSteps (stampsAfter diff timeouts stamps pass.now) rest

def loopSent {ts : TsFuncs} : (Table → ℕ) → List (Pass ts) → List (Sent ts)
  | _, [] => []
  | stamps, pass :: rest =>
      tables.flatMap (tableSent diff timeouts stamps pass) ++
        loopSent (stampsAfter diff timeouts stamps pass.now) rest

section work

variable {lib tf diff timeouts} {conf : Config} {inputs : ℕ → Input}
  {o o' : PsiThread lib.toTsFuncs} {pass : Pass lib.toTsFuncs}

/-- Of the tables, a pass has looked at those in `done`. -/
structure LookedAt (tf : TimeFuncs lib.toTsFuncs) (diff : TimevalDiff) (timeouts : Table → ℕ)
    (pass : Pass lib.toTsFuncs) (done : List Table) (o o' : PsiThread lib.toTsFuncs) : Prop where
  state : ∀ (conf : Config) (inputs : ℕ → Input),
    (done.flatMap (tableSteps diff timeouts o.stamps pass)).foldl (tablesStep lib conf tf)
      ⟨o.psi, o.psibuf, inputs⟩ = ⟨o'.psi, o'.psibuf, inputs⟩
  sent : o'.sent = o.sent ++ done.flatMap (tableSent diff timeouts o.stamps pass)
  stamps : ∀ table, o'.stamps table =
    if table ∈ done then stampsAfter diff timeouts o.stamps pass.now table else o.stamps table

private theorem foldl_takes (n : ℕ) (psi : PsiOutput lib.toTsFuncs) (psibuf : Cbuf) :
    (List.replicate n TablesStep.takePsi).foldl (tablesStep lib conf tf) ⟨psi, psibuf, inputs⟩ =
      ⟨psi, (fun b => (cbufGet b).2)^[n] psibuf, inputs⟩ := by
  induction n generalizing psibuf with
  | zero => rfl
  | succ n ih => exact ih (cbufGet psibuf).2

private theorem foldl_calls (calls : List (PsiCall lib.toTsFuncs)) (psi : PsiOutput lib.toTsFuncs)
    (psibuf : Cbuf) :
    (calls.map TablesStep.psi).foldl (tablesStep lib conf tf) ⟨psi, psibuf, inputs⟩ =
      ⟨(calls.foldl (fun s call => psiCall lib tf s.1 s.2 call) (psi, psibuf)).1,
        (calls.foldl (fun s call => psiCall lib tf s.1 s.2 call) (psi, psibuf)).2, inputs⟩ := by
  induction calls generalizing psi psibuf with
  | nil => rfl
  | cons call rest ih => exact ih _ _

private theorem LookedAt.next {done : List Table}
    (h : LookedAt tf diff timeouts pass done o o') {table : Table}
    (new : table ∉ done) :
    LookedAt tf diff timeouts pass (done ++ [table]) o
      (addWhenDue lib tf diff timeouts table (callsOf pass table) pass o') := by
  have old : o'.stamps table = o.stamps table := by rw [h.stamps, if_neg new]
  have due : diff.msec (o'.stamps table) pass.now ≥ timeouts table ↔
      Due diff timeouts o.stamps pass.now table := by rw [old, Due, ge_iff_le]
  have others : ∀ other, other ≠ table → (other ∈ done ++ [table] ↔ other ∈ done) := by
    intro other apart
    simp [apart]
  rw [addWhenDue]
  dsimp only
  rw [if_congr due rfl rfl]
  refine ⟨?state, ?sent, ?times⟩
  case state =>
    intro conf inputs
    rw [List.flatMap_append, List.foldl_append, h.state, List.flatMap_singleton, tableSteps,
      List.foldl_append, foldl_takes]
    split_ifs
    · exact foldl_calls _ _ _
    · rfl
  case sent =>
    rw [List.flatMap_append, List.flatMap_singleton, tableSent]
    split_ifs
    · rw [← List.append_assoc, ← h.sent]
    · rw [List.append_nil, h.sent]
  case times =>
    intro other
    rcases eq_or_ne other table with rfl | apart
    · have inside : other ∈ done ++ [other] := List.mem_append_right _ List.mem_cons_self
      rw [if_pos inside, stampsAfter]
      split_ifs
      · exact Function.update_self ..
      · exact old
    · rw [if_congr (others other apart) rfl rfl, ← h.stamps]
      split_ifs
      · exact Function.update_of_ne apart ..
      · rfl

private theorem looked_outputPsiAdd (tf : TimeFuncs lib.toTsFuncs) (diff : TimevalDiff)
    (timeouts : Table → ℕ) (o : PsiThread lib.toTsFuncs) (pass : Pass lib.toTsFuncs) :
    LookedAt tf diff timeouts pass tables o
      (outputPsiAdd lib tf diff timeouts o pass) := by
  have none : LookedAt tf diff timeouts pass [] o o :=
    ⟨fun _ _ => rfl, (List.append_nil _).symm, fun _ => (if_neg List.not_mem_nil).symm⟩
  have pat := none.next (by decide : Table.pat ∉ _)
  have nit := pat.next (by decide : Table.nit ∉ _)
  have sdt := nit.next (by decide : Table.sdt ∉ _)
  have tdt := sdt.next (by decide : Table.tdt ∉ _)
  have tot := tdt.next (by decide : Table.tot ∉ _)
  exact tot.next (by decide : Table.eit ∉ _)

private theorem stamps_outputPsiAdd (o : PsiThread lib.toTsFuncs) (pass : Pass lib.toTsFuncs) :
    (outputPsiAdd lib tf diff timeouts o pass).stamps =
      stampsAfter diff timeouts o.stamps pass.now := by
  funext table
  have each : table ∈ tables := by cases table <;> decide
  rw [(looked_outputPsiAdd tf diff timeouts o pass).stamps, if_pos each]

/-- What the PSI thread does is a run of the generators' model: in every pass, table by table in
their order, the generator is called if the table is due, and at no other time. -/
theorem psi_follows (conf : Config) (inputs : ℕ → Input) (o : PsiThread lib.toTsFuncs)
    (passes : List (Pass lib.toTsFuncs)) :
    let o' := outputHandlePsi lib tf diff timeouts o passes
    (loopSteps diff timeouts o.stamps passes).foldl (tablesStep lib conf tf)
        ⟨o.psi, o.psibuf, inputs⟩ = ⟨o'.psi, o'.psibuf, inputs⟩ ∧
      o'.sent = o.sent ++ loopSent diff timeouts o.stamps passes := by
  induction passes generalizing o with
  | nil => exact ⟨rfl, (List.append_nil _).symm⟩
  | cons pass rest ih =>
      have looked := looked_outputPsiAdd tf diff timeouts o pass
      obtain ⟨state, sent⟩ := ih (outputPsiAdd lib tf diff timeouts o pass)
      rw [stamps_outputPsiAdd] at state sent
      refine ⟨?_, ?_⟩
      · rw [loopSteps, List.foldl_append, looked.state]
        exact state
      · change (outputHandlePsi lib tf diff timeouts
          (outputPsiAdd lib tf diff timeouts o pass) rest).sent = _
        rw [sent, looked.sent, List.append_assoc, loopSent]

end work

/-- A table as a timer. -/
def timer {ts : TsFuncs} (table : Table) (o : PsiThread ts) : Timer where
  last := o.stamps table
  fired := o.sent.countP fun s => s.table = table

section time

variable {lib tf diff timeouts} {o : PsiThread lib.toTsFuncs} {pass : Pass lib.toTsFuncs}

private theorem countP_tableSent (stamps : Table → ℕ) (table : Table) :
    (tables.flatMap (tableSent diff timeouts stamps pass)).countP (·.table = table) =
      if Due diff timeouts stamps pass.now table then 1 else 0 := by
  have each : ∀ other, (tableSent diff timeouts stamps pass other).countP (·.table = table) =
      if other = table ∧ Due diff timeouts stamps pass.now table then 1 else 0 := by
    intro other
    rw [tableSent]
    rcases eq_or_ne other table with rfl | apart
    · split_ifs <;> simp_all
    · split_ifs <;> simp_all
  rw [List.countP_flatMap]
  cases table <;> simp [tables, each]

private theorem timer_outputPsiAdd (past : ∀ table, o.stamps table ≤ pass.now) (table : Table) :
    timer table (outputPsiAdd lib tf diff timeouts o pass) =
      (timer table o).look (timeouts table * 1000) pass.now := by
  have due : Due diff timeouts o.stamps pass.now table ↔
      timeouts table * 1000 ≤ pass.now - o.stamps table := by
    rw [Due, diff.msec_of_le _ _ (past table), Nat.le_div_iff_mul_le (by norm_num)]
  have looked := looked_outputPsiAdd tf diff timeouts o pass
  rw [timer, stamps_outputPsiAdd, looked.sent, List.countP_append, countP_tableSent, stampsAfter,
    if_congr due rfl rfl, if_congr due rfl rfl, Timer.look, timer]
  split_ifs <;> rfl

private theorem timer_outputHandlePsi (passes : List (Pass lib.toTsFuncs))
    (chain : ∀ table, (o.stamps table :: passes.map Pass.now).IsChain (· ≤ ·)) (table : Table) :
    timer table (outputHandlePsi lib tf diff timeouts o passes) =
      (passes.map Pass.now).foldl (Timer.look (timeouts table * 1000)) (timer table o) := by
  induction passes generalizing o with
  | nil => rfl
  | cons pass rest ih =>
      have past : ∀ other, o.stamps other ≤ pass.now := fun other =>
        (List.isChain_cons_cons.mp (chain other)).1
      have passed : ∀ other,
          (outputPsiAdd lib tf diff timeouts o pass).stamps other ≤ pass.now := by
        intro other
        rw [stamps_outputPsiAdd, stampsAfter]
        split_ifs
        · exact le_rfl
        · exact past other
      have later : ∀ other, ((outputPsiAdd lib tf diff timeouts o pass).stamps other ::
          rest.map Pass.now).IsChain (· ≤ ·) := by
        intro other
        obtain ⟨first, tail⟩ := List.isChain_cons.mp (List.isChain_cons_cons.mp (chain other)).2
        exact List.isChain_cons.mpr ⟨fun y head => (passed other).trans (first y head), tail⟩
      change timer table (outputHandlePsi lib tf diff timeouts
        (outputPsiAdd lib tf diff timeouts o pass) rest) = _
      rw [ih later, timer_outputPsiAdd past]
      rfl

end time

section schedule

/-- Each table goes out about once in its timeout: in any time at most as often as the timeout goes
into it, and less often only by what the passes come late, where no two are more than `step` apart
and none goes back in time. -/
theorem tables_on_time (o : PsiThread lib.toTsFuncs) (new : o.sent = []) (step : ℕ)
    (passes : List (Pass lib.toTsFuncs))
    (chain : ∀ table, (o.stamps table :: passes.map Pass.now).IsChain (Within step))
    (table : Table) :
    let sent := (outputHandlePsi lib tf diff timeouts o passes).sent.countP (·.table = table)
    let span := (passes.map Pass.now).getLastD (o.stamps table) - o.stamps table
    sent * (timeouts table * 1000) ≤ span ∧
      span ≤ sent * (timeouts table * 1000 + step) + timeouts table * 1000 := by
  intro sent span
  have ordered : ∀ other, (o.stamps other :: passes.map Pass.now).IsChain (· ≤ ·) := fun other =>
    (chain other).imp fun _ _ next => next.1
  have counted : sent = (timer table (outputHandlePsi lib tf diff timeouts o passes)).fired := rfl
  have start : timer table o = ⟨o.stamps table, 0⟩ := by rw [timer, new]; rfl
  rw [counted, timer_outputHandlePsi passes ordered table, start]
  exact fired_bounds (chain table)

/-- A PSI thread that has a PAT and nothing else. -/
def sampleThread : PsiThread sectionLibs.toTsFuncs where
  stamps _ := 0
  psi := samplePsi
  psibuf := Cbuf.init 65800
  sent := []

/-- Passes 60 ms apart. -/
def samplePasses : List (Pass sectionLibs.toTsFuncs) :=
  [60000, 120000, 180000, 240000].map fun now =>
    { now, tdtTime := 0, totTime := 0, eits := [], takes := fun _ => 0 }

def sampleDiff : TimevalDiff := ⟨fun a b => (b - a) / 1000, fun _ _ _ => rfl⟩

/-- With a timeout of 100 ms the PAT goes out in every second of them. -/
theorem tables_on_time_pat :
    let sent := (outputHandlePsi sectionLibs sampleTimeFuncs sampleDiff (fun _ => 100) sampleThread
      samplePasses).sent.countP (·.table = .pat)
    sent = 2 ∧ sent * (100 * 1000) ≤ 240000 - 0 ∧
      240000 - 0 ≤ sent * (100 * 1000 + 60000) + 100 * 1000 :=
  ⟨by decide +kernel, tables_on_time sectionLibs sampleTimeFuncs sampleDiff (fun _ => 100)
    sampleThread rfl 60000 samplePasses
    (fun _ => by simp [samplePasses, sampleThread, Within]) .pat⟩

end schedule

end Mptsd.Psi.Schedule
