/- Unit: Mptsd/Psi/Model
   source: src/output_psi.c (output_add_pat .. output_add_eit), src/data.h (OUTPUT)
   digest: The tables the program generates itself, and how they get into the PSI buffer. -/

import Mptsd.PsiTables

set_option autoImplicit false
set_option relaxedAutoImplicit false

namespace Mptsd.Psi.Model

open Mptsd.TsPacket (Packet TsFuncs)
open Mptsd.PsiTables

/-- A generated table: `packets` is `section_header->packet_data`. The TS library puts the PID of
the table and the sync byte on every packet of it. -/
structure PsiTable (ts : TsFuncs) (pid : ℕ) where
  packets : List Packet
  continuity : ℕ
  pids : ∀ p ∈ packets, ts.getPid p = pid
  sync : ∀ p ∈ packets, p 0 = 0x47

private theorem sync_setConts (ts : TsFuncs) {packets : List Packet}
    (sync : ∀ p ∈ packets, p 0 = 0x47)
    (cont : ℕ) : ∀ p ∈ setConts ts cont packets, p 0 = 0x47 := by
  intro p member
  obtain ⟨j, inside, rfl⟩ := List.mem_mapIdx.mp member
  rw [ts.sync_setCont]
  exact sync _ (List.getElem_mem inside)

/-- Setting the continuity counters of a table and of its header. -/
def PsiTable.setCont {ts : TsFuncs} {pid : ℕ} (t : PsiTable ts pid) (cont : ℕ) :
    PsiTable ts pid where
  packets := setConts ts cont t.packets
  continuity := cont
  pids := pid_setConts ts t.pids
  sync := sync_setConts ts t.sync cont

/-- The functions of the TS library that put the time into a table. -/
structure TimeFuncs (ts : TsFuncs) where
  setTime : PsiTable ts 0x14 → ℤ → PsiTable ts 0x14
  setLocaltimeOffset : PsiTable ts 0x14 → ℤ → PsiTable ts 0x14

/-- The part of `OUTPUT` the PSI thread works on, less `psibuf`. `fed` is not a field of the
source: it records the data of every call of `cbuf_fill`, oldest first. -/
structure PsiOutput (ts : TsFuncs) where
  programsNum : ℕ
  pat : PsiTable ts 0x00
  nit : Option (PsiTable ts 0x10)
  sdt : Option (PsiTable ts 0x11)
  tdt : Option (PsiTable ts 0x14)
  tot : Option (PsiTable ts 0x14)
  pidPatCont : ℕ
  pidNitCont : ℕ
  pidSdtCont : ℕ
  pidEitCont : ℕ
  pidTdtCont : ℕ
  fed : List (List Packet)

variable (lib : Libs)

/-- The end of every generator: the counter moves on, and the packets go to the PSI buffer,
whatever this answers. -/
def addTable (fed : List (List Packet)) (cont : ℕ) (psibuf : Cbuf) (packets : List Packet) :
    List (List Packet) × ℕ × Cbuf :=
  (fed ++ [packets], (cont + packets.length) % 16, (cbufFill lib psibuf packets).2)

def outputAddPat (o : PsiOutput lib.toTsFuncs) (psibuf : Cbuf) : PsiOutput lib.toTsFuncs × Cbuf :=
  if o.programsNum = 0 then (o, psibuf)
  else
    let pat := o.pat.setCont o.pidPatCont
    let added := addTable lib o.fed o.pidPatCont psibuf pat.packets
    ({ o with pat, fed := added.1, pidPatCont := added.2.1 }, added.2.2)

def outputAddNit (o : PsiOutput lib.toTsFuncs) (psibuf : Cbuf) : PsiOutput lib.toTsFuncs × Cbuf :=
  match o.nit with
  | none => (o, psibuf)
  | some nit =>
      let nit := nit.setCont o.pidNitCont
      let added := addTable lib o.fed o.pidNitCont psibuf nit.packets
      ({ o with nit := some nit, fed := added.1, pidNitCont := added.2.1 }, added.2.2)

def outputAddSdt (o : PsiOutput lib.toTsFuncs) (psibuf : Cbuf) : PsiOutput lib.toTsFuncs × Cbuf :=
  match o.sdt with
  | none => (o, psibuf)
  | some sdt =>
      let sdt := sdt.setCont o.pidSdtCont
      let added := addTable lib o.fed o.pidSdtCont psibuf sdt.packets
      ({ o with sdt := some sdt, fed := added.1, pidSdtCont := added.2.1 }, added.2.2)

/-- The TDT and the TOT share this function, the PID and the counter; the check is on the TDT. -/
def outputAddPid0x14 (o : PsiOutput lib.toTsFuncs) (psibuf : Cbuf)
    (tdt : PsiTable lib.toTsFuncs 0x14) :
    PsiTable lib.toTsFuncs 0x14 × PsiOutput lib.toTsFuncs × Cbuf :=
  if o.tdt.isNone then (tdt, o, psibuf)
  else
    let tdt := tdt.setCont o.pidTdtCont
    let added := addTable lib o.fed o.pidTdtCont psibuf tdt.packets
    (tdt, { o with fed := added.1, pidTdtCont := added.2.1 }, added.2.2)

variable (tf : TimeFuncs lib.toTsFuncs)

def outputAddTdt (o : PsiOutput lib.toTsFuncs) (psibuf : Cbuf) (time : ℤ) :
    PsiOutput lib.toTsFuncs × Cbuf :=
  match o.tdt with
  | none => (o, psibuf)
  | some tdt =>
      let added := outputAddPid0x14 lib o psibuf (tf.setTime tdt time)
      ({ added.2.1 with tdt := some added.1 }, added.2.2)

def outputAddTot (o : PsiOutput lib.toTsFuncs) (psibuf : Cbuf) (time : ℤ) :
    PsiOutput lib.toTsFuncs × Cbuf :=
  match o.tot with
  | none => (o, psibuf)
  | some tot =>
      let added := outputAddPid0x14 lib o psibuf (tf.setLocaltimeOffset tot time)
      ({ added.2.1 with tot := some added.1 }, added.2.2)

/-- `__output_add_eit`, with an EIT of a channel, which may be missing. -/
def outputAddEit (o : PsiOutput lib.toTsFuncs) (psibuf : Cbuf)
    (eit : Option (PsiTable lib.toTsFuncs 0x12)) : PsiOutput lib.toTsFuncs × Cbuf :=
  match eit with
  | none => (o, psibuf)
  | some eit =>
      let added := addTable lib o.fed o.pidEitCont psibuf (eit.setCont o.pidEitCont).packets
      ({ o with fed := added.1, pidEitCont := added.2.1 }, added.2.2)

/-- The generators, one for each continuity counter. -/
inductive Generator
  | pat | nit | sdt | pid0x14 | eit
  deriving DecidableEq

def Generator.pid : Generator → ℕ
  | .pat => 0x00
  | .nit => 0x10
  | .sdt => 0x11
  | .pid0x14 => 0x14
  | .eit => 0x12

/-- The counter of a generator. -/
def PsiOutput.cont {ts : TsFuncs} (o : PsiOutput ts) : Generator → ℕ
  | .pat => o.pidPatCont
  | .nit => o.pidNitCont
  | .sdt => o.pidSdtCont
  | .pid0x14 => o.pidTdtCont
  | .eit => o.pidEitCont

/-- What the PSI thread may do next. -/
inductive PsiCall (ts : TsFuncs)
  | pat
  | nit
  | sdt
  | tdt (time : ℤ)
  | tot (time : ℤ)
  | eit (table : Option (PsiTable ts 0x12))

def PsiCall.generator {ts : TsFuncs} : PsiCall ts → Generator
  | .pat => .pat
  | .nit => .nit
  | .sdt => .sdt
  | .tdt _ | .tot _ => .pid0x14
  | .eit _ => .eit

def psiCall (o : PsiOutput lib.toTsFuncs) (psibuf : Cbuf) :
    PsiCall lib.toTsFuncs → PsiOutput lib.toTsFuncs × Cbuf
  | .pat => outputAddPat lib o psibuf
  | .nit => outputAddNit lib o psibuf
  | .sdt => outputAddSdt lib o psibuf
  | .tdt time => outputAddTdt lib tf o psibuf time
  | .tot time => outputAddTot lib tf o psibuf time
  | .eit table => outputAddEit lib o psibuf table

/-- What a call does: nothing, or the generator hands on a table stamped with its counter, which
moves on. -/
inductive Called (g : Generator) (o : PsiOutput lib.toTsFuncs) (psibuf : Cbuf)
    (o' : PsiOutput lib.toTsFuncs) (psibuf' : Cbuf) : Prop
  | idle (fed : o'.fed = o.fed) (cont : o'.cont = o.cont) (buf : psibuf' = psibuf)
  | added (t : PsiTable lib.toTsFuncs g.pid)
      (fed : o'.fed = o.fed ++ [setConts lib.toTsFuncs (o.cont g) t.packets])
      (cont : o'.cont = Function.update o.cont g ((o.cont g + t.packets.length) % 16))
      (buf : psibuf' =
        (cbufFill lib psibuf (setConts lib.toTsFuncs (o.cont g) t.packets)).2)

variable {lib}

private theorem Called.handsOn {g : Generator} {o o' : PsiOutput lib.toTsFuncs}
    {psibuf psibuf' : Cbuf} (t : PsiTable lib.toTsFuncs g.pid)
    (fed : o'.fed = o.fed ++ [(t.setCont (o.cont g)).packets])
    (own : o'.cont g = (o.cont g + (t.setCont (o.cont g)).packets.length) % 16)
    (buf : psibuf' = (cbufFill lib psibuf (t.setCont (o.cont g)).packets).2)
    (others : ∀ other, other ≠ g → o'.cont other = o.cont other) :
    Called lib g o psibuf o' psibuf' := by
  have length : (t.setCont (o.cont g)).packets.length = t.packets.length := List.length_mapIdx
  refine .added t fed ?_ buf
  funext other
  rcases eq_or_ne other g with rfl | apart
  · rw [Function.update_self, own, length]
  · rw [Function.update_of_ne apart, others other apart]

private theorem Called.pid0x14 {o o' : PsiOutput lib.toTsFuncs} {psibuf : Cbuf}
    (table : PsiTable lib.toTsFuncs 0x14)
    (fed : o'.fed = (outputAddPid0x14 lib o psibuf table).2.1.fed)
    (cont : o'.cont = (outputAddPid0x14 lib o psibuf table).2.1.cont) :
    Called lib .pid0x14 o psibuf o' (outputAddPid0x14 lib o psibuf table).2.2 := by
  unfold outputAddPid0x14 at fed cont ⊢
  split_ifs at fed cont ⊢
  · exact .idle fed cont rfl
  · refine .handsOn (g := .pid0x14) table fed (congrFun cont _) rfl fun other apart => ?_
    rw [cont]
    cases other <;> trivial

variable (lib)

theorem psiCall_called (o : PsiOutput lib.toTsFuncs) (psibuf : Cbuf)
    (call : PsiCall lib.toTsFuncs) :
    Called lib call.generator o psibuf (psiCall lib tf o psibuf call).1
      (psiCall lib tf o psibuf call).2 := by
  cases call with
  | pat =>
      rw [psiCall, outputAddPat]
      split
      · exact .idle rfl rfl rfl
      · refine .handsOn o.pat rfl rfl rfl fun other apart => ?_
        cases other <;> trivial
  | nit =>
      rw [psiCall, outputAddNit]
      split
      · exact .idle rfl rfl rfl
      · rename_i nit _
        refine .handsOn nit rfl rfl rfl fun other apart => ?_
        cases other <;> trivial
  | sdt =>
      rw [psiCall, outputAddSdt]
      split
      · exact .idle rfl rfl rfl
      · rename_i sdt _
        refine .handsOn sdt rfl rfl rfl fun other apart => ?_
        cases other <;> trivial
  | tdt time =>
      rw [psiCall, outputAddTdt]
      split
      · exact .idle rfl rfl rfl
      · exact .pid0x14 _ rfl rfl
  | tot time =>
      rw [psiCall, outputAddTot]
      split
      · exact .idle rfl rfl rfl
      · exact .pid0x14 _ rfl rfl
  | eit table =>
      cases table with
      | none => exact .idle rfl rfl rfl
      | some eit =>
          refine .handsOn eit rfl rfl rfl fun other apart => ?_
          cases other <;> trivial

end Mptsd.Psi.Model
