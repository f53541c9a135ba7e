/- Unit: Mptsd/Intake/Model
   source: src/input.c, src/data.c (input_new, input_stream_alloc, input_stream_free)
   digest: One input: its stream state, the table handlers, and the body of the packet loop. -/

import Mptsd.Channels
import Mptsd.Conf
import Mptsd.PidTable
import Mptsd.PsiTables

set_option autoImplicit false
set_option relaxedAutoImplicit false

namespace Mptsd.Intake.Model

open Mptsd.TsPacket (Packet stuffedPacket)
open Mptsd.Channels (Channel chansrcNext)
open Mptsd.Conf (Config)
open Mptsd.PidTable
open Mptsd.PsiTables

/-- Storing an `int` in a `uint16_t`. -/
def uint16 (x : ℤ) : ℕ := (x % 2 ^ 16).toNat

/-- `INPUT_STREAM`. -/
structure InputStream where
  pidref : Pidref
  nitPid : ℕ
  pmtPid : ℕ
  pcrPid : ℕ
  pat : TsPat
  pmt : TsPmt
  eit : TsEit
  inputPcr : ℕ
  pidPatCont : ℕ
  pidPmtCont : ℕ
  pidEitCont : ℕ
  patRewritten : Option TsPat
  pmtRewritten : Option TsPmt
  eitRewritten : Option TsEit
  lastPat : TsPat
  lastPmt : TsPmt

/-- `INPUT`, less its sockets. `ifd` says whether an input file is written. `fed` is not a field of
the source: it records the data of every call of `input_buffer_add`, oldest first. -/
structure Input where
  name : String
  channel : Channel
  dienow : Bool
  ifd : Bool
  outputPcrPid : ℕ
  outputLastPcr : ℕ
  outputPcr : ℕ
  outputPcrPacketsNeeded : ℤ
  outputedPackets : ℤ
  disabled : Bool
  inputReady : ℕ
  buf : Cbuf
  stream : InputStream
  fed : List (List Packet)

variable (lib : Libs)

/-- `input_stream_alloc`, on a stream that `input_stream_free` has cleared. The continuity counters
are not touched by either. -/
def inputStreamReset (r : Input) : Input :=
  { r with
    stream :=
      { pidref := pidrefInit 64 (uint16 r.channel.basePid)
        nitPid := 0
        pmtPid := 0
        pcrPid := 0
        pat := lib.pat.alloc
        pmt := lib.pmt.alloc
        eit := lib.eit.alloc
        inputPcr := 0
        pidPatCont := r.stream.pidPatCont
        pidPmtCont := r.stream.pidPmtCont
        pidEitCont := r.stream.pidEitCont
        patRewritten := none
        pmtRewritten := none
        eitRewritten := none
        lastPat := lib.pat.alloc
        lastPmt := lib.pmt.alloc } }

/-- The state `input_new` leaves behind; `ifd` is set when input files are written. -/
def inputNew (name : String) (channel : Channel) (ifd : Bool) : Input :=
  { name
    channel
    dienow := false
    ifd
    outputPcrPid := 0
    outputLastPcr := 0
    outputPcr := 0
    outputPcrPacketsNeeded := 0
    outputedPackets := 0
    disabled := false
    inputReady := 0
    buf := Cbuf.init (1428 * 1316 * 4)
    stream :=
      { pidref := pidrefInit 64 (uint16 channel.basePid)
        nitPid := 0
        pmtPid := 0
        pcrPid := 0
        pat := lib.pat.alloc
        pmt := lib.pmt.alloc
        eit := lib.eit.alloc
        inputPcr := 0
        pidPatCont := 0
        pidPmtCont := 0
        pidEitCont := 0
        patRewritten := none
        pmtRewritten := none
        eitRewritten := none
        lastPat := lib.pat.alloc
        lastPmt := lib.pmt.alloc }
    fed := [] }

/-- The loop of `input_process_pat`, which ends at the first program. -/
def scanPrograms (s : InputStream) (numPrograms : ℕ) :
    List TsPatProgram → InputStream × ℕ
  | [] => (s, numPrograms)
  | prg :: rest =>
      if prg.pid ≠ 0 then
        if prg.program = 0 then scanPrograms { s with nitPid := prg.pid } numPrograms rest
        else ({ s with pmtPid := prg.pid }, numPrograms + 1)
      else scanPrograms s numPrograms rest

def inputProcessPat (s : InputStream) : ℤ × InputStream :=
  let scan := scanPrograms { s with nitPid := 0x10 } 0 s.pat.programs
  if scan.2 > 1 then (0, scan.1) else (1, scan.1)

/-- The loop of `input_rewrite_pat`. -/
def rewritePrograms (serviceId : ℕ) : Pidref → List TsPatProgram → List TsPatProgram × Pidref
  | ref, [] => ([], ref)
  | ref, prg :: rest =>
      if prg.program ≠ 0 then
        let assigned := assignPid ref prg.pid
        let others := rewritePrograms serviceId assigned.2 rest
        (⟨serviceId, assigned.1⟩ :: others.1, others.2)
      else
        let others := rewritePrograms serviceId ref rest
        (prg :: others.1, others.2)

def inputRewritePat (r : Input) : Input :=
  match lib.pat.copy r.stream.pat with
  | none => r
  | some newPat =>
      let rewritten := rewritePrograms (uint16 r.channel.serviceId) r.stream.pidref newPat.programs
      { r with
        stream :=
          { r.stream with
            pidref := rewritten.2
            patRewritten := some (lib.pat.regenerate { newPat with programs := rewritten.1 }) } }

/-- The loop of `input_rewrite_pmt`. -/
def rewriteStreams (orgPcrPid newPcrPid : ℕ) : Pidref → List ℕ → List ℕ × Pidref
  | ref, [] => ([], ref)
  | ref, pid :: rest =>
      if pid = orgPcrPid then
        let others := rewriteStreams orgPcrPid newPcrPid ref rest
        (newPcrPid :: others.1, others.2)
      else
        let assigned := assignPid ref pid
        let others := rewriteStreams orgPcrPid newPcrPid assigned.2 rest
        (assigned.1 :: others.1, others.2)

def inputRewritePmt (r : Input) : Input :=
  match lib.pmt.copy r.stream.pmt with
  | none => r
  | some newPmt =>
      let headerPid := pidrefGetNewPid r.stream.pidref r.stream.pmtPid
      let pcr := assignPid r.stream.pidref newPmt.pcrPid
      let rewritten := rewriteStreams newPmt.pcrPid pcr.1 pcr.2 newPmt.streams
      { r with
        outputPcrPid := pcr.1
        stream :=
          { r.stream with
            pcrPid := newPmt.pcrPid
            pidref := rewritten.2
            pmtRewritten := some (lib.pmt.regenerate
              { newPmt with
                headerPid
                tsIdNumber := uint16 r.channel.serviceId
                pcrPid := pcr.1
                streams := rewritten.1 }) } }

def inputRewriteEit (conf : Config) (r : Input) : Input :=
  match lib.eit.copy r.stream.eit with
  | none => r
  | some newEit =>
      { r with
        stream :=
          { r.stream with
            eitRewritten := some (lib.eit.regenerate
              { newEit with transportStreamId := conf.transportStreamId }) } }

/-- An input whose buffer refused data stays disabled until half of the buffer is free. -/
def inputBufferAdd (r : Input) (data : List Packet) : Input :=
  let r := { r with fed := r.fed ++ [data] }
  if r.dienow then r
  else if r.disabled ∧ ¬ ((r.buf.stored : ℚ) / r.buf.size * 100 ≤ 50) then r
  else
    let filled := cbufFill lib r.buf data
    if filled.1 ≠ 0 then { r with buf := filled.2, disabled := true }
    else { r with buf := filled.2, disabled := false }

@[simp] theorem fed_inputBufferAdd (r : Input) (data : List Packet) :
    (inputBufferAdd lib r data).fed = r.fed ++ [data] := by
  rw [inputBufferAdd]
  dsimp only
  split_ifs <;> rfl

@[simp] theorem stream_inputBufferAdd (r : Input) (data : List Packet) :
    (inputBufferAdd lib r data).stream = r.stream := by
  rw [inputBufferAdd]
  dsimp only
  split_ifs <;> rfl

def Input.onStream (r : Input) (f : InputStream → InputStream) : Input :=
  { r with stream := f r.stream }

@[simp] theorem stream_onStream (r : Input) (f : InputStream → InputStream) :
    (r.onStream f).stream = f r.stream := rfl
@[simp] theorem channel_onStream (r : Input) (f : InputStream → InputStream) :
    (r.onStream f).channel = r.channel := rfl
@[simp] theorem buf_onStream (r : Input) (f : InputStream → InputStream) :
    (r.onStream f).buf = r.buf := rfl
@[simp] theorem fed_onStream (r : Input) (f : InputStream → InputStream) :
    (r.onStream f).fed = r.fed := rfl

def Input.setPat (r : Input) (pat : TsPat) : Input := r.onStream fun s => { s with pat }
def Input.setPmt (r : Input) (pmt : TsPmt) : Input := r.onStream fun s => { s with pmt }
def Input.setEit (r : Input) (eit : TsEit) : Input := r.onStream fun s => { s with eit }

@[simp] theorem channel_setEit (r : Input) (eit : TsEit) :
    (r.setEit eit).channel = r.channel := rfl
@[simp] theorem fed_setEit (r : Input) (eit : TsEit) : (r.setEit eit).fed = r.fed := rfl
@[simp] theorem stream_setEit (r : Input) (eit : TsEit) :
    (r.setEit eit).stream = { r.stream with eit } := rfl

/-- `last_pat` starts over once it was complete, and takes the packet. -/
def pushLastPat (r : Input) (tsPacket : Packet) : Input :=
  r.onStream fun s =>
    let lastPat := if s.lastPat.initialized then lib.pat.alloc else s.lastPat
    { s with lastPat := lib.pat.push lastPat tsPacket }

/-- The PMT PID is looked for until one is known. -/
def parsePat (r : Input) : ℤ × Input :=
  if r.stream.pmtPid = 0 then
    ((inputProcessPat r.stream).1, r.onStream fun s => (inputProcessPat s).2)
  else (1, r)

/-- The rewritten PAT goes to the input file only. -/
def emitPat (r : Input) : Input :=
  match r.stream.patRewritten with
  | some P =>
      if r.ifd ∧ P.initialized then
        r.onStream fun s =>
          { s with
            pidPatCont := (s.pidPatCont + P.packets.length) % 16
            patRewritten := some
              { P with
                packets := setConts lib.toTsFuncs s.pidPatCont P.packets
                continuity := s.pidPatCont } }
      else r
  | none => r

def processPat (r : Input) (pid : ℕ) (tsPacket : Packet) : ℤ × Input × Packet :=
  if pid ≠ 0 then (0, r, tsPacket)
  else
    let pat := lib.pat.push r.stream.pat tsPacket
    let lastPat := r.stream.lastPat
    let r := r.setPat pat
    if lastPat.initialized ∧ ¬ pat.initialized then (-1, r, tsPacket)
    else if lastPat.initialized ∧ ¬ lib.pat.isSame pat lastPat then (-2, r, tsPacket)
    else
      let r := pushLastPat lib r tsPacket
      if pat.initialized then
        let parsed := parsePat r
        let r := parsed.2
        if parsed.1 = 0 then (-2, r, tsPacket)
        else
          let r := if r.stream.patRewritten.any TsPat.initialized then r
            else inputRewritePat lib r
          (1, emitPat lib r, stuffedPacket)
      else (1, r, stuffedPacket)

def pushLastPmt (r : Input) (tsPacket : Packet) : Input :=
  r.onStream fun s =>
    let lastPmt := if s.lastPmt.initialized then lib.pmt.alloc else s.lastPmt
    { s with lastPmt := lib.pmt.push lastPmt tsPacket }

/-- The rewritten PMT takes the place of the packet that completed the PMT. -/
def emitPmt (r : Input) : Input :=
  match r.stream.pmtRewritten with
  | some P =>
      if P.initialized then
        let packets := setConts lib.toTsFuncs r.stream.pidPmtCont P.packets
        let r := r.onStream fun s =>
          { s with
            pidPmtCont := (s.pidPmtCont + P.packets.length) % 16
            pmtRewritten := some { P with packets, continuity := s.pidPmtCont } }
        inputBufferAdd lib r packets
      else r
  | none => r

def processPmt (r : Input) (pid : ℕ) (tsPacket : Packet) : ℤ × Input :=
  if pid = 0 ∨ pid ≠ r.stream.pmtPid then (0, r)
  else
    let pmt := lib.pmt.push r.stream.pmt tsPacket
    let lastPmt := r.stream.lastPmt
    let r := r.setPmt pmt
    if lastPmt.initialized ∧ ¬ pmt.initialized then (-1, r)
    else if lastPmt.initialized ∧ ¬ lib.pmt.isSame pmt lastPmt then (-2, r)
    else
      let r := pushLastPmt lib r tsPacket
      if pmt.initialized then
        let r := if r.stream.pmtRewritten.any TsPmt.initialized then r else inputRewritePmt lib r
        (-1, emitPmt lib r)
      else (1, r)

/-- The rewritten EIT is handed on, and the accumulator is reset for the next EIT packets. -/
def emitEit (r : Input) (P : TsEit) : Input :=
  let packets := setConts lib.toTsFuncs r.stream.pidEitCont P.packets
  let r := r.onStream fun s =>
    { s with
      pidEitCont := (s.pidEitCont + P.packets.length) % 16
      eitRewritten := some { P with packets, continuity := s.pidEitCont } }
  (inputBufferAdd lib r packets).onStream fun s =>
    { s with eit := lib.eit.alloc, eitRewritten := none }

def processEit (conf : Config) (r : Input) (tsPacket : Packet) : ℤ × Input :=
  if r.channel.eitMode = 0 then (-1, r)
  else
    let eit := lib.eit.push r.stream.eit tsPacket
    let r := r.setEit eit
    if eit.initialized then
      if (eit.tsIdNumber : ℤ) ≠ r.channel.serviceId then (-2, r)
      else
        let r := if r.stream.eitRewritten.any TsEit.initialized then r
          else inputRewriteEit lib conf r
        match r.stream.eitRewritten with
        | some P => if P.initialized then (1, emitEit lib r P) else (-3, r)
        | none => (-3, r)
    else (0, r)

/-- How the packet loop goes on after one packet. -/
inductive PacketResult
  | next | reconnect | quit
  deriving DecidableEq

/-- The incoming tables that are not forwarded. -/
def killed (s : InputStream) (pid : ℕ) : Bool :=
  pid = s.nitPid || pid = 0x10 || pid = 0x11 || pid = 0x13 || pid = 0x14 || pid ≥ 0x1fff

/-- The latest PCR of the program, kept once its PMT is known. -/
def notePcr (r : Input) (pid : ℕ) (tsPacket : Packet) : Input :=
  if r.stream.pmtRewritten.isSome ∧ pid = r.stream.pcrPid ∧ lib.hasPcr tsPacket then
    r.onStream fun s => { s with inputPcr := lib.getPcr tsPacket }
  else r

/-- The end of the loop body: packets are forwarded once a PCR has been seen. -/
def forwardPacket (r : Input) (pid : ℕ) (tsPacket : Packet) : Input :=
  let r := notePcr lib r pid tsPacket
  if r.stream.inputPcr ≠ 0 then
    let changed := pidrefChangePacketPid lib.toTsFuncs tsPacket pid r.stream.pidref
    let r := inputBufferAdd lib r [changed.2]
    if r.inputReady = 0 then { r with inputReady := 1 } else r
  else r

/-- The body of the packet loop of `input_stream`. -/
def inputPacket (conf : Config) (r : Input) (tsPacket : Packet) : PacketResult × Input :=
  if r.dienow then (.quit, r)
  else
    let pid := lib.getPid tsPacket
    let afterPat := processPat lib r pid tsPacket
    if afterPat.1 = -2 then (.reconnect, afterPat.2.1)
    else if afterPat.1 < 0 then (.next, afterPat.2.1)
    else
      let tsPacket := afterPat.2.2
      let afterPmt := processPmt lib afterPat.2.1 pid tsPacket
      if afterPmt.1 = -2 then (.reconnect, afterPmt.2)
      else if afterPmt.1 < 0 then (.next, afterPmt.2)
      else
        let r := afterPmt.2
        let pid := lib.getPid tsPacket
        if pid = 0x12 then (.next, (processEit lib conf r tsPacket).2)
        else if killed r.stream pid then (.next, r)
        else (.next, forwardPacket lib r pid tsPacket)

/-- The packets of one read, up to the first that ends the connection. -/
def inputPackets (conf : Config) (r : Input) : List Packet → PacketResult × Input
  | [] => (.next, r)
  | tsPacket :: rest =>
      let after := inputPacket lib conf r tsPacket
      if after.1 = .next then inputPackets conf after.2 rest else after

/-- What happens to an input: its thread works on a packet or reconnects with the next source, the
mixer takes a packet out of the buffer, or everything is stopped. -/
inductive InputStep
  | packet (tsPacket : Packet)
  | reconnect
  | take
  | stop

def inputStep (conf : Config) (r : Input) : InputStep → Input
  | .packet tsPacket => (inputPacket lib conf r tsPacket).2
  | .reconnect => inputStreamReset lib { r with channel := chansrcNext r.channel }
  | .take => { r with buf := (cbufGet r.buf).2 }
  | .stop => { r with dienow := true }

/-- A run of an input, from a state on. -/
def inputRun (conf : Config) (r : Input) (steps : List InputStep) : Input :=
  steps.foldl (inputStep lib conf) r

theorem lasts_packets (packets : List Packet) :
    ∀ step ∈ packets.map InputStep.packet, step ≠ .reconnect := by
  rintro _ member rfl
  obtain ⟨p, -, impossible⟩ := List.mem_map.mp member
  cases impossible

section Step

variable {lib} {conf : Config} {r : Input} {p : Packet}

theorem inputPacket_of_dead (dead : r.dienow = true) :
    inputPacket lib conf r p = (.quit, r) := by
  simp [inputPacket, dead]

private theorem processPat_stuffed (done : 0 ≤ (processPat lib r 0 p).1) :
    (processPat lib r 0 p).2.2 = stuffedPacket := by
  rw [processPat] at done ⊢
  dsimp only at done ⊢
  rw [if_neg (not_not.mpr rfl)] at done ⊢
  split_ifs at done ⊢ <;> first | rfl | (norm_num at done)

theorem inputPacket_of_pat (alive : r.dienow = false) (pid : lib.getPid p = 0) :
    inputPacket lib conf r p =
      (if (processPat lib r 0 p).1 = -2 then .reconnect else .next,
        (processPat lib r 0 p).2.1) := by
  have stuffed : 0 ≤ (processPat lib r 0 p).1 → (processPat lib r 0 p).2.2 = stuffedPacket :=
    processPat_stuffed
  have other : ∀ (r' : Input) (q : Packet), processPmt lib r' 0 q = (0, r') := by
    intro r' q
    simp [processPmt]
  rw [inputPacket]
  simp only [alive, pid, other, Bool.false_eq_true, if_false]
  by_cases reconnect : (processPat lib r 0 p).1 = -2
  · simp [reconnect]
  · by_cases early : (processPat lib r 0 p).1 < 0
    · simp [reconnect, early]
    · have null : lib.getPid (processPat lib r 0 p).2.2 = 0x1fff := by
        rw [stuffed (by omega)]
        exact lib.getPid_stuffing _
      simp [reconnect, early, null, killed]

theorem inputPacket_of_other (alive : r.dienow = false) (pid : lib.getPid p ≠ 0) :
    inputPacket lib conf r p =
      let after := processPmt lib r (lib.getPid p) p
      if after.1 = -2 then (.reconnect, after.2)
      else if after.1 < 0 then (.next, after.2)
      else if lib.getPid p = 0x12 then (.next, (processEit lib conf after.2 p).2)
      else if killed after.2.stream (lib.getPid p) then (.next, after.2)
      else (.next, forwardPacket lib after.2 (lib.getPid p) p) := by
  have pat : processPat lib r (lib.getPid p) p = (0, r, p) := by simp [processPat, pid]
  rw [inputPacket]
  simp only [alive, pat, Bool.false_eq_true, if_false, Int.reduceNeg, Int.reduceEq,
    lt_self_iff_false]

end Step

end Mptsd.Intake.Model
