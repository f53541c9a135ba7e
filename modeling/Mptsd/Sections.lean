/- Unit: Mptsd/Sections
   source: src/input.c, src/output_psi.c (the tables they read and write)
   digest: The section syntax of transport streams in packets, and with it one reading of the
   libraries that keeps everything `Libs` asks for. -/

import Mptsd.PsiTables

set_option autoImplicit false
set_option relaxedAutoImplicit false

namespace Mptsd.Sections

open Mptsd.TsPacket (Packet headerFuncs)
open Mptsd.PsiTables

/-- One bit of the division by the CRC polynomial. -/
def crcBit (crc : ℕ) : ℕ :=
  if crc < 2 ^ 31 then crc * 2 else (crc * 2 - 2 ^ 32) ^^^ 0x04c11db7

def crc32 (bytes : List ℕ) : ℕ :=
  bytes.foldl (fun crc byte => crcBit^[8] (crc ^^^ byte * 2 ^ 24)) 0xffffffff

/-- A section body with its CRC behind it. -/
def withCrc (body : List ℕ) : List ℕ :=
  let crc := crc32 body
  body ++ [crc / 2 ^ 24, crc / 2 ^ 16 % 256, crc / 2 ^ 8 % 256, crc % 256]

/-- Packet `j` of a section: only the first starts a payload unit. -/
def sectionPacket (pid j : ℕ) (chunk : List ℕ) : Packet := fun k =>
  if k = 0 then 0x47
  else if k = 1 then .ofNat ((if j = 0 then 0x40 else 0) + pid / 256)
  else if k = 2 then .ofNat pid
  else if k = 3 then .ofNat (0x10 + j % 16)
  else .ofNat (chunk.getD (k - 4) 0xff)

/-- A section as packets, behind a pointer field of zero. -/
def sectionPackets (pid : ℕ) (bytes : List ℕ) : List Packet :=
  if bytes = [] then []
  else
    (List.range ((bytes.length + 184) / 184)).map
      (fun j => sectionPacket pid j (((0 :: bytes).drop (184 * j)).take 184))

theorem pid_sectionPackets {pid : ℕ} (small : pid < 0x2000) {bytes : List ℕ} {p : Packet}
    (member : p ∈ sectionPackets pid bytes) : headerFuncs.getPid p = pid := by
  rw [sectionPackets] at member
  split at member
  · cases member
  · obtain ⟨j, -, rfl⟩ := List.mem_map.mp member
    rw [headerFuncs.getPid_bytes]
    by_cases first : j = 0 <;> simp [sectionPacket, first] <;> omega

def bytesOf (p : Packet) : List ℕ := List.ofFn (fun k => (p k).toNat)

def startsUnit (p : Packet) : Bool := (p 1).toNat / 64 % 2 = 1

def payload (p : Packet) : List ℕ :=
  let rest := (bytesOf p).drop 4
  if (p 3).toNat / 32 % 2 = 1 then rest.drop (1 + (p 4).toNat) else rest

/-- The bytes of the packets gathered so far, from the start of the section on. -/
def sectionData : List Packet → List ℕ
  | [] => []
  | p :: rest => (payload p).drop (1 + (payload p).headD 0) ++ rest.flatMap payload

/-- `section_length`. -/
def sectionLength (data : List ℕ) : ℕ := data.getD 1 0 % 16 * 256 + data.getD 2 0 % 256

/-- The section itself, once all of it is there. -/
def wholeSection (data : List ℕ) : Option (List ℕ) :=
  if 3 ≤ data.length ∧ 3 + sectionLength data ≤ data.length then
    some (data.take (3 + sectionLength data))
  else none

/-- A packet that starts a section of the right table begins a new collection. -/
def gather (wanted : ℕ → Bool) (gathered : List Packet) (p : Packet) : List Packet :=
  if startsUnit p then
    if wanted ((sectionData [p]).headD 0xff) then [p] else gathered
  else if gathered = [] then [] else gathered ++ [p]

def word (hi lo : ℕ) : ℕ := hi % 32 * 256 + lo

def parsePrograms : List ℕ → List TsPatProgram
  | a :: b :: c :: d :: rest => ⟨a * 256 + b, word c d⟩ :: parsePrograms rest
  | _ => []

private theorem length_parsePrograms (l : List ℕ) : 4 * (parsePrograms l).length ≤ l.length := by
  induction l using parsePrograms.induct with
  | case1 a b c d rest ih =>
      simp only [parsePrograms, List.length_cons]
      omega
  | case2 l short => simp [parsePrograms]

/-- The stream loop of a PMT; `fuel` bounds the number of turns. -/
def parseStreams : ℕ → List ℕ → List ℕ
  | fuel + 1, _ :: b :: c :: d :: e :: rest =>
      word b c :: parseStreams fuel (rest.drop (d % 16 * 256 + e))
  | _, _ => []

private theorem length_parseStreams (fuel : ℕ) (l : List ℕ) :
    (parseStreams fuel l).length ≤ fuel := by
  induction fuel, l using parseStreams.induct with
  | case1 fuel a b c d e rest ih =>
      simp only [parseStreams, List.length_cons]
      omega
  | case2 fuel l short =>
      rw [parseStreams]
      · simp
      · exact short

/-- The stream loop written back with other PIDs. -/
def patchStreams : List ℕ → List ℕ → List ℕ
  | pid :: pids, a :: _ :: _ :: d :: e :: rest =>
      [a, 0xe0 + pid / 256, pid % 256, d, e] ++ rest.take (d % 16 * 256 + e) ++
        patchStreams pids (rest.drop (d % 16 * 256 + e))
  | _, _ => []

/-- The bytes between the eight header bytes of a section and its CRC. -/
def sectionBody (bytes : List ℕ) : List ℕ := (bytes.drop 8).take (bytes.length - 12)

def pushPat (t : TsPat) (p : Packet) : TsPat :=
  if t.initialized then t
  else
    let gathered := gather (fun id => id = 0x00) t.gathered p
    match wholeSection (sectionData gathered) with
    | none => { t with gathered }
    | some bytes =>
        { t with
          initialized := true
          programs := parsePrograms (sectionBody bytes)
          packets := gathered
          gathered }

def regeneratePat (t : TsPat) : TsPat :=
  let bytes := (wholeSection (sectionData t.gathered)).getD []
  { t with
    packets := if bytes = [] then [] else
      sectionPackets 0 (withCrc (bytes.take 8 ++ t.programs.flatMap (fun prg =>
        [prg.program / 256, prg.program % 256, 0xe0 + prg.pid / 256, prg.pid % 256]))) }

/-- Where the stream loop of a PMT begins within the section body. -/
def streamsAt (body : List ℕ) : ℕ := 4 + (body.getD 2 0 % 16 * 256 + body.getD 3 0)

def pushPmt (t : TsPmt) (p : Packet) : TsPmt :=
  if t.initialized then t
  else
    let gathered := gather (fun id => id = 0x02) t.gathered p
    match wholeSection (sectionData gathered) with
    | none => { t with gathered }
    | some bytes =>
        let body := sectionBody bytes
        { t with
          initialized := true
          headerPid := headerFuncs.getPid p
          tsIdNumber := bytes.getD 3 0 * 256 + bytes.getD 4 0
          pcrPid := word (body.getD 0 0) (body.getD 1 0)
          streams := parseStreams 1024 (body.drop (streamsAt body))
          packets := gathered
          gathered }

def regeneratePmt (t : TsPmt) : TsPmt :=
  let bytes := (wholeSection (sectionData t.gathered)).getD []
  let body := sectionBody bytes
  { t with
    packets := if bytes = [] then [] else
      sectionPackets t.headerPid (withCrc (bytes.take 3 ++
        [t.tsIdNumber / 256, t.tsIdNumber % 256] ++ (bytes.drop 5).take 3 ++
        [0xe0 + t.pcrPid / 256, t.pcrPid % 256] ++ (body.take (streamsAt body)).drop 2 ++
        patchStreams t.streams (body.drop (streamsAt body)))) }

def pushEit (t : TsEit) (p : Packet) : TsEit :=
  if t.initialized then t
  else
    let gathered := gather (fun id => 0x4e ≤ id && id ≤ 0x6f) t.gathered p
    match wholeSection (sectionData gathered) with
    | none => { t with gathered }
    | some bytes =>
        { t with
          initialized := true
          tsIdNumber := bytes.getD 3 0 * 256 + bytes.getD 4 0
          transportStreamId := bytes.getD 8 0 * 256 + bytes.getD 9 0
          packets := gathered
          gathered }

def regenerateEit (t : TsEit) : TsEit :=
  let bytes := (wholeSection (sectionData t.gathered)).getD []
  { t with
    packets := if bytes = [] then [] else
      sectionPackets 0x12 (withCrc (bytes.take 8 ++
        [t.transportStreamId / 256, t.transportStreamId % 256] ++ (sectionBody bytes).drop 2)) }

private theorem length_wholeSection {data bytes : List ℕ}
    (whole : wholeSection data = some bytes) : bytes.length < 4099 := by
  rw [wholeSection] at whole
  split at whole
  · obtain rfl := Option.some.inj whole
    rw [List.length_take]
    rw [sectionLength]
    omega
  · cases whole

private theorem programs_pushPat (t : TsPat) (p : Packet) (before : t.initialized = false)
    (after : (pushPat t p).initialized = true) : (pushPat t p).programs.length ≤ 1024 := by
  rw [pushPat] at after ⊢
  simp only [before, Bool.false_eq_true, if_false] at after ⊢
  cases whole : wholeSection (sectionData (gather (fun id => id = 0x00) t.gathered p)) with
  | none => simp [whole] at after
  | some bytes =>
      have size := length_wholeSection whole
      have programs := length_parsePrograms (sectionBody bytes)
      have body : (sectionBody bytes).length ≤ bytes.length - 12 := by
        simp [sectionBody]
      simp only
      omega

private theorem streams_pushPmt (t : TsPmt) (p : Packet) (before : t.initialized = false)
    (after : (pushPmt t p).initialized = true) : (pushPmt t p).streams.length ≤ 1024 := by
  rw [pushPmt] at after ⊢
  simp only [before, Bool.false_eq_true, if_false] at after ⊢
  cases whole : wholeSection (sectionData (gather (fun id => id = 0x02) t.gathered p)) with
  | none => simp [whole] at after
  | some bytes => exact length_parseStreams 1024 _

/-- The libraries, reading and writing sections byte by byte. -/
def sectionLibs : Libs where
  toTsFuncs := headerFuncs
  pat :=
    { alloc := ⟨false, [], [], 0, []⟩
      push := pushPat
      isSame := fun a b => a.programs = b.programs
      copy := some
      regenerate := regeneratePat
      alloc_initialized := rfl
      push_initialized := fun t p initialized => by simp [pushPat, initialized]
      copy_initialized := fun _ _ => rfl }
  pmt :=
    { alloc := ⟨false, 0, 0, 0, [], [], 0, []⟩
      push := pushPmt
      isSame := fun a b => a.pcrPid = b.pcrPid ∧ a.streams = b.streams
      copy := some
      regenerate := regeneratePmt
      alloc_initialized := rfl
      push_initialized := fun t p initialized => by simp [pushPmt, initialized]
      copy_initialized := fun _ _ => rfl }
  eit :=
    { alloc := ⟨false, 0, 0, [], 0, []⟩
      push := pushEit
      isSame := fun a b => sectionData a.gathered = sectionData b.gathered
      copy := some
      regenerate := regenerateEit
      alloc_initialized := rfl
      push_initialized := fun t p initialized => by simp [pushEit, initialized]
      copy_initialized := fun _ _ => rfl }
  cbufAccepts size stored datasize := stored + datasize ≤ size
  shutdownFd fd := if fd < 0 then ([], fd) else ([fd], -1)
  pat_regenerate _ := rfl
  pmt_regenerate _ := rfl
  eit_regenerate _ := rfl
  pmt_packets_pid t small p member := by
    simp only [regeneratePmt] at member
    split at member
    · cases member
    · exact pid_sectionPackets small member
  eit_packets_pid t p member := by
    simp only [regenerateEit] at member
    split at member
    · cases member
    · exact pid_sectionPackets (by norm_num) member
  pat_programs_le := programs_pushPat
  pmt_streams_le := streams_pushPmt
  shutdownFd_shut _ shut := by simp [shut]
  shutdownFd_open _ open_ := if_neg (not_lt.mpr open_)

/-- A PAT with these programs, as the broadcaster's packets. -/
def patPackets (programs : List TsPatProgram) : List Packet :=
  sectionPackets 0 (withCrc ([0x00, 0xb0 + (9 + 4 * programs.length) / 256,
    (9 + 4 * programs.length) % 256, 0, 1, 0xc1, 0, 0] ++ programs.flatMap (fun prg =>
      [prg.program / 256, prg.program % 256, 0xe0 + prg.pid / 256, prg.pid % 256])))

/-- The PMT of `program` on `pid`, with streams of MPEG-2 video. -/
def pmtPackets (pid program pcrPid : ℕ) (streams : List ℕ) : List Packet :=
  sectionPackets pid (withCrc ([0x02, 0xb0 + (13 + 5 * streams.length) / 256,
    (13 + 5 * streams.length) % 256, program / 256, program % 256, 0xc1, 0, 0,
    0xe0 + pcrPid / 256, pcrPid % 256, 0xf0, 0] ++ streams.flatMap (fun s =>
      [0x02, 0xe0 + s / 256, s % 256, 0xf0, 0])))

/-- A present/following EIT of `service` without events; it fits in one packet. -/
def eitPacket (service : ℕ) : Packet :=
  sectionPacket 0x12 0 (0 :: withCrc [0x4e, 0xf0, 15, service / 256, service % 256, 0xc1, 0, 0,
    0, 9, 0, 9, 0, 0x4e])

/-- The PAT read back from its packets. -/
def samplePat (programs : List TsPatProgram) : TsPat :=
  (patPackets programs).foldl sectionLibs.pat.push sectionLibs.pat.alloc

/-- The PMT read back from its packets. -/
def samplePmt (pid program pcrPid : ℕ) (streams : List ℕ) : TsPmt :=
  (pmtPackets pid program pcrPid streams).foldl sectionLibs.pmt.push sectionLibs.pmt.alloc

/-- A packet that carries only a PCR, `base` ticks of 90 kHz. -/
def pcrPacket (pid base : ℕ) : Packet :=
  headerFuncs.setPcr (fun k =>
    if k = 0 then 0x47 else if k = 1 then .ofNat (pid / 256) else if k = 2 then .ofNat pid
    else if k = 3 then 0x20 else if k = 4 then 183 else if k = 5 then 0x10 else 0xff) (base * 300)

/-- A payload packet without adaptation field. -/
def payloadPacket (pid : ℕ) : Packet := fun k =>
  if k = 0 then 0x47 else if k = 1 then .ofNat (pid / 256) else if k = 2 then .ofNat pid
  else if k = 3 then 0x10 else 0xff

end Mptsd.Sections
