/- Unit: Mptsd/PsiTables
   source: src/input.c, src/output_psi.c (the uses of ts_pat_*, ts_pmt_*, ts_eit_*, cbuf_fill)
   digest: The tables of the TS library, as far as the program reads and writes them, and the
   library functions as parameters with the behaviour the program relies on. -/

import Mptsd.TsPacket
import Mptsd.Lib.Counter
import Mptsd.Lib.Queue

set_option autoImplicit false
set_option relaxedAutoImplicit false

namespace Mptsd.PsiTables

open Mptsd.TsPacket (Packet TsFuncs tsPacketSize)
open Mptsd.Lib.Counter (cyclicRun)
open Mptsd.Lib.Queue (Fifo)

structure TsPatProgram where
  program : ℕ
  pid : ℕ
  deriving DecidableEq

/-- `packets` is `section_header->packet_data`, and `num_packets` its length. `gathered` stands for
what `ts_pat_push_packet` has collected of a table that is not complete yet. -/
structure TsPat where
  initialized : Bool
  programs : List TsPatProgram
  packets : List Packet
  continuity : ℕ
  gathered : List Packet

/-- `headerPid` is `ts_header.pid`, `streams` the PID of every stream. -/
structure TsPmt where
  initialized : Bool
  headerPid : ℕ
  tsIdNumber : ℕ
  pcrPid : ℕ
  streams : List ℕ
  packets : List Packet
  continuity : ℕ
  gathered : List Packet

/-- `tsIdNumber` is the service the events belong to. -/
structure TsEit where
  initialized : Bool
  tsIdNumber : ℕ
  transportStreamId : ℕ
  packets : List Packet
  continuity : ℕ
  gathered : List Packet

/-- The functions the TS library has for each kind of table. A null pointer is `none`. -/
structure TableFuncs (T : Type) (initialized : T → Bool) where
  alloc : T
  push : T → Packet → T
  isSame : T → T → Bool
  copy : T → Option T
  regenerate : T → T
  alloc_initialized : initialized alloc = false
  push_initialized : ∀ t p, initialized t = true → push t p = t
  copy_initialized : ∀ t, initialized t = true → copy t = some t

/-- The libraries the program is linked with. `cbufAccepts size stored datasize` says whether
`cbuf_fill` takes the data; it takes all of it or nothing. `shutdownFd` gives the sockets that
`shutdown_fd` closes, and what it leaves in their place. -/
structure Libs extends TsFuncs where
  pat : TableFuncs TsPat TsPat.initialized
  pmt : TableFuncs TsPmt TsPmt.initialized
  eit : TableFuncs TsEit TsEit.initialized
  cbufAccepts : ℕ → ℕ → ℕ → Bool
  shutdownFd : ℤ → List ℤ × ℤ
  pat_regenerate : ∀ t, pat.regenerate t = { t with packets := (pat.regenerate t).packets }
  pmt_regenerate : ∀ t, pmt.regenerate t = { t with packets := (pmt.regenerate t).packets }
  eit_regenerate : ∀ t, eit.regenerate t = { t with packets := (eit.regenerate t).packets }
  pmt_packets_pid : ∀ t, t.headerPid < 0x2000 →
    ∀ p ∈ (pmt.regenerate t).packets, getPid p = t.headerPid
  eit_packets_pid : ∀ t, ∀ p ∈ (eit.regenerate t).packets, getPid p = 0x12
  pat_programs_le : ∀ t p, t.initialized = false → (pat.push t p).initialized = true →
    (pat.push t p).programs.length ≤ 1024
  pmt_streams_le : ∀ t p, t.initialized = false → (pmt.push t p).initialized = true →
    (pmt.push t p).streams.length ≤ 1024
  shutdownFd_shut : ∀ fd, fd < 0 → (shutdownFd fd).1 = [] ∧ (shutdownFd fd).2 < 0
  shutdownFd_open : ∀ fd, 0 ≤ fd → shutdownFd fd = ([fd], -1)

@[simp] theorem Libs.pat_regenerate_initialized (lib : Libs) (t : TsPat) :
    (lib.pat.regenerate t).initialized = t.initialized := by
  rw [lib.pat_regenerate]

@[simp] theorem Libs.pmt_regenerate_initialized (lib : Libs) (t : TsPmt) :
    (lib.pmt.regenerate t).initialized = t.initialized := by
  rw [lib.pmt_regenerate]

@[simp] theorem Libs.pmt_regenerate_headerPid (lib : Libs) (t : TsPmt) :
    (lib.pmt.regenerate t).headerPid = t.headerPid := by
  rw [lib.pmt_regenerate]

@[simp] theorem Libs.eit_regenerate_initialized (lib : Libs) (t : TsEit) :
    (lib.eit.regenerate t).initialized = t.initialized := by
  rw [lib.eit_regenerate]

/-- The loop every emitter runs over its packets: packet `j` gets the counter `j + cont`. -/
def setConts (ts : TsFuncs) (cont : ℕ) (packets : List Packet) : List Packet :=
  packets.mapIdx (fun j p => ts.setCont p (j + cont))

@[simp] theorem length_setConts (ts : TsFuncs) (cont : ℕ) (packets : List Packet) :
    (setConts ts cont packets).length = packets.length := by
  simp [setConts]

theorem conts_setConts (ts : TsFuncs) (cont : ℕ) (packets : List Packet) :
    (setConts ts cont packets).map ts.getCont = cyclicRun 16 cont packets.length := by
  apply List.ext_getElem
  · simp
  · intro j _ _
    simp [setConts, cyclicRun, ts.getCont_setCont, Nat.add_comm]

theorem pid_setConts (ts : TsFuncs) {cont pid : ℕ} {packets : List Packet}
    (same : ∀ p ∈ packets, ts.getPid p = pid) :
    ∀ p ∈ setConts ts cont packets, ts.getPid p = pid := by
  intro p member
  obtain ⟨j, inside, rfl⟩ := List.mem_mapIdx.mp member
  rw [ts.getPid_setCont]
  exact same _ (List.getElem_mem inside)

/-- A ring buffer of packets: `size` bytes, with the packets read and those still stored.
`refused` counts the fills it turned down. -/
structure Cbuf extends Fifo Packet where
  size : ℕ
  refused : ℕ

namespace Cbuf

/-- `cbuf_init`. -/
def init (size : ℕ) : Cbuf := { taken := [], waiting := [], size, refused := 0 }

/-- `b->input - b->output`. -/
def stored (b : Cbuf) : ℕ := tsPacketSize * b.waiting.length

/-- Append without asking, as the environment of a reader sees it. -/
def append (b : Cbuf) (data : List Packet) : Cbuf := { b with toFifo := b.toFifo.push data }

@[simp] theorem toFifo_append (b : Cbuf) (data : List Packet) :
    (b.append data).toFifo = b.toFifo.push data := rfl
@[simp] theorem refused_append (b : Cbuf) (data : List Packet) :
    (b.append data).refused = b.refused := rfl

@[simp] theorem append_nil (b : Cbuf) : b.append [] = b := by
  cases b
  simp [append]

end Cbuf

/-- The result is zero when the data was stored. -/
def cbufFill (lib : Libs) (b : Cbuf) (data : List Packet) : ℤ × Cbuf :=
  if lib.cbufAccepts b.size b.stored (tsPacketSize * data.length) then (0, b.append data)
  else (-1, { b with refused := b.refused + 1 })

def cbufPeek (b : Cbuf) : Option Packet := b.peek

def cbufGet (b : Cbuf) : Option Packet × Cbuf := (b.pop.1, { b with toFifo := b.pop.2 })

theorem cbufFill_of_not_refused (lib : Libs) (b : Cbuf) (data : List Packet)
    (same : (cbufFill lib b data).2.refused = 0) :
    cbufFill lib b data = (0, b.append data) ∧ b.refused = 0 := by
  rw [cbufFill] at same ⊢
  split
  · rename_i accepted
    simp only [accepted, if_true, Cbuf.refused_append] at same
    exact ⟨rfl, same⟩
  · rename_i rejected
    simp [rejected] at same

theorem filled_cbufFill (lib : Libs) (b : Cbuf) (data : List Packet) :
    (cbufFill lib b data).2.filled = b.filled ++ data ∨
      (cbufFill lib b data).2.filled = b.filled := by
  rw [cbufFill]
  split
  · left
    simp
  · right
    rfl

@[simp] theorem filled_cbufGet (b : Cbuf) : (cbufGet b).2.filled = b.filled :=
  Fifo.filled_pop b.toFifo

@[simp] theorem refused_cbufGet (b : Cbuf) : (cbufGet b).2.refused = b.refused := rfl

theorem cbufGet_of_nil {b : Cbuf} (h : b.waiting = []) : cbufGet b = (none, b) := by
  cases b
  simp_all [cbufGet]

theorem cbufGet_of_cons {b : Cbuf} {p : Packet} {rest : List Packet}
    (h : b.waiting = p :: rest) :
    cbufGet b = (some p, { b with taken := b.taken ++ [p], waiting := rest }) := by
  cases b
  simp [cbufGet, Fifo.pop_of_cons h]

end Mptsd.PsiTables
