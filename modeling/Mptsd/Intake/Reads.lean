/- Unit: Mptsd/Intake/Reads
   source: src/input.c (input_stream)
   digest: The buffer of the input thread, its three ways of reading, and which bytes the packet
   loop takes out of it. -/

import Mptsd.Intake.Guard

set_option autoImplicit false
set_option relaxedAutoImplicit false

namespace Mptsd.Intake.Reads

open Mptsd.TsPacket (Packet tsPacketSize framePacketSize rtpHeaderSize)
open Mptsd.Channels (sampleChannel)
open Mptsd.Conf (Config sampleConfig)
open Mptsd.PidTable (pidrefChangePacketPid)
open Mptsd.PsiTables (Libs)
open Mptsd.Sections (sectionLibs payloadPacket)
open Mptsd.Intake.Model

/-- The protocol of a source. -/
inductive ReadMode
  | tcp | udp | rtp
  deriving DecidableEq

namespace ReadMode

/-- Where in `buffer` the read puts its first byte: at `buffer` for RTP, at `buf` otherwise. -/
def offset : ReadMode → ℕ
  | .tcp | .udp => rtpHeaderSize
  | .rtp => 0

/-- The number of bytes asked for. -/
def requested : ReadMode → ℕ
  | .tcp | .udp => framePacketSize
  | .rtp => framePacketSize + rtpHeaderSize

/-- `readen` after a read that returned `n`. -/
def readen : ReadMode → ℕ → ℕ
  | .tcp, n | .udp, n => n
  | .rtp, n => if n > rtpHeaderSize then n - rtpHeaderSize else n

/-- The bytes of a read that belong to packets. -/
def payload : ReadMode → ℕ → ℕ
  | .tcp, n | .udp, n => n
  | .rtp, n => n - rtpHeaderSize

/-- A read that consists of whole packets. -/
def Whole (mode : ReadMode) (n : ℕ) : Prop :=
  tsPacketSize ∣ mode.payload n ∧ (mode = .rtp → rtpHeaderSize < n)

end ReadMode

/-- A byte of `buffer`, with a note which read brought it (0 for none) and whether it came as
payload. -/
structure Cell where
  byte : UInt8
  read : ℕ
  payload : Bool

/-- The input thread. `size` is what the last read returned, `i` the place of the packet loop.
`reads` counts the reads, and `handed` lists the bytes of the packets given to `process_pat`, each
with the number of the read whose loop it was. -/
structure Reader where
  mode : Option ReadMode
  input : Input
  buffer : ℕ → Cell
  size : ℕ
  readen : ℕ
  i : ℕ
  reads : ℕ
  handed : List (ℕ × List Cell)

/-- `buf + i` as a packet. -/
def packetAt (buffer : ℕ → Cell) (i : ℕ) : Packet := fun k => (buffer (rtpHeaderSize + i + k)).byte

/-- The same bytes with their notes. -/
def cellsAt (buffer : ℕ → Cell) (i : ℕ) : List Cell :=
  List.ofFn fun k : Fin 188 => buffer (rtpHeaderSize + i + k)

/-- A packet changed in place. -/
def putPacket (buffer : ℕ → Cell) (i : ℕ) (p : Packet) : ℕ → Cell := fun j =>
  if h : rtpHeaderSize + i ≤ j ∧ j - (rtpHeaderSize + i) < 188 then
    { buffer j with byte := p ⟨j - (rtpHeaderSize + i), h.2⟩ }
  else buffer j

/-- The bytes of read number `k` on top of what was there. -/
def fdread (mode : ReadMode) (k : ℕ) (data : List UInt8) (buffer : ℕ → Cell) : ℕ → Cell := fun j =>
  if h : mode.offset ≤ j ∧ j - mode.offset < data.length then
    ⟨data.get ⟨j - mode.offset, h.2⟩, k, rtpHeaderSize ≤ j⟩
  else buffer j

variable (lib : Libs) (conf : Config)

/-- What the loop body leaves in the place of the packet. -/
def leftPacket (r : Input) (tsPacket : Packet) : Packet :=
  let pid := lib.getPid tsPacket
  let afterPat := processPat lib r pid tsPacket
  if afterPat.1 < 0 then tsPacket
  else
    let tsPacket := afterPat.2.2
    let afterPmt := processPmt lib afterPat.2.1 pid tsPacket
    if afterPmt.1 < 0 then tsPacket
    else
      let pid := lib.getPid tsPacket
      if pid = 0x12 ∨ killed afterPmt.2.stream pid then tsPacket
      else if (notePcr lib afterPmt.2 pid tsPacket).stream.inputPcr ≠ 0 then
        (pidrefChangePacketPid lib.toTsFuncs tsPacket pid afterPmt.2.stream.pidref).2
      else tsPacket

/-- What the thread does next: it connects to a source, reads from it, or makes a turn of the
packet loop; meanwhile the mixer takes packets out of the buffer of the input, and everything may
be stopped. -/
inductive ReaderStep
  | connect (mode : ReadMode)
  | read (data : List UInt8)
  | turn
  | take
  | stop

/-- The connection is given up. -/
def Reader.leave (w : Reader) : Reader := { w with mode := none, readen := 0, i := 0 }

/-- A turn of the packet loop. -/
def packetTurn (w : Reader) : Reader :=
  if w.i < w.readen then
    if w.input.dienow then w.leave
    else
      let tsPacket := packetAt w.buffer w.i
      let after := inputPacket lib conf w.input tsPacket
      let w := { w with
        input := after.2
        buffer := putPacket w.buffer w.i (leftPacket lib w.input tsPacket)
        i := w.i + tsPacketSize
        handed := w.handed ++ [(w.reads, cellsAt w.buffer w.i)] }
      if after.1 = .next then w else w.leave
  else w

/-- A read, once the packet loop has finished. -/
def readMore (w : Reader) (data : List UInt8) : Reader :=
  match w.mode with
  | none => w
  | some mode =>
      if w.i < w.readen then w
      else
        let data := data.take mode.requested
        { w with
          buffer := fdread mode (w.reads + 1) data w.buffer
          size := data.length
          readen := mode.readen data.length
          i := 0
          reads := w.reads + 1 }

def readerStep (w : Reader) : ReaderStep → Reader
  | .connect mode =>
      { w.leave with mode := some mode, input := inputStep lib conf w.input .reconnect }
  | .read data => readMore w data
  | .turn => packetTurn lib conf w
  | .take => { w with input := inputStep lib conf w.input .take }
  | .stop => { w with input := inputStep lib conf w.input .stop }

/-- The thread as it starts; the array on its stack holds arbitrary bytes. -/
def readerNew (input : Input) (stack : ℕ → UInt8) : Reader where
  mode := none
  input
  buffer j := ⟨stack j, 0, false⟩
  size := 0
  readen := 0
  i := 0
  reads := 0
  handed := []

def readerRun (w : Reader) (steps : List ReaderStep) : Reader :=
  steps.foldl (readerStep lib conf) w

/-- All bytes of a packet were brought as payload by the read whose loop it was in. -/
def FromRead (x : ℕ × List Cell) : Prop := ∀ c ∈ x.2, c.read = x.1 ∧ c.payload = true

instance (x : ℕ × List Cell) : Decidable (FromRead x) := by
  rw [FromRead]
  infer_instance

/-- The next turn of the packet loop takes a packet that the payload does not fill. -/
def TakesRagged (w : Reader) : Prop :=
  w.i < w.readen ∧ w.input.dienow = false ∧
    ∃ mode, w.mode = some mode ∧ mode.payload w.size < w.i + tsPacketSize

/-- While the loop runs, the notes tell the last read from everything before it. -/
structure Fresh (w : Reader) : Prop where
  tracks : w.readen ≠ 0 → ∃ mode, w.mode = some mode ∧ w.size ≤ mode.requested ∧
    w.readen = mode.readen w.size ∧
    (∀ j, mode.offset ≤ j → j < mode.offset + w.size →
      (w.buffer j).read = w.reads ∧ (w.buffer j).payload = decide (rtpHeaderSize ≤ j)) ∧
    ∀ j, mode.offset + w.size ≤ j → (w.buffer j).read < w.reads
  older : ∀ j, (w.buffer j).read ≤ w.reads
  aligned : tsPacketSize ∣ w.i

section arithmetic

variable {mode : ReadMode} {n : ℕ}

private theorem exists_ragged_iff (some : 0 < n) :
    (∃ k, tsPacketSize * k < mode.readen n ∧
      mode.payload n < tsPacketSize * k + tsPacketSize) ↔ ¬ mode.Whole n := by
  rw [ReadMode.Whole, tsPacketSize]
  have plain : (∃ k, 188 * k < n ∧ n < 188 * k + 188) ↔ ¬ 188 ∣ n := by
    constructor
    · rintro ⟨k, below, above⟩ ⟨m, rfl⟩
      omega
    · intro rest
      exact ⟨n / 188, by omega, by omega⟩
  cases mode with
  | tcp => simpa [ReadMode.readen, ReadMode.payload] using plain
  | udp => simpa [ReadMode.readen, ReadMode.payload] using plain
  | rtp =>
      simp only [ReadMode.readen, ReadMode.payload, forall_true_left]
      rw [rtpHeaderSize]
      constructor
      · rintro ⟨k, below, above⟩ ⟨⟨m, whole⟩, header⟩
        rw [if_pos header] at below
        omega
      · intro ragged
        by_cases header : n > 12
        · refine ⟨(n - 12) / 188, ?_, ?_⟩
          · rw [if_pos header]
            by_contra stop
            exact ragged ⟨by omega, header⟩
          · omega
        · refine ⟨0, ?_, ?_⟩
          · rw [if_neg header]
            omega
          · omega

end arithmetic

@[simp] theorem read_putPacket (buffer : ℕ → Cell) (i : ℕ) (p : Packet) (j : ℕ) :
    (putPacket buffer i p j).read = (buffer j).read := by
  rw [putPacket]
  split <;> rfl

@[simp] theorem payload_putPacket (buffer : ℕ → Cell) (i : ℕ) (p : Packet) (j : ℕ) :
    (putPacket buffer i p j).payload = (buffer j).payload := by
  rw [putPacket]
  split <;> rfl

variable {lib conf} {w : Reader}

private theorem fromRead_iff (h : Fresh w) (more : w.i < w.readen) :
    FromRead (w.reads, cellsAt w.buffer w.i) ↔
      ∃ mode, w.mode = some mode ∧ w.i + tsPacketSize ≤ mode.payload w.size := by
  obtain ⟨mode, source, -, -, inside, beyond⟩ := h.tracks (by omega)
  constructor
  · intro fromRead
    refine ⟨mode, source, ?_⟩
    by_contra short
    have last : mode.offset + w.size ≤ rtpHeaderSize + w.i + 187 := by
      rw [tsPacketSize] at short
      cases mode with
      | tcp | udp =>
          simp only [ReadMode.payload, ReadMode.offset] at short ⊢
          omega
      | rtp =>
          simp only [ReadMode.payload, ReadMode.offset] at short ⊢
          omega
    have older := beyond _ last
    have member : w.buffer (rtpHeaderSize + w.i + 187) ∈ cellsAt w.buffer w.i :=
      List.mem_ofFn.mpr ⟨187, rfl⟩
    have := (fromRead _ member).1
    omega
  · rintro ⟨mode', source', reaches⟩ c member
    obtain rfl : mode' = mode := Option.some.inj (source'.symm.trans source)
    obtain ⟨k, rfl⟩ := List.mem_ofFn.mp member
    have below := k.isLt
    have covered : mode'.offset ≤ rtpHeaderSize + w.i + k ∧
        rtpHeaderSize + w.i + k < mode'.offset + w.size := by
      rw [tsPacketSize] at reaches
      cases mode' with
      | tcp | udp =>
          simp only [ReadMode.payload, ReadMode.offset] at reaches ⊢
          omega
      | rtp =>
          simp only [ReadMode.payload, ReadMode.offset] at reaches ⊢
          omega
    obtain ⟨read, payload⟩ := inside _ covered.1 covered.2
    refine ⟨read, payload.trans ?_⟩
    simp only [decide_eq_true_eq]
    omega

private theorem Fresh.leave (h : Fresh w) : Fresh w.leave :=
  ⟨fun loop => absurd rfl loop, h.older, dvd_zero _⟩

theorem Fresh.readMore (h : Fresh w) (data : List UInt8) : Fresh (readMore w data) := by
  rw [Reads.readMore]
  cases source : w.mode with
  | none => exact h
  | some mode =>
      dsimp only
      split
      · exact h
      · generalize fetched : data.take mode.requested = data'
        have length : data'.length ≤ mode.requested := by
          rw [← fetched]
          exact List.length_take_le _ _
        refine ⟨fun _ => ⟨mode, rfl, length, rfl, ?_, ?_⟩, ?_, dvd_zero _⟩
        · intro j low high
          dsimp only at high
          have inside : mode.offset ≤ j ∧ j - mode.offset < data'.length := ⟨low, by omega⟩
          simp only [fdread, dif_pos inside]
          exact ⟨trivial, trivial⟩
        · intro j high
          dsimp only at high
          have outside : ¬ (mode.offset ≤ j ∧ j - mode.offset < data'.length) := by omega
          have := h.older j
          simp only [fdread, dif_neg outside]
          omega
        · intro j
          have := h.older j
          simp only [fdread]
          split
          · exact le_rfl
          · omega

private theorem Fresh.packetTurn (h : Fresh w) : Fresh (packetTurn lib conf w) := by
  rw [Reads.packetTurn]
  split
  · split
    · exact h.leave
    · have next : Fresh { w with
          input := (inputPacket lib conf w.input (packetAt w.buffer w.i)).2
          buffer := putPacket w.buffer w.i
            (leftPacket lib w.input (packetAt w.buffer w.i))
          i := w.i + tsPacketSize
          handed := w.handed ++ [(w.reads, cellsAt w.buffer w.i)] } := by
        refine ⟨?_, ?_, Dvd.dvd.add h.aligned (dvd_refl _)⟩
        · simpa using h.tracks
        · simpa using h.older
      dsimp only
      split
      · exact next
      · exact next.leave
  · exact h

private theorem Fresh.readerStep (h : Fresh w) (step : ReaderStep) :
    Fresh (readerStep lib conf w step) := by
  cases step with
  | connect mode => exact ⟨fun loop => absurd rfl loop, h.older, dvd_zero _⟩
  | read data => exact h.readMore data
  | turn => exact h.packetTurn
  | take => exact ⟨h.tracks, h.older, h.aligned⟩
  | stop => exact ⟨h.tracks, h.older, h.aligned⟩

variable (lib conf)

private theorem readerRun_concat (steps : List ReaderStep) (step : ReaderStep) :
    readerRun lib conf w (steps ++ [step]) =
      readerStep lib conf (readerRun lib conf w steps) step := by
  simp [readerRun]

private theorem fresh_run (input : Input) (stack : ℕ → UInt8) (steps : List ReaderStep) :
    Fresh (readerRun lib conf (readerNew input stack) steps) := by
  induction steps using List.reverseRecOn with
  | nil => exact ⟨fun loop => absurd rfl loop, fun _ => le_rfl, dvd_zero _⟩
  | append_singleton steps step ih =>
      rw [readerRun_concat]
      exact ih.readerStep step

variable {lib conf}

private theorem handed_packetTurn (w : Reader) :
    (packetTurn lib conf w).handed = w.handed ++
      if w.i < w.readen ∧ w.input.dienow = false then [(w.reads, cellsAt w.buffer w.i)]
      else [] := by
  rw [packetTurn]
  by_cases more : w.i < w.readen
  · cases dead : w.input.dienow with
    | true => simp [more, Reader.leave]
    | false =>
        simp only [more, if_true, and_self, Bool.false_eq_true, if_false]
        split <;> rfl
  · simp [more]

private theorem handed_readerStep (w : Reader) {step : ReaderStep} (other : step ≠ .turn) :
    (readerStep lib conf w step).handed = w.handed := by
  cases step with
  | connect mode => rfl
  | read data =>
      show (readMore w data).handed = w.handed
      rw [readMore]
      cases w.mode with
      | none => rfl
      | some mode =>
          dsimp only
          split <;> rfl
  | turn => exact absurd rfl other
  | take => rfl
  | stop => rfl

private theorem turn_fromRead_iff (h : Fresh w) :
    (∀ x ∈ (packetTurn lib conf w).handed, FromRead x) ↔
      (∀ x ∈ w.handed, FromRead x) ∧ ¬ TakesRagged w := by
  rw [handed_packetTurn, List.forall_mem_append]
  by_cases taken : w.i < w.readen ∧ w.input.dienow = false
  · obtain ⟨more, alive⟩ := taken
    obtain ⟨mode, source, -⟩ := h.tracks (by omega)
    have whole : FromRead (w.reads, cellsAt w.buffer w.i) ↔ ¬ TakesRagged w := by
      rw [fromRead_iff h more]
      constructor
      · rintro ⟨mode, source, reaches⟩ ⟨-, -, mode', source', short⟩
        obtain rfl : mode' = mode := Option.some.inj (source'.symm.trans source)
        omega
      · intro filled
        refine ⟨mode, source, ?_⟩
        by_contra short
        exact filled ⟨more, alive, mode, source, by omega⟩
    rw [if_pos ⟨more, alive⟩, List.forall_mem_singleton, whole]
  · have idle : ¬ TakesRagged w := fun ragged => taken ⟨ragged.1, ragged.2.1⟩
    simp [taken, idle]

section run

variable (lib conf) (input : Input) (stack : ℕ → UInt8)

/-- The thread after these steps. -/
def readerAfter (steps : List ReaderStep) : Reader :=
  readerRun lib conf (readerNew input stack) steps

/-- Every read that was made in these steps and brought something is a read of whole packets. -/
def AllWhole (steps : List ReaderStep) : Prop :=
  ∀ before data rest mode, steps = before ++ .read data :: rest →
    (readerAfter lib conf input stack before).mode = some mode → data ≠ [] →
    mode.Whole (data.take mode.requested).length

/-- No turn in these steps is ragged. -/
def NoneRagged (steps : List ReaderStep) : Prop :=
  ∀ before rest, steps = before ++ .turn :: rest →
    ¬ TakesRagged (readerAfter lib conf input stack before)

private theorem readerAfter_concat (steps : List ReaderStep) (step : ReaderStep) :
    readerAfter lib conf input stack (steps ++ [step]) =
      readerStep lib conf (readerAfter lib conf input stack steps) step :=
  readerRun_concat lib conf steps step

private theorem noneRagged_concat (steps : List ReaderStep) (step : ReaderStep) :
    NoneRagged lib conf input stack (steps ++ [step]) ↔
      NoneRagged lib conf input stack steps ∧
        (step = .turn → ¬ TakesRagged (readerAfter lib conf input stack steps)) := by
  constructor
  · intro none
    refine ⟨fun before rest split => none before (rest ++ [step]) (by simp [split]), ?_⟩
    rintro rfl
    exact none steps [] rfl
  · rintro ⟨earlier, last⟩ before rest split
    rcases List.eq_nil_or_concat rest with rfl | ⟨rest, z, rfl⟩
    · obtain ⟨same, turn⟩ := List.append_inj' split rfl
      obtain rfl : step = .turn := by simpa using turn
      rw [← same]
      exact last rfl
    · rw [show before ++ .turn :: rest.concat z = (before ++ .turn :: rest) ++ [z] by simp] at split
      exact earlier before rest (List.append_inj' split rfl).1

private theorem handed_fromRead_iff (steps : List ReaderStep) :
    (∀ x ∈ (readerAfter lib conf input stack steps).handed, FromRead x) ↔
      NoneRagged lib conf input stack steps := by
  induction steps using List.reverseRecOn with
  | nil => simp [readerAfter, readerRun, readerNew, NoneRagged]
  | append_singleton steps step ih =>
      have fresh : Fresh (readerAfter lib conf input stack steps) :=
        fresh_run lib conf input stack steps
      rw [noneRagged_concat, ← ih, readerAfter_concat]
      cases step with
      | turn =>
          rw [show readerStep lib conf _ .turn = packetTurn lib conf _ from rfl,
            turn_fromRead_iff fresh]
          simp
      | connect mode => simp [handed_readerStep]
      | read data => simp [handed_readerStep]
      | take => simp [handed_readerStep]
      | stop => simp [handed_readerStep]

/-- While the loop runs over a whole read no turn is ragged. -/
def LoopWhole (w : Reader) : Prop :=
  w.readen ≠ 0 → ∃ mode, w.mode = some mode ∧ mode.Whole w.size

private theorem not_ragged_of_whole {w : Reader} (fresh : Fresh w) (whole : LoopWhole w) :
    ¬ TakesRagged w := by
  rintro ⟨more, -, mode, source, short⟩
  obtain ⟨mode', source', filled⟩ := whole (by omega)
  obtain ⟨mode'', source'', -, readen, -⟩ := fresh.tracks (by omega)
  obtain rfl : mode = mode' := Option.some.inj (source.symm.trans source')
  obtain rfl : mode = mode'' := Option.some.inj (source.symm.trans source'')
  obtain ⟨k, place⟩ := fresh.aligned
  have some : 0 < w.size := by
    by_contra zero
    have : w.size = 0 := by omega
    rw [readen, this] at more
    cases mode <;> simp [ReadMode.readen] at more
  refine (exists_ragged_iff some).mp ⟨k, ?_, ?_⟩ filled
  · rw [← place, ← readen]
    exact more
  · rw [← place]
    exact short

private theorem loopWhole_run {steps : List ReaderStep}
    (all : AllWhole lib conf input stack steps) :
    LoopWhole (readerAfter lib conf input stack steps) ∧ NoneRagged lib conf input stack steps := by
  induction steps using List.reverseRecOn with
  | nil => exact ⟨fun loop => absurd rfl loop, by simp [NoneRagged]⟩
  | append_singleton steps step ih =>
      obtain ⟨whole, none⟩ := ih fun before data rest mode split =>
        all before data (rest ++ [step]) mode (by simp [split])
      have fresh : Fresh (readerAfter lib conf input stack steps) :=
        fresh_run lib conf input stack steps
      refine ⟨?_, (noneRagged_concat lib conf input stack steps step).mpr
        ⟨none, fun _ => not_ragged_of_whole fresh whole⟩⟩
      have now := all steps
      rw [readerAfter_concat]
      generalize readerAfter lib conf input stack steps = w at whole now
      cases step with
      | connect mode => exact fun loop => absurd rfl loop
      | read data =>
          show LoopWhole (readMore w data)
          rw [readMore]
          cases source : w.mode with
          | none => exact whole
          | some mode =>
              dsimp only
              split
              · exact whole
              · intro loop
                refine ⟨mode, rfl, now data [] mode rfl source ?_⟩
                rintro rfl
                apply loop
                cases mode <;> simp [ReadMode.readen]
      | turn =>
          show LoopWhole (packetTurn lib conf w)
          rw [packetTurn]
          split
          · split
            · exact fun loop => absurd rfl loop
            · dsimp only
              split
              · exact whole
              · exact fun loop => absurd rfl loop
          · exact whole
      | take => exact whole
      | stop => exact whole

end run

/-- In every run of the input thread the packets it hands on consist of payload of the read whose
loop they are in exactly when no turn of the loop is ragged, and when all reads are whole none
is. -/
theorem payload_only_iff (lib : Libs) (conf : Config) (input : Input) (stack : ℕ → UInt8)
    (steps : List ReaderStep) :
    ((∀ x ∈ (readerAfter lib conf input stack steps).handed, FromRead x) ↔
        NoneRagged lib conf input stack steps) ∧
      (AllWhole lib conf input stack steps → NoneRagged lib conf input stack steps) :=
  ⟨handed_fromRead_iff lib conf input stack steps,
    fun all => (loopWhole_run lib conf input stack all).2⟩

/-- A datagram with one packet, and one that breaks off after 100 bytes. -/
def brokenOff : List ReaderStep :=
  [.connect .udp, .read (List.ofFn (payloadPacket 0x20)), .turn,
    .read ((List.ofFn (payloadPacket 0x21)).take 100), .turn]

/-- The second packet handed on ends with 88 bytes of the first datagram. -/
theorem stale_bytes_handed :
    ∃ x ∈ (readerAfter sectionLibs (sampleConfig 0)
        (inputNew sectionLibs "tv" (sampleChannel 1 0) false) (fun _ => 0) brokenOff).handed,
      x.1 = 2 ∧ (x.2.filter fun c => c.read = 1).length = 88 ∧ ¬ FromRead x := by
  decide +kernel

end Mptsd.Intake.Reads
