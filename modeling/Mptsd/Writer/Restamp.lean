/- Unit: Mptsd/Writer/Restamp
   source: src/output_write.c (ts_frame_process, ts_frame_write, ts_frame_write_rtp)
   digest: The PCRs a run stamps on the packets of one PID, and exactly when they follow the bytes
   sent in between. -/

import Mptsd.Lib.Arith
import Mptsd.Sections
import Mptsd.Writer.Model

set_option autoImplicit false
set_option relaxedAutoImplicit false

namespace Mptsd.Writer.Restamp

open Mptsd.TsPacket
open Mptsd.Conf (Config sampleConfig)
open Mptsd.Lib.Arith (wrapped_difference wrapped_quotient_iff)
open Mptsd.Sections (pcrPacket)
open Mptsd.Writer.Model

/-- A packet with a PCR as it went through: `position` counts all bytes sent before it, `kept` is
the PCR remembered for the next one, `received` and `sent` are the packet before and after. -/
structure Stamp where
  pid : ℕ
  position : ℕ
  orgPcr : ℕ
  kept : ℕ
  received : Packet
  sent : Packet

/-- The writer together with what an observer notes: the bytes sent so far and the stamps. -/
structure Traced where
  output : Output
  total : ℕ
  log : List Stamp

variable (ts : TsFuncs) (conf : Config)

/-- The note about a packet; there is none without a PCR. -/
def stampOf (t : Traced) (i : ℕ) (p : Packet) : Stamp :=
  { pid := ts.getPid p
    position := t.total + i
    orgPcr := ts.getPcr (markNull ts p)
    kept := (tsPacketProcess ts conf t.output i p).2.lastPcr (ts.getPid p)
    received := markNull ts p
    sent := (tsPacketProcess ts conf t.output i p).1 }

def tracePacket (t : Traced) (i : ℕ) (p : Packet) : Traced :=
  { t with
    output := (tsPacketProcess ts conf t.output i p).2
    log := if ts.hasPcr (markNull ts p) then t.log ++ [stampOf ts conf t i p] else t.log }

def traceFrame (t : Traced) (i : ℕ) : Frame → Traced
  | [] => t
  | p :: rest => traceFrame (tracePacket ts conf t i p) (i + tsPacketSize) rest

/-- A whole frame, restamped and written. -/
def traceStep (t : Traced) (x : Frame × FrameIo) : Traced :=
  { output := (handleFrame ts conf t.output x.1 x.2).output
    total := t.total + (handleFrame ts conf t.output x.1 x.2).counted
    log := (traceFrame ts conf t 0 x.1).log }

/-- A run of the writer over frames, from a state on. -/
def traceRun (t : Traced) : List (Frame × FrameIo) → Traced
  | [] => t
  | x :: rest => traceRun (traceStep ts conf t x) rest

/-- The writer as it starts. -/
def traceStart (ofd : Bool) (rtpSsrc : ℕ) : Traced := ⟨outputNew conf ofd rtpSsrc, 0, []⟩

theorem output_traceFrame (t : Traced) (i : ℕ) (frame : Frame) :
    (traceFrame ts conf t i frame).output = (tsFrameProcess ts conf t.output i frame).2 := by
  induction frame generalizing t i with
  | nil => rfl
  | cons p rest ih =>
      rw [traceFrame, ih]
      rfl

/-- The run of the observer is the run of the writer. -/
theorem output_traceRun (t : Traced) (written : ℤ) (frames : List (Frame × FrameIo)) :
    (traceRun ts conf t frames).output = (handleFrames ts conf t.output written frames).2 := by
  induction frames generalizing t written with
  | nil => rfl
  | cons x rest ih => exact ih _ _

/-- The bytes between two stamps. -/
def bytesBetween (a b : Stamp) : ℤ := (b.position : ℤ) - a.position

/-- The product with the bytes between two stamps, as a `uint64_t`. -/
def productBetween (a b : Stamp) : ℕ := (bytesBetween a b * (8 * 27000000) % 2 ^ 64).toNat

/-- What a clock at `x` comes to from one stamp to another: the sum, as an integer. -/
def advanced (a b : Stamp) (x : ℕ) : ℕ := ⌊pcrSum ts x (productBetween a b) conf.outputBitrate⌋₊

/-- What the second of two successive stamps of a PID is made of. -/
structure Follows (a b : Stamp) : Prop where
  near : -1316 < bytesBetween a b
  small : a.kept < 2 ^ 64
  kept : a.kept ≠ 0 → a.orgPcr < b.orgPcr →
    b.kept = advanced ts conf a b a.kept % 2 ^ 64
  sent : a.kept ≠ 0 → a.orgPcr < b.orgPcr → conf.pcrMode = 2 ∨ conf.pcrMode = 3 →
    b.sent = ts.setPcr b.received b.kept
  reset : a.kept = 0 ∨ b.orgPcr ≤ a.orgPcr → b.kept = b.orgPcr ∧ b.sent = b.received

/-- The latest stamp of a PID. -/
def latest (log : List Stamp) (pid : ℕ) : Option Stamp :=
  (log.filter (fun s => s.pid = pid)).getLast?

/-- The invariant of a run, also in the middle of a frame. -/
structure Logged (t : Traced) : Prop where
  bitrate : t.output.outputBitrate = conf.outputBitrate
  traffic : t.output.traffic = t.total % 2 ^ 64
  unseen : ∀ pid, latest t.log pid = none → t.output.lastPcr pid = 0
  seen : ∀ pid s, latest t.log pid = some s → t.output.lastPcr pid = s.kept ∧
    t.output.lastOrgPcr pid = s.orgPcr ∧ t.output.lastTraffic pid = s.position % 2 ^ 64
  near : ∀ s ∈ t.log, s.position < t.total + framePacketSize
  small : ∀ s ∈ t.log, s.kept < 2 ^ 64
  pairs : ∀ before a between b after, t.log = before ++ a :: between ++ b :: after →
    a.pid = b.pid → (∀ s ∈ between, s.pid ≠ a.pid) → Follows ts conf a b
  firsts : ∀ before a after, t.log = before ++ a :: after → (∀ s ∈ before, s.pid ≠ a.pid) →
    a.kept = a.orgPcr ∧ a.sent = a.received

theorem latest_append_singleton (log : List Stamp) (s : Stamp) (pid : ℕ) :
    latest (log ++ [s]) pid = if s.pid = pid then some s else latest log pid := by
  unfold latest
  rw [List.filter_append]
  by_cases same : s.pid = pid
  · simp [same]
  · simp [same]

private theorem latest_between {before between : List Stamp} {a : Stamp}
    (successive : ∀ s ∈ between, s.pid ≠ a.pid) :
    latest (before ++ a :: between) a.pid = some a := by
  have others : between.filter (fun s => s.pid = a.pid) = [] := by
    apply List.filter_eq_nil_iff.mpr
    intro s member
    simpa using successive s member
  rw [latest]
  rw [List.filter_append, List.filter_cons, if_pos (by simp), others]
  simp

private theorem latest_eq_none {log : List Stamp} {pid : ℕ} (absent : ∀ s ∈ log, s.pid ≠ pid) :
    latest log pid = none := by
  have none : log.filter (fun s => s.pid = pid) = [] := by
    apply List.filter_eq_nil_iff.mpr
    intro s member
    simpa using absent s member
  rw [latest, none]
  rfl

theorem mem_of_latest {log : List Stamp} {pid : ℕ} {s : Stamp} (h : latest log pid = some s) :
    s ∈ log :=
  List.mem_of_mem_filter (List.mem_of_getLast? h)

section packet

variable (o : Output) (i : ℕ) (p : Packet)

@[simp] theorem outputBitrate_tsPacketProcess :
    (tsPacketProcess ts conf o i p).2.outputBitrate = o.outputBitrate := by
  rw [tsPacketProcess]
  dsimp only
  split
  · simp [Output.remember]
  · simp

@[simp] theorem traffic_tsPacketProcess :
    (tsPacketProcess ts conf o i p).2.traffic = o.traffic := by
  rw [tsPacketProcess]
  dsimp only
  split
  · simp [Output.remember]
  · simp

theorem tables_of_noPcr (none : ts.hasPcr (markNull ts p) = false) (pid : ℕ) :
    (tsPacketProcess ts conf o i p).2.lastPcr pid = o.lastPcr pid ∧
      (tsPacketProcess ts conf o i p).2.lastOrgPcr pid = o.lastOrgPcr pid ∧
      (tsPacketProcess ts conf o i p).2.lastTraffic pid = o.lastTraffic pid := by
  rw [tsPacketProcess]
  simp [none]

theorem tables_of_pcr (some : ts.hasPcr (markNull ts p) = true) (pid : ℕ) :
    (tsPacketProcess ts conf o i p).2.lastPcr pid =
        (if pid = ts.getPid p then newPcr ts o pid (ts.getPcr (markNull ts p))
          ((o.traffic + i) % 2 ^ 64) else o.lastPcr pid) ∧
      (tsPacketProcess ts conf o i p).2.lastOrgPcr pid =
        (if pid = ts.getPid p then ts.getPcr (markNull ts p) else o.lastOrgPcr pid) ∧
      (tsPacketProcess ts conf o i p).2.lastTraffic pid =
        (if pid = ts.getPid p then (o.traffic + i) % 2 ^ 64 else o.lastTraffic pid) := by
  rw [tsPacketProcess]
  by_cases same : pid = ts.getPid p
  · subst same
    simp [some, Output.remember]
  · simp [some, Output.remember, same]

private theorem sent_of_pcr (some : ts.hasPcr (markNull ts p) = true)
    (seen : o.lastPcr (ts.getPid p) ≠ 0)
    (later : o.lastOrgPcr (ts.getPid p) < ts.getPcr (markNull ts p))
    (rewriting : conf.pcrMode = 2 ∨ conf.pcrMode = 3) :
    (tsPacketProcess ts conf o i p).1 = ts.setPcr (markNull ts p)
      ((tsPacketProcess ts conf o i p).2.lastPcr (ts.getPid p)) := by
  rw [(tables_of_pcr ts conf o i p some _).1, if_pos rfl]
  rw [tsPacketProcess]
  simp only [some, if_true]
  exact if_pos ⟨seen, later, rewriting⟩

private theorem kept_of_reset (some : ts.hasPcr (markNull ts p) = true)
    (first : ¬ (o.lastPcr (ts.getPid p) ≠ 0 ∧
      o.lastOrgPcr (ts.getPid p) < ts.getPcr (markNull ts p))) :
    (tsPacketProcess ts conf o i p).2.lastPcr (ts.getPid p) = ts.getPcr (markNull ts p) ∧
      (tsPacketProcess ts conf o i p).1 = markNull ts p := by
  rw [(tables_of_pcr ts conf o i p some _).1, if_pos rfl]
  refine ⟨if_neg first, ?_⟩
  rw [tsPacketProcess]
  simp only [some, if_true]
  exact if_neg fun both => first ⟨both.1, both.2.1⟩

end packet

private theorem newPcr_lt (o : Output) (pid pcr bytes : ℕ) (small : pcr < 2 ^ 64) :
    newPcr ts o pid pcr bytes < 2 ^ 64 := by
  rw [newPcr]
  split_ifs
  · exact Nat.mod_lt _ (by norm_num)
  · exact small

theorem Logged.follows {t : Traced} (h : Logged ts conf t) {i : ℕ} {p : Packet} {a : Stamp}
    (some : ts.hasPcr (markNull ts p) = true) (last : latest t.log (ts.getPid p) = .some a) :
    Follows ts conf a (stampOf ts conf t i p) := by
  obtain ⟨pcr, org, bytes⟩ := h.seen _ _ last
  have member := mem_of_latest last
  have kept : (stampOf ts conf t i p).kept =
      newPcr ts t.output (ts.getPid p) (ts.getPcr (markNull ts p))
        ((t.output.traffic + i) % 2 ^ 64) := by
    show (tsPacketProcess ts conf t.output i p).2.lastPcr _ = _
    rw [(tables_of_pcr ts conf t.output i p some _).1, if_pos rfl]
  refine ⟨?_, h.small a member, ?_, ?_, ?_⟩
  · have := h.near a member
    show -1316 < ((t.total + i : ℕ) : ℤ) - a.position
    rw [framePacketSize] at this
    omega
  · intro nonzero later
    have position : (t.output.traffic + i) % 2 ^ 64 = (t.total + i) % 2 ^ 64 := by
      rw [h.traffic]
      omega
    have product := wrapped_difference (show 0 < 2 ^ 64 by norm_num) a.position (t.total + i)
      (8 * 27000000)
    rw [kept, newPcr, if_pos ⟨pcr ▸ nonzero, org ▸ later⟩, pcr, bytes, h.bitrate, position,
      Nat.mul_assoc _ 8, product]
    rfl
  · intro nonzero later rewriting
    exact sent_of_pcr ts conf t.output i p some (pcr ▸ nonzero) (org ▸ later) rewriting
  · intro first
    apply kept_of_reset ts conf t.output i p some
    rw [pcr, org]
    rintro ⟨nonzero, later⟩
    rcases first with zero | earlier
    · exact nonzero zero
    · exact absurd later (not_lt.mpr earlier)

theorem Logged.tracePacket {t : Traced} (h : Logged ts conf t) {i : ℕ} (room : i < framePacketSize)
    (p : Packet) : Logged ts conf (tracePacket ts conf t i p) := by
  cases pcr : ts.hasPcr (markNull ts p) with
  | false =>
      have log : (Restamp.tracePacket ts conf t i p).log = t.log := by
        simp [Restamp.tracePacket, pcr]
      have tables := tables_of_noPcr ts conf t.output i p pcr
      constructor
      · exact (outputBitrate_tsPacketProcess ts conf t.output i p).trans h.bitrate
      · exact (traffic_tsPacketProcess ts conf t.output i p).trans h.traffic
      · intro pid first
        exact (tables pid).1.trans (h.unseen pid (log ▸ first))
      · intro pid s last
        obtain ⟨kept, org, bytes⟩ := h.seen pid s (log ▸ last)
        obtain ⟨one, two, three⟩ := tables pid
        exact ⟨one.trans kept, two.trans org, three.trans bytes⟩
      · rw [log]
        exact h.near
      · rw [log]
        exact h.small
      · rw [log]
        exact h.pairs
      · rw [log]
        exact h.firsts
  | true =>
      have log : (Restamp.tracePacket ts conf t i p).log = t.log ++ [stampOf ts conf t i p] := by
        simp [Restamp.tracePacket, pcr]
      have tables := tables_of_pcr ts conf t.output i p pcr
      have position : (t.output.traffic + i) % 2 ^ 64 = (t.total + i) % 2 ^ 64 := by
        rw [h.traffic]
        omega
      constructor
      · exact (outputBitrate_tsPacketProcess ts conf t.output i p).trans h.bitrate
      · exact (traffic_tsPacketProcess ts conf t.output i p).trans h.traffic
      · intro pid first
        rw [log, latest_append_singleton] at first
        split_ifs at first with same
        have other : pid ≠ ts.getPid p := fun e => same e.symm
        exact (tables pid).1.trans ((if_neg other).trans (h.unseen pid first))
      · intro pid s last
        rw [log, latest_append_singleton] at last
        split_ifs at last with same
        · obtain rfl := Option.some.inj last
          obtain rfl : ts.getPid p = pid := same
          obtain ⟨-, two, three⟩ := tables (ts.getPid p)
          refine ⟨rfl, two.trans (if_pos rfl), three.trans ?_⟩
          rw [if_pos rfl, position]
          rfl
        · have other : pid ≠ ts.getPid p := fun e => same e.symm
          obtain ⟨kept, org, bytes⟩ := h.seen pid s last
          obtain ⟨one, two, three⟩ := tables pid
          exact ⟨one.trans ((if_neg other).trans kept), two.trans ((if_neg other).trans org),
            three.trans ((if_neg other).trans bytes)⟩
      · intro s member
        rw [log] at member
        rcases List.mem_append.mp member with old | new
        · exact h.near s old
        · obtain rfl := List.mem_singleton.mp new
          show t.total + i < t.total + framePacketSize
          omega
      · intro s member
        rw [log] at member
        rcases List.mem_append.mp member with old | new
        · exact h.small s old
        · obtain rfl := List.mem_singleton.mp new
          show (tsPacketProcess ts conf t.output i p).2.lastPcr (ts.getPid p) < 2 ^ 64
          rw [(tables _).1, if_pos rfl]
          exact newPcr_lt _ _ _ _ _ (ts.getPcr_lt _)
      · intro before a between b after split same successive
        rw [log] at split
        rcases List.eq_nil_or_concat after with rfl | ⟨after, z, rfl⟩
        · -- the second stamp is the new one
          have parts := List.append_inj' split rfl
          obtain rfl : stampOf ts conf t i p = b := by simpa using parts.2
          have last : latest t.log (ts.getPid p) = some a := by
            rw [parts.1, ← latest_between successive, same]
            rfl
          exact h.follows ts conf pcr last
        · rw [show before ++ a :: between ++ b :: after.concat z =
            (before ++ a :: between ++ b :: after) ++ [z] by simp] at split
          exact h.pairs _ _ _ _ _ (List.append_inj' split rfl).1 same successive
      · intro before a after split absent
        rw [log] at split
        rcases List.eq_nil_or_concat after with rfl | ⟨after, z, rfl⟩
        · have parts := List.append_inj' split rfl
          obtain rfl : stampOf ts conf t i p = a := by simpa using parts.2
          have first : t.output.lastPcr (ts.getPid p) = 0 := by
            apply h.unseen
            rw [parts.1]
            exact latest_eq_none absent
          exact kept_of_reset ts conf t.output i p pcr fun both => both.1 first
        · rw [show before ++ a :: after.concat z = (before ++ a :: after) ++ [z] by simp] at split
          exact h.firsts _ _ _ (List.append_inj' split rfl).1 absent

theorem Logged.traceFrame {t : Traced} (h : Logged ts conf t) {i : ℕ} {frame : Frame}
    (room : i + frame.length * tsPacketSize ≤ framePacketSize) :
    Logged ts conf (traceFrame ts conf t i frame) := by
  induction frame generalizing t i with
  | nil => exact h
  | cons p rest ih =>
      rw [tsPacketSize] at room ih
      rw [List.length_cons] at room
      apply ih
      · exact h.tracePacket ts conf (by omega) p
      · show i + 188 + rest.length * 188 ≤ framePacketSize
        omega

/-- All that a write changes of what the PCRs depend on is the count of the bytes. -/
structure Counted (o o' : Output) (n : ℕ) : Prop where
  bitrate : o'.outputBitrate = o.outputBitrate
  traffic : o'.traffic = (o.traffic + n) % 2 ^ 64
  pcr : o'.lastPcr = o.lastPcr
  org : o'.lastOrgPcr = o.lastOrgPcr
  bytes : o'.lastTraffic = o.lastTraffic

theorem counted_tsFrameWrite {o : Output} (small : o.traffic < 2 ^ 64) (frame : Frame)
    (io : FrameIo) :
    Counted o (tsFrameWrite o frame io).output (tsFrameWrite o frame io).counted := by
  have still : o.traffic = (o.traffic + 0) % 2 ^ 64 := (Nat.mod_eq_of_lt small).symm
  rw [tsFrameWrite]
  dsimp only
  generalize (if (if o.ofd then io.saved else 0) > io.sent then if o.ofd then io.saved else 0
    else io.sent) = written
  by_cases some : written ≥ 0
  · simp only [if_pos some]
    exact ⟨rfl, rfl, rfl, rfl, rfl⟩
  · simp only [if_neg some]
    exact ⟨rfl, still, rfl, rfl, rfl⟩

theorem counted_tsFrameWriteRtp {o : Output} (small : o.traffic < 2 ^ 64) (frame : Frame)
    (io : FrameIo) :
    Counted o (tsFrameWriteRtp o frame io).output (tsFrameWriteRtp o frame io).counted := by
  have still : o.traffic = (o.traffic + 0) % 2 ^ 64 := (Nat.mod_eq_of_lt small).symm
  rw [tsFrameWriteRtp]
  dsimp only
  generalize (if (if o.ofd then io.saved else 0) > io.sent then
    (if o.ofd then io.saved else 0) + (rtpHeaderSize : ℤ) else io.sent) = written
  by_cases some : written ≥ rtpHeaderSize
  · simp only [if_pos some]
    exact ⟨rfl, rfl, rfl, rfl, rfl⟩
  · simp only [if_neg some]
    exact ⟨rfl, still, rfl, rfl, rfl⟩

private theorem counted_handleFrame {o : Output} (frame : Frame) (io : FrameIo)
    (small : (tsFrameProcess ts conf o 0 frame).2.traffic < 2 ^ 64) :
    Counted (tsFrameProcess ts conf o 0 frame).2 (handleFrame ts conf o frame io).output
      (handleFrame ts conf o frame io).counted := by
  unfold handleFrame frameWrite
  dsimp only
  split
  · exact counted_tsFrameWriteRtp small _ io
  · exact counted_tsFrameWrite small _ io

theorem Logged.counted {t : Traced} (h : Logged ts conf t) {o : Output} {n : ℕ}
    (counted : Counted t.output o n) : Logged ts conf ⟨o, t.total + n, t.log⟩ where
  bitrate := counted.bitrate.trans h.bitrate
  traffic := by
    show o.traffic = (t.total + n) % 2 ^ 64
    rw [counted.traffic, h.traffic]
    omega
  unseen := by
    intro pid first
    show o.lastPcr pid = 0
    rw [counted.pcr]
    exact h.unseen pid first
  seen := by
    intro pid s last
    show o.lastPcr pid = _ ∧ o.lastOrgPcr pid = _ ∧ o.lastTraffic pid = _
    rw [counted.pcr, counted.org, counted.bytes]
    exact h.seen pid s last
  near := by
    intro s member
    have := h.near s member
    show s.position < t.total + n + framePacketSize
    omega
  small := h.small
  pairs := h.pairs
  firsts := h.firsts

theorem total_traceFrame (t : Traced) (i : ℕ) (frame : Frame) :
    (traceFrame ts conf t i frame).total = t.total := by
  induction frame generalizing t i with
  | nil => rfl
  | cons p rest ih => exact ih _ _

theorem Logged.traceStep {t : Traced} (h : Logged ts conf t) {x : Frame × FrameIo}
    (whole : x.1.length = 7) : Logged ts conf (traceStep ts conf t x) := by
  have middle : Logged ts conf (Restamp.traceFrame ts conf t 0 x.1) := by
    apply h.traceFrame
    rw [whole]
    rfl
  have small : (tsFrameProcess ts conf t.output 0 x.1).2.traffic < 2 ^ 64 := by
    rw [← output_traceFrame, middle.traffic]
    exact Nat.mod_lt _ (by norm_num)
  have counted := counted_handleFrame ts conf x.1 x.2 small
  rw [← output_traceFrame] at counted
  have done := middle.counted ts conf counted
  rw [total_traceFrame] at done
  exact done

theorem Logged.traceRun {t : Traced} (h : Logged ts conf t) {frames : List (Frame × FrameIo)}
    (whole : ∀ x ∈ frames, x.1.length = 7) : Logged ts conf (traceRun ts conf t frames) := by
  induction frames generalizing t with
  | nil => exact h
  | cons x rest ih =>
      have first : Logged ts conf (Restamp.traceStep ts conf t x) :=
        h.traceStep ts conf (whole x (by simp))
      exact ih first (fun y member => whole y (by simp [member]))

theorem logged_traceStart (ofd : Bool) (rtpSsrc : ℕ) :
    Logged ts conf (traceStart conf ofd rtpSsrc) where
  bitrate := rfl
  traffic := rfl
  unseen := fun _ _ => rfl
  seen := by
    intro pid s last
    cases last
  near := by
    intro s member
    cases member
  small := by
    intro s member
    cases member
  pairs := by
    intro before a between b after split
    simp [traceStart] at split
  firsts := by
    intro before a after split
    simp [traceStart] at split

private theorem Follows.exact_iff {a b : Stamp} (h : Follows ts.exactly conf a b)
    (nonzero : a.kept ≠ 0)
    (later : a.orgPcr < b.orgPcr) :
    (b.kept : ℤ) = a.kept + bytesBetween a b * (8 * 27000000) / conf.outputBitrate ↔
      0 ≤ bytesBetween a b ∧ bytesBetween a b * (8 * 27000000) < 2 ^ 64 ∧
        a.kept + bytesBetween a b * (8 * 27000000) / conf.outputBitrate < 2 ^ 64 := by
  have bitrate := conf.rate.bitrate_bounds
  have near := h.near
  have exact := wrapped_quotient_iff (M := 2 ^ 64) (x := bytesBetween a b * (8 * 27000000))
    (show 2 ≤ conf.outputBitrate by unfold Config.outputBitrate; omega)
    (by unfold Config.outputBitrate; omega) h.small (by push_cast; omega)
  push_cast at exact
  rw [h.kept nonzero later, advanced, floor_pcrSum_exactly, productBetween]
  push_cast
  rw [exact]
  have sign : 0 ≤ bytesBetween a b * 216000000 ↔ 0 ≤ bytesBetween a b := by omega
  rw [sign]

/-- In every run in a mode that rewrites PCRs, with `double` taken as exact, the second of two
successive PCR packets of a PID is stamped with the PCR kept for it, and this is the PCR kept for
the first one advanced by the time of the bytes in between, exactly when these are not counted
backwards, their product fits in 64 bits and so does the sum. -/
theorem restamped_exactly_iff (ofd : Bool) (rtpSsrc : ℕ) (frames : List (Frame × FrameIo))
    (whole : ∀ x ∈ frames, x.1.length = 7) (rewriting : conf.pcrMode = 2 ∨ conf.pcrMode = 3)
    (before between after : List Stamp) (a b : Stamp)
    (run : (traceRun ts.exactly conf (traceStart conf ofd rtpSsrc) frames).log =
      before ++ a :: between ++ b :: after)
    (same : a.pid = b.pid) (successive : ∀ s ∈ between, s.pid ≠ a.pid)
    (nonzero : a.kept ≠ 0) (later : a.orgPcr < b.orgPcr) :
    b.sent = ts.setPcr b.received b.kept ∧
      ((b.kept : ℤ) = a.kept + bytesBetween a b * (8 * 27000000) / conf.outputBitrate ↔
        0 ≤ bytesBetween a b ∧ bytesBetween a b * (8 * 27000000) < 2 ^ 64 ∧
          a.kept + bytesBetween a b * (8 * 27000000) / conf.outputBitrate < 2 ^ 64) := by
  have logged := (logged_traceStart ts.exactly conf ofd rtpSsrc).traceRun ts.exactly conf whole
  have follows := logged.pairs before a between b after run same successive
  exact ⟨follows.sent nonzero later rewriting, follows.exact_iff ts conf nonzero later⟩

private theorem traceRun_append (t : Traced) (xs ys : List (Frame × FrameIo)) :
    traceRun ts conf t (xs ++ ys) = traceRun ts conf (traceRun ts conf t xs) ys := by
  induction xs generalizing t with
  | nil => rfl
  | cons x rest ih => exact ih _

section silence

/-- A frame of stuffing, sent to the last byte. -/
def idle : Frame × FrameIo := (List.replicate 7 nullPacket, ⟨1316, 0, 0⟩)

/-- A frame that starts with `p`, sent to the last byte. -/
def carrying (p : Packet) : Frame × FrameIo := (p :: List.replicate 6 nullPacket, ⟨1316, 0, 0⟩)

theorem noPcr_nullPacket : ts.hasPcr (markNull ts nullPacket) = false := by
  rw [markNull, if_pos (ts.getPid_nullPacket)]
  exact ts.hasPcr_update_three _

/-- A plain UDP output without a file. -/
structure Plain (o : Output) : Prop where
  closed : o.ofd = false
  udp : o.rtpSsrc = 0

theorem Plain.count {o : Output} (plain : Plain o) (n : ℕ) : Plain (o.count n) :=
  ⟨plain.closed, plain.udp⟩

private theorem plain_tsFrameProcess {o : Output} (plain : Plain o) (i : ℕ) (frame : Frame) :
    Plain (tsFrameProcess ts conf o i frame).2 where
  closed := (ofd_tsFrameProcess ts conf o i frame).trans plain.closed
  udp := (rtpSsrc_tsFrameProcess ts conf o i frame).trans plain.udp

private theorem tsFrameWrite_sent {o : Output} (plain : Plain o) (frame : Frame) :
    Plain (tsFrameWrite o frame ⟨1316, 0, 0⟩).output ∧
      (tsFrameWrite o frame ⟨1316, 0, 0⟩).counted = framePacketSize := by
  rw [tsFrameWrite]
  simp only [plain.closed, Bool.false_eq_true, if_false, gt_iff_lt, ge_iff_le]
  norm_num
  exact ⟨plain.count _, Int.toNat_natCast framePacketSize⟩

private theorem handleFrame_sent {o : Output} (plain : Plain o) (frame : Frame) :
    Plain (handleFrame ts conf o frame ⟨1316, 0, 0⟩).output ∧
      (handleFrame ts conf o frame ⟨1316, 0, 0⟩).counted = framePacketSize := by
  have udp : handleFrame ts conf o frame ⟨1316, 0, 0⟩ = tsFrameWrite
      (tsFrameProcess ts conf o 0 frame).2 (tsFrameProcess ts conf o 0 frame).1 ⟨1316, 0, 0⟩ := by
    rw [handleFrame, frameWrite]
    simp [plain.udp]
  rw [udp]
  exact tsFrameWrite_sent (plain_tsFrameProcess ts conf plain 0 frame) _

private theorem log_traceFrame_stuffing (t : Traced) (i n : ℕ) :
    (traceFrame ts conf t i (List.replicate n nullPacket)).log = t.log := by
  induction n generalizing t i with
  | zero => rfl
  | succ n ih =>
      rw [List.replicate_succ, traceFrame, ih]
      simp [tracePacket, noPcr_nullPacket]

private theorem traceRun_idle {t : Traced} (plain : Plain t.output) (n : ℕ) :
    Plain (traceRun ts conf t (List.replicate n idle)).output ∧
      (traceRun ts conf t (List.replicate n idle)).total = t.total + n * framePacketSize ∧
      (traceRun ts conf t (List.replicate n idle)).log = t.log := by
  induction n generalizing t with
  | zero => exact ⟨plain, by simp [traceRun], rfl⟩
  | succ n ih =>
      obtain ⟨stays, counted⟩ := handleFrame_sent ts conf plain idle.1
      obtain ⟨still, total, log⟩ := ih (t := traceStep ts conf t idle) stays
      refine ⟨still, total.trans ?_, log.trans (log_traceFrame_stuffing ts conf t 0 7)⟩
      show t.total + (handleFrame ts conf t.output idle.1 idle.2).counted + _ = _
      rw [show idle.2 = ⟨1316, 0, 0⟩ from rfl, counted]
      ring

private theorem log_carrying (t : Traced) {p : Packet} (pcr : ts.hasPcr (markNull ts p) = true) :
    (traceStep ts conf t (carrying p)).log = t.log ++ [stampOf ts conf t 0 p] := by
  show (traceFrame ts conf (tracePacket ts conf t 0 p) _ (List.replicate 6 nullPacket)).log = _
  rw [log_traceFrame_stuffing]
  simp [tracePacket, pcr]

/-- Two packets with a PCR, and `n` frames of stuffing in between. -/
def silentFrames (p q : Packet) (n : ℕ) : List (Frame × FrameIo) :=
  carrying p :: List.replicate n idle ++ [carrying q]

/-- The writer before the second of the two packets. -/
def afterSilence (p : Packet) (n : ℕ) : Traced :=
  traceRun ts conf (traceStep ts conf (traceStart conf false 0) (carrying p))
    (List.replicate n idle)

private theorem afterSilence_spec (p : Packet) (n : ℕ) :
    Plain (afterSilence ts conf p n).output ∧
      (afterSilence ts conf p n).total = (n + 1) * framePacketSize := by
  have start : Plain (traceStart conf false 0).output := ⟨rfl, rfl⟩
  obtain ⟨first, counted⟩ := handleFrame_sent ts conf start (carrying p).1
  obtain ⟨plain, total, -⟩ :=
    traceRun_idle ts conf (t := traceStep ts conf (traceStart conf false 0) (carrying p)) first n
  refine ⟨plain, total.trans ?_⟩
  show 0 +
    (handleFrame ts conf (traceStart conf false 0).output (carrying p).1 ⟨1316, 0, 0⟩).counted +
      _ = _
  rw [counted]
  ring

private theorem log_silentFrames {p q : Packet} (first : ts.hasPcr (markNull ts p) = true)
    (second : ts.hasPcr (markNull ts q) = true) (n : ℕ) :
    (traceRun ts conf (traceStart conf false 0) (silentFrames p q n)).log =
      [stampOf ts conf (traceStart conf false 0) 0 p,
        stampOf ts conf (afterSilence ts conf p n) 0 q] := by
  have start : Plain (traceStart conf false 0).output := ⟨rfl, rfl⟩
  obtain ⟨plain, -⟩ := handleFrame_sent ts conf start (carrying p).1
  obtain ⟨-, -, log⟩ :=
    traceRun_idle ts conf (t := traceStep ts conf (traceStart conf false 0) (carrying p)) plain n
  rw [silentFrames]
  rw [traceRun_append]
  show (traceStep ts conf (afterSilence ts conf p n) (carrying q)).log = _
  rw [log_carrying ts conf _ second]
  rw [afterSilence]
  rw [log, log_carrying ts conf _ first]
  rfl

private theorem whole_silentFrames (p q : Packet) (n : ℕ) :
    ∀ x ∈ silentFrames p q n, x.1.length = 7 := by
  intro x member
  simp only [silentFrames, List.cons_append, List.mem_cons, List.mem_append, List.mem_replicate,
    List.not_mem_nil, or_false] at member
  rcases member with rfl | ⟨-, rfl⟩ | rfl <;> rfl

end silence

/-- The stamps before and after a silence of `n` frames, for two packets of one PID. -/
def sampleFirst : Stamp :=
  stampOf headerFuncs.exactly (sampleConfig 2) (traceStart (sampleConfig 2) false 0) 0
    (pcrPacket 0x101 90000)

def sampleSecond (n : ℕ) : Stamp :=
  stampOf headerFuncs.exactly (sampleConfig 2)
    (afterSilence headerFuncs.exactly (sampleConfig 2) (pcrPacket 0x101 90000) n) 0
    (pcrPacket 0x101 90010)

def sampleFrames (n : ℕ) : List (Frame × FrameIo) :=
  silentFrames (pcrPacket 0x101 90000) (pcrPacket 0x101 90010) n

private theorem log_sampleFrames (n : ℕ) :
    (traceRun headerFuncs.exactly (sampleConfig 2) (traceStart (sampleConfig 2) false 0)
      (sampleFrames n)).log = [sampleFirst, sampleSecond n] :=
  log_silentFrames headerFuncs.exactly (sampleConfig 2) (by decide +kernel) (by decide +kernel) n

private theorem sampleFirst_kept : sampleFirst.kept ≠ 0 := by decide +kernel

private theorem sample_pid (n : ℕ) : sampleFirst.pid = (sampleSecond n).pid := by
  show headerFuncs.exactly.getPid (pcrPacket 0x101 90000) =
    headerFuncs.exactly.getPid (pcrPacket 0x101 90010)
  decide +kernel

private theorem sample_later (n : ℕ) : sampleFirst.orgPcr < (sampleSecond n).orgPcr := by
  show headerFuncs.exactly.getPcr (markNull headerFuncs.exactly (pcrPacket 0x101 90000)) <
    headerFuncs.exactly.getPcr (markNull headerFuncs.exactly (pcrPacket 0x101 90010))
  decide +kernel

private theorem sample_bytesBetween (n : ℕ) :
    bytesBetween sampleFirst (sampleSecond n) = (n + 1) * 1316 := by
  have total := (afterSilence_spec headerFuncs.exactly (sampleConfig 2) (pcrPacket 0x101 90000) n).2
  have first : sampleFirst.position = 0 := rfl
  have second : (sampleSecond n).position = (n + 1) * framePacketSize + 0 := by
    rw [← total]
    rfl
  rw [bytesBetween]
  rw [first, second]
  push_cast
  rw [framePacketSize]
  omega

theorem sent_after_three_idle_frames :
    (sampleSecond 3).sent =
        headerFuncs.exactly.setPcr (sampleSecond 3).received (sampleSecond 3).kept ∧
      (((sampleSecond 3).kept : ℤ) = sampleFirst.kept +
          bytesBetween sampleFirst (sampleSecond 3) * (8 * 27000000) /
            (sampleConfig 2).outputBitrate ↔
        0 ≤ bytesBetween sampleFirst (sampleSecond 3) ∧
          bytesBetween sampleFirst (sampleSecond 3) * (8 * 27000000) < 2 ^ 64 ∧
          sampleFirst.kept + bytesBetween sampleFirst (sampleSecond 3) * (8 * 27000000) /
            (sampleConfig 2).outputBitrate < 2 ^ 64) :=
  restamped_exactly_iff headerFuncs.exactly (sampleConfig 2) false 0 (sampleFrames 3)
    (whole_silentFrames _ _ 3) (Or.inl rfl) [] [] [] sampleFirst (sampleSecond 3)
    (log_sampleFrames 3) (sample_pid 3) (by simp) sampleFirst_kept (sample_later 3)

/-- After 65 million frames without a packet of its PID, five hours at 38 Mbps, a PCR is not
stamped with the time that passed. -/
theorem silent_pid_wraps :
    ∃ n a b, (traceRun headerFuncs.exactly (sampleConfig 2) (traceStart (sampleConfig 2) false 0)
        (sampleFrames n)).log = [a, b] ∧
      (∀ x ∈ sampleFrames n, x.1.length = 7) ∧
      a.pid = b.pid ∧ a.kept ≠ 0 ∧ a.orgPcr < b.orgPcr ∧
        (b.kept : ℤ) ≠
          a.kept + bytesBetween a b * (8 * 27000000) / (sampleConfig 2).outputBitrate := by
  obtain ⟨n, large⟩ : ∃ n : ℕ, n = 65000000 := ⟨_, rfl⟩
  have logged := (logged_traceStart headerFuncs.exactly (sampleConfig 2) false 0).traceRun
    headerFuncs.exactly (sampleConfig 2) (whole_silentFrames (pcrPacket 0x101 90000)
      (pcrPacket 0x101 90010) n)
  have follows := logged.pairs [] _ [] _ [] (log_sampleFrames n) (sample_pid n) (by simp)
  refine ⟨n, sampleFirst, sampleSecond n, log_sampleFrames n, whole_silentFrames _ _ n,
    sample_pid n, sampleFirst_kept, sample_later n, ?_⟩
  intro same
  have exact := follows.exact_iff headerFuncs.exactly (sampleConfig 2) sampleFirst_kept
    (sample_later n)
  have bounds := (exact.mp same).2.1
  rw [sample_bytesBetween n] at bounds
  omega

end Mptsd.Writer.Restamp
