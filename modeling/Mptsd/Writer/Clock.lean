/- Unit: Mptsd/Writer/Clock
   source: src/output_write.c (ts_frame_process), src/data.h (OUTPUT)
   digest: The stamped clock of a PID over a run: when it stays a legal PCR, and when it goes
   back. -/

import Mptsd.Lib.Timeline
import Mptsd.Writer.Drift

set_option autoImplicit false
set_option relaxedAutoImplicit false

namespace Mptsd.Writer.Clock

open Mptsd.TsPacket
open Mptsd.Conf (Config sampleConfig)
open Mptsd.Lib.Timeline
open Mptsd.Sections (pcrPacket)
open Mptsd.Writer.Model
open Mptsd.Writer.Restamp
open Mptsd.Writer.Drift

variable (ts : TsFuncs) (conf : Config)

private theorem productBetween_lt (a b : Stamp) : productBetween a b < 2 ^ 64 := by
  have size := Int.emod_lt_of_pos (bytesBetween a b * (8 * 27000000))
    (show (0 : ℤ) < 2 ^ 64 by norm_num)
  rw [productBetween]
  omega

private theorem fast (conf : Config) : 2 ^ 20 ≤ conf.outputBitrate :=
  le_trans (by norm_num) conf.rate.bitrate_bounds.1

private theorem pcrRange_le : pcrRange ≤ 2 ^ 64 := by decide

private theorem le_advanced (a b : Stamp) {x : ℕ} (m k : ℕ) (small : m < 2 ^ 53)
    (le : m * 2 ^ k ≤ x) :
    m * 2 ^ k ≤ advanced ts conf a b x := by
  apply Nat.le_floor
  exact_mod_cast le_pcrSum ts m k small le

private theorem advanced_le (a b : Stamp) {x : ℕ} (m k m' k' : ℕ) (small : m < 2 ^ 53)
    (small' : m' < 2 ^ 53) (le : x ≤ m * 2 ^ k) (room : m * 2 ^ k + 2 ^ 44 ≤ m' * 2 ^ k') :
    advanced ts conf a b x ≤ m' * 2 ^ k' := by
  apply Nat.floor_le_of_le
  exact_mod_cast pcrSum_le ts m k m' k' small small' le room (productBetween_lt a b) (fast conf)

private theorem le_advanced_of_legal (a b : Stamp) {x : ℕ} (legal : x < pcrRange) :
    x ≤ advanced ts conf a b x := by
  rw [pcrRange] at legal
  simpa using le_advanced ts conf a b x 0 (by omega) (by simp)

/-- The stamps of a PID as a clock: it follows the original PCRs and is advanced by the bytes. -/
def clock : Clock Stamp where
  source := Stamp.orgPcr
  shown := Stamp.kept
  next := advanced ts conf
  size := 2 ^ 64
  next_pos a b x positive := by
    have := le_advanced ts conf a b (x := x) 1 0 (by norm_num) (by omega)
    omega
  size_le_next a b x past := by
    simpa using le_advanced ts conf a b 1 64 (by norm_num) (by simpa using past)
  next_lt a b x inside := by
    rcases Nat.lt_or_ge x (2 ^ 63) with low | high
    · have := advanced_le ts conf a b (x := x) 1 63 3 62 (by norm_num) (by norm_num) (by omega)
        (by norm_num)
      omega
    · have := advanced_le ts conf a b (x := x) 1 64 5 62 (by norm_num) (by norm_num) (by omega)
        (by norm_num)
      omega

/-- The value that the packet at byte `i` is given with `ts_packet_set_pcr`, if it is called. -/
def pcrSet (o : Output) (i : ℕ) (tsPacket : Packet) : Option ℕ :=
  let pid := ts.getPid tsPacket
  let pcr := ts.getPcr (markNull ts tsPacket)
  if ts.hasPcr (markNull ts tsPacket) ∧ o.lastPcr pid ≠ 0 ∧ o.lastOrgPcr pid < pcr ∧
      (conf.pcrMode = 2 ∨ conf.pcrMode = 3) then
    some (newPcr ts o pid pcr ((o.traffic + i) % 2 ^ 64))
  else none

/-- The values set in the rest of a frame, from byte `i` on. -/
def framePcrsSet (o : Output) (i : ℕ) : Frame → List ℕ
  | [] => []
  | p :: rest =>
      (pcrSet ts conf o i p).toList ++
        framePcrsSet (tsPacketProcess ts conf o i p).2 (i + tsPacketSize) rest

/-- The values set in a run over frames. -/
def pcrsSet (o : Output) : List (Frame × FrameIo) → List ℕ
  | [] => []
  | x :: rest => framePcrsSet ts conf o 0 x.1 ++ pcrsSet (handleFrame ts conf o x.1 x.2).output rest

/-- A packet changes by the value that is set, and by nothing else. -/
theorem tsPacketProcess_fst (o : Output) (i : ℕ) (p : Packet) :
    (tsPacketProcess ts conf o i p).1 =
      (pcrSet ts conf o i p).elim (markNull ts p) (ts.setPcr (markNull ts p)) := by
  unfold tsPacketProcess pcrSet
  dsimp only
  cases pcr : ts.hasPcr (markNull ts p) with
  | false => simp
  | true =>
      simp only [if_true, true_and]
      split
      · rfl
      · rfl

/-- A stamp of the log that goes on with the clock of the one before is kept at `v`. -/
def SetIn (log : List Stamp) (v : ℕ) : Prop :=
  ∃ pid before a b after, stampsOf log pid = before ++ a :: b :: after ∧
    a.kept ≠ 0 ∧ a.orgPcr < b.orgPcr ∧ b.kept = v

private theorem stampsOf_append_singleton (log : List Stamp) (s : Stamp) (pid : ℕ) :
    stampsOf (log ++ [s]) pid = stampsOf log pid ++ if s.pid = pid then [s] else [] := by
  unfold stampsOf
  rw [List.filter_append]
  by_cases same : s.pid = pid
  · simp [same]
  · simp [same]

private theorem setIn_append_singleton (log : List Stamp) (s : Stamp) (v : ℕ) :
    SetIn (log ++ [s]) v ↔ SetIn log v ∨
      ∃ a, latest log s.pid = some a ∧ a.kept ≠ 0 ∧ a.orgPcr < s.orgPcr ∧ s.kept = v := by
  constructor
  · rintro ⟨pid, before, a, b, after, split, set⟩
    rw [stampsOf_append_singleton] at split
    split_ifs at split with same
    · rcases List.eq_nil_or_concat after with rfl | ⟨after, z, rfl⟩
      · -- the pair ends with the new stamp
        have parts : stampsOf log pid = before ++ [a] ∧ [s] = [b] :=
          List.append_inj' (split.trans (by simp)) rfl
        obtain rfl : s = b := by simpa using parts.2
        refine Or.inr ⟨a, ?_, set⟩
        rw [same]
        exact (congrArg List.getLast? parts.1).trans (by simp)
      · have parts : stampsOf log pid = before ++ a :: b :: after ∧ [s] = [z] :=
          List.append_inj' (split.trans (by simp)) rfl
        exact Or.inl ⟨pid, before, a, b, after, parts.1, set⟩
    · exact Or.inl ⟨pid, before, a, b, after, by simpa using split, set⟩
  · rintro (⟨pid, before, a, b, after, split, set⟩ | ⟨a, last, set⟩)
    · refine ⟨pid, before, a, b, after ++ if s.pid = pid then [s] else [], ?_, set⟩
      rw [stampsOf_append_singleton, split]
      simp
    · obtain ⟨before, split⟩ := List.getLast?_eq_some_iff.mp last
      refine ⟨s.pid, before, a, s, [], ?_, set⟩
      rw [stampsOf_append_singleton, if_pos rfl, stampsOf, split]
      simp

variable {ts conf}

private theorem setIn_tracePacket {t : Traced} (logged : Logged ts conf t)
    (rewriting : conf.pcrMode = 2 ∨ conf.pcrMode = 3) (i : ℕ) (p : Packet) (v : ℕ) :
    SetIn (tracePacket ts conf t i p).log v ↔
      SetIn t.log v ∨ v ∈ (pcrSet ts conf t.output i p).toList := by
  cases pcr : ts.hasPcr (markNull ts p) with
  | false => simp [tracePacket, pcrSet, pcr]
  | true =>
      have log : (tracePacket ts conf t i p).log = t.log ++ [stampOf ts conf t i p] := by
        simp [tracePacket, pcr]
      have kept : (stampOf ts conf t i p).kept =
          newPcr ts t.output (ts.getPid p) (ts.getPcr (markNull ts p))
            ((t.output.traffic + i) % 2 ^ 64) :=
        (tables_of_pcr ts conf t.output i p pcr _).1.trans (if_pos rfl)
      rw [log, setIn_append_singleton, kept]
      apply or_congr_right
      cases last : latest t.log (ts.getPid p) with
      | none =>
          have unseen := logged.unseen _ last
          simp [stampOf, pcrSet, last, unseen]
      | some a =>
          obtain ⟨one, two, -⟩ := logged.seen _ a last
          simp [stampOf, pcrSet, last, one, two, pcr, rewriting, and_assoc]

private theorem setIn_traceFrame {t : Traced} (logged : Logged ts conf t)
    (rewriting : conf.pcrMode = 2 ∨ conf.pcrMode = 3) {i : ℕ} {frame : Frame}
    (room : i + frame.length * tsPacketSize ≤ framePacketSize) (v : ℕ) :
    SetIn (traceFrame ts conf t i frame).log v ↔
      SetIn t.log v ∨ v ∈ framePcrsSet ts conf t.output i frame := by
  induction frame generalizing t i with
  | nil => simp [traceFrame, framePcrsSet]
  | cons p rest ih =>
      rw [tsPacketSize] at room ih
      rw [List.length_cons] at room
      have next := logged.tracePacket ts conf (i := i) (by omega) p
      rw [traceFrame, framePcrsSet, List.mem_append, ← or_assoc,
        ← setIn_tracePacket logged rewriting]
      exact ih next (by show i + 188 + rest.length * 188 ≤ _; omega)

private theorem setIn_traceRun {t : Traced} (logged : Logged ts conf t)
    (rewriting : conf.pcrMode = 2 ∨ conf.pcrMode = 3) {frames : List (Frame × FrameIo)}
    (whole : ∀ x ∈ frames, x.1.length = 7) (v : ℕ) :
    SetIn (traceRun ts conf t frames).log v ↔
      SetIn t.log v ∨ v ∈ pcrsSet ts conf t.output frames := by
  induction frames generalizing t with
  | nil => simp [traceRun, pcrsSet]
  | cons x rest ih =>
      rw [List.forall_mem_cons] at whole
      have room : 0 + x.1.length * tsPacketSize ≤ framePacketSize := by
        rw [whole.1]
        rfl
      have frame := setIn_traceFrame logged rewriting room v
      rw [traceRun, pcrsSet, List.mem_append, ← or_assoc, ← frame]
      exact ih (logged.traceStep ts conf whole.1) whole.2

private theorem pcrsSet_of_mode (keeping : ¬ (conf.pcrMode = 2 ∨ conf.pcrMode = 3)) (o : Output)
    (frames : List (Frame × FrameIo)) : pcrsSet ts conf o frames = [] := by
  have none : ∀ o i frame, framePcrsSet ts conf o i frame = [] := by
    intro o i frame
    induction frame generalizing o i with
    | nil => rfl
    | cons p rest ih => simp [framePcrsSet, ih, pcrSet, keeping]
  induction frames generalizing o with
  | nil => rfl
  | cons x rest ih => rw [pcrsSet, none, ih, List.append_nil]

/-- The stamp is the one of a packet with a PCR. -/
structure Read (ts : TsFuncs) (p : Packet) (s : Stamp) : Prop where
  pcr : ts.hasPcr (markNull ts p) = true
  received : s.received = markNull ts p
  orgPcr : s.orgPcr = ts.getPcr (markNull ts p)

private theorem read_of_tracePacket {t : Traced} {i : ℕ} {p : Packet} {s : Stamp}
    (member : s ∈ (tracePacket ts conf t i p).log) : s ∈ t.log ∨ Read ts p s := by
  rw [tracePacket] at member
  dsimp only at member
  split at member
  · rename_i pcr
    rcases List.mem_append.mp member with old | new
    · exact Or.inl old
    · obtain rfl := List.mem_singleton.mp new
      exact Or.inr ⟨pcr, rfl, rfl⟩
  · exact Or.inl member

private theorem read_of_traceFrame {t : Traced} {i : ℕ} {frame : Frame} {s : Stamp}
    (member : s ∈ (traceFrame ts conf t i frame).log) : s ∈ t.log ∨ ∃ p ∈ frame, Read ts p s := by
  induction frame generalizing t i with
  | nil => exact Or.inl member
  | cons p rest ih =>
      rw [List.exists_mem_cons_iff, ← or_assoc]
      exact (ih member).imp_left read_of_tracePacket

private theorem read_of_traceRun {t : Traced} {frames : List (Frame × FrameIo)} {s : Stamp}
    (member : s ∈ (traceRun ts conf t frames).log) :
    s ∈ t.log ∨ ∃ x ∈ frames, ∃ p ∈ x.1, Read ts p s := by
  induction frames generalizing t with
  | nil => exact Or.inl member
  | cons x rest ih =>
      rw [List.exists_mem_cons_iff, ← or_assoc]
      exact (ih member).imp_left read_of_traceFrame

variable (ts conf) in
private theorem read_of_run (ofd : Bool) (rtpSsrc : ℕ) (frames : List (Frame × FrameIo)) (s : Stamp)
    (member : s ∈ (traceRun ts conf (traceStart conf ofd rtpSsrc) frames).log) :
    ∃ x ∈ frames, ∃ p ∈ x.1, Read ts p s := by
  rcases read_of_traceRun member with old | read
  · cases old
  · exact read

private theorem course_stampsOf {t : Traced} (logged : Logged ts conf t) (pid : ℕ) :
    (clock ts conf).Course (stampsOf t.log pid) where
  steps := (chain_stampsOf logged pid).imp fun _ _ follows =>
    ⟨follows.kept, fun restart => (follows.reset restart).1⟩
  first := by
    intro a head
    obtain ⟨rest, list⟩ := List.head?_eq_some_iff.mp head
    exact (head_stampsOf logged list).1

/-- In every run over frames with legal PCRs, every value that is given to `ts_packet_set_pcr` is
a legal PCR, exactly when no PCRs are set in this mode, or when no PID's PCRs go on increasing
until the first of them, taken along the bytes since, reaches the end of the range. -/
theorem set_pcr_legal_iff (ofd : Bool) (rtpSsrc : ℕ) (frames : List (Frame × FrameIo))
    (whole : ∀ x ∈ frames, x.1.length = 7)
    (legal : ∀ x ∈ frames, ∀ p ∈ x.1, ts.hasPcr (markNull ts p) = true →
      ts.getPcr (markNull ts p) < pcrRange) :
    (∀ v ∈ pcrsSet ts conf (outputNew conf ofd rtpSsrc) frames, v < pcrRange) ↔
      (conf.pcrMode = 2 ∨ conf.pcrMode = 3 → ∀ pid, (clock ts conf).Within
        (stampsOf (traceRun ts conf (traceStart conf ofd rtpSsrc) frames).log pid) pcrRange) := by
  by_cases rewriting : conf.pcrMode = 2 ∨ conf.pcrMode = 3
  · have start := logged_traceStart ts conf ofd rtpSsrc
    have set := setIn_traceRun start rewriting whole
    have logged := start.traceRun ts conf whole
    have none : ∀ v, ¬ SetIn (traceStart conf ofd rtpSsrc).log v := by
      rintro v ⟨pid, before, a, b, after, split, -⟩
      simp [stampsOf, traceStart] at split
    have read := read_of_run ts conf ofd rtpSsrc frames
    generalize traceRun ts conf (traceStart conf ofd rtpSsrc) frames = t at set logged read
    have own : ∀ pid, ∀ s ∈ stampsOf t.log pid, (clock ts conf).source s < pcrRange := by
      intro pid s member
      obtain ⟨x, inFrames, p, inFrame, read⟩ := read s (List.mem_of_mem_filter member)
      show s.orgPcr < pcrRange
      rw [read.orgPcr]
      exact legal x inFrames p inFrame read.pcr
    have room : ∀ a b x, x < pcrRange → (clock ts conf).next a b x < (clock ts conf).size := by
      intro a b x legal
      rw [pcrRange] at legal
      have := advanced_le ts conf a b (x := x) 1 42 1 45 (by norm_num) (by norm_num) (by omega)
        (by norm_num)
      exact this.trans_lt (show 1 * 2 ^ 45 < 2 ^ 64 by norm_num)
    have below := fun pid => (course_stampsOf logged pid).advanced_lt_iff (own pid) room pcrRange_le
    simp only [rewriting, true_implies, ← below, List.isChain_iff_forall_rel_of_append_cons_cons]
    constructor
    · intro small pid a b before after split nonzero later
      have member := (set b.kept).mp ⟨pid, before, a, b, after, split, nonzero, later, rfl⟩
      exact small _ (member.resolve_left (none _))
    · intro small v member
      obtain ⟨pid, before, a, b, after, split, nonzero, later, rfl⟩ := (set v).mpr (Or.inr member)
      exact small pid split nonzero later
  · rw [pcrsSet_of_mode rewriting]
    simp [rewriting]

/-- A frame of PCR packets of PID 0x101 with these bases, sent to the last byte. -/
def baseFrame (bases : List ℕ) : Frame × FrameIo :=
  (bases.map (pcrPacket 0x101) ++ List.replicate (7 - bases.length) nullPacket, ⟨1316, 0, 0⟩)

/-- The last two PCRs below the wrap. -/
def lastPcrs : List (Frame × FrameIo) := [baseFrame [2 ^ 33 - 2, 2 ^ 33 - 1]]

private theorem legal_lastPcrs : ∀ x ∈ lastPcrs, ∀ p ∈ x.1,
    headerFuncs.hasPcr (markNull headerFuncs p) = true →
    headerFuncs.getPcr (markNull headerFuncs p) < pcrRange := by
  intro x member p inFrame pcr
  obtain rfl := List.mem_singleton.mp member
  rcases List.mem_append.mp inFrame with based | stuffing
  · obtain ⟨base, inBases, rfl⟩ := List.mem_map.mp based
    revert base
    decide +kernel
  · obtain rfl := List.eq_of_mem_replicate stuffing
    rw [noPcr_nullPacket] at pcr
    cases pcr

theorem set_pcr_legal_last_pcrs :
    (∀ v ∈ pcrsSet headerFuncs (sampleConfig 2) (outputNew (sampleConfig 2) false 0) lastPcrs,
        v < pcrRange) ↔
      ((sampleConfig 2).pcrMode = 2 ∨ (sampleConfig 2).pcrMode = 3 →
        ∀ pid, (clock headerFuncs (sampleConfig 2)).Within
          (stampsOf (traceRun headerFuncs (sampleConfig 2) (traceStart (sampleConfig 2) false 0)
            lastPcrs).log pid) pcrRange) :=
  set_pcr_legal_iff false 0 lastPcrs (by decide +kernel) legal_lastPcrs

/-- Two PCRs at the end of the range, 188 bytes apart: the second one is stamped past it. -/
theorem set_past_the_range :
    (∀ x ∈ lastPcrs, x.1.length = 7) ∧
      (∀ x ∈ lastPcrs, ∀ p ∈ x.1, headerFuncs.hasPcr (markNull headerFuncs p) = true →
        headerFuncs.getPcr (markNull headerFuncs p) < pcrRange) ∧
      pcrsSet headerFuncs (sampleConfig 2) (outputNew (sampleConfig 2) false 0) lastPcrs =
        [pcrRange + 468] := by
  refine ⟨by decide +kernel, legal_lastPcrs, by decide +kernel⟩

/-- Where an original PCR is repeated, the stamped clock is not ahead of it. -/
def RepeatsBehind (ts : TsFuncs) (conf : Config) (stamps : List Stamp) : Prop :=
  ∀ before start steps b after, (clock ts conf).Stretch stamps before start steps (b :: after) →
    b.orgPcr = (steps.getLastD start).orgPcr → (clock ts conf).reached start steps ≤ b.orgPcr

private theorem neverAhead_iff {stamps : List Stamp}
    (nondecreasing : stamps.IsChain fun a b => a.orgPcr ≤ b.orgPcr) :
    (clock ts conf).NeverAhead stamps ↔ RepeatsBehind ts conf stamps := by
  constructor
  · intro behind before start steps b after stretch same
    apply behind before start steps b after stretch
    rintro ⟨-, later⟩
    exact later.ne same.symm
  · intro behind before start steps b after stretch stopped
    obtain ⟨front, split⟩ := stretch.exists_front
    have order := List.isChain_iff_forall_rel_of_append_cons_cons.mp nondecreasing split
    by_cases zero : (steps.getLastD start).orgPcr = 0
    · rcases List.eq_nil_or_concat steps with rfl | ⟨steps, x, rfl⟩
      · exact order
      · -- what continues a stretch is not 0
        rw [List.concat_eq_append] at stretch zero
        have later : (steps.getLastD start).orgPcr < x.orgPcr :=
          (Clock.stretch_concat_iff.mp stretch).2.2
        rw [List.getLastD_concat] at zero
        omega
    · have equal : b.orgPcr = (steps.getLastD start).orgPcr :=
        le_antisymm (not_lt.mp fun later => stopped ⟨zero, later⟩) order
      exact behind before start steps b after stretch equal

/-- In every run in a mode that rewrites PCRs, for every PID whose original PCRs never decrease:
every packet leaves with the PCR kept for it, and these do not decrease exactly when the clock
stays within 64 bits, no rounding leads it back and it is never ahead of an original PCR that is
repeated. As long as it stays a legal PCR, only the last can go wrong, and the same holds of the
PCRs read from the packets as they leave. -/
theorem leaving_nondecreasing_iff (ofd : Bool) (rtpSsrc : ℕ) (frames : List (Frame × FrameIo))
    (whole : ∀ x ∈ frames, x.1.length = 7) (rewriting : conf.pcrMode = 2 ∨ conf.pcrMode = 3)
    (pid : ℕ) (stamps : List Stamp)
    (run : stampsOf (traceRun ts conf (traceStart conf ofd rtpSsrc) frames).log pid = stamps)
    (nondecreasing : stamps.IsChain fun a b => a.orgPcr ≤ b.orgPcr) :
    (∀ s ∈ stamps, Leaves ts s) ∧
      (stamps.IsChain (fun a b => a.kept ≤ b.kept) ↔
        (clock ts conf).Within stamps (2 ^ 64) ∧ (clock ts conf).Rises stamps ∧
          RepeatsBehind ts conf stamps) ∧
      ((clock ts conf).Within stamps pcrRange →
        (stamps.IsChain (fun a b => ts.getPcr a.sent ≤ ts.getPcr b.sent) ↔
          RepeatsBehind ts conf stamps)) := by
  have logged := (logged_traceStart ts conf ofd rtpSsrc).traceRun ts conf whole
  have read := read_of_run ts conf ofd rtpSsrc frames
  subst run
  generalize traceRun ts conf (traceStart conf ofd rtpSsrc) frames = t at logged read nondecreasing
  have course := course_stampsOf logged pid
  have leaves : ∀ s ∈ stampsOf t.log pid, Leaves ts s := leaves_of_logged logged rewriting
  have origin : ∀ s ∈ stampsOf t.log pid, ∃ p, Read ts p s := by
    intro s member
    obtain ⟨x, -, p, -, read⟩ := read s (List.mem_of_mem_filter member)
    exact ⟨p, read⟩
  have own : ∀ s ∈ stampsOf t.log pid, (clock ts conf).source s < (clock ts conf).size := by
    intro s member
    obtain ⟨p, read⟩ := origin s member
    show s.orgPcr < 2 ^ 64
    rw [read.orgPcr]
    exact ts.getPcr_lt _
  have kept_iff := course.shown_nondecreasing_iff own
  rw [neverAhead_iff nondecreasing] at kept_iff
  refine ⟨leaves, kept_iff, ?_⟩
  intro within
  have wide : (clock ts conf).Within (stampsOf t.log pid) (2 ^ 64) := by
    intro before start steps after stretch
    exact (within _ _ _ _ stretch).trans_le pcrRange_le
  have rises : (clock ts conf).Rises (stampsOf t.log pid) := by
    intro before start steps b after stretch
    rw [Clock.reached_concat]
    have shorter := (Clock.stretch_concat_iff.mp stretch).1
    exact le_advanced_of_legal ts conf _ b (within _ _ _ _ shorter)
  have left : ∀ s ∈ stampsOf t.log pid, ts.getPcr s.sent = s.kept := by
    intro s member
    obtain ⟨p, read⟩ := origin s member
    rcases leaves s member with set | ⟨same, kept⟩
    · have small : s.kept < pcrRange := course.shown_lt within pcrRange_le member
      rw [set]
      exact ts.getPcr_setPcr _ _ (read.received ▸ read.pcr) small
    · rw [same, kept, read.received, read.orgPcr]
  have same : (stampsOf t.log pid).IsChain (fun a b => ts.getPcr a.sent ≤ ts.getPcr b.sent) ↔
      (stampsOf t.log pid).IsChain (fun a b => a.kept ≤ b.kept) := by
    simp only [List.isChain_iff_forall_rel_of_append_cons_cons]
    apply forall₅_congr
    intro a b before after split
    rw [left a (by simp [split]), left b (by simp [split])]
  rw [same]
  exact kept_iff.trans ((and_iff_right wide).trans (and_iff_right rises))

/-- A PCR packet, a later one, and the later PCR once more. -/
def repeated (bases : List ℕ) : List Stamp :=
  stampsOf (traceRun headerFuncs (sampleConfig 3) (traceStart (sampleConfig 3) false 0)
    [baseFrame bases]).log 0x101

theorem leaving_nondecreasing_three :
    (∀ s ∈ repeated [90000, 90001, 90005], Leaves headerFuncs s) ∧
      ((repeated [90000, 90001, 90005]).IsChain (fun a b => a.kept ≤ b.kept) ↔
        (clock headerFuncs (sampleConfig 3)).Within (repeated [90000, 90001, 90005]) (2 ^ 64) ∧
          (clock headerFuncs (sampleConfig 3)).Rises (repeated [90000, 90001, 90005]) ∧
          RepeatsBehind headerFuncs (sampleConfig 3) (repeated [90000, 90001, 90005])) ∧
      ((clock headerFuncs (sampleConfig 3)).Within (repeated [90000, 90001, 90005]) pcrRange →
        ((repeated [90000, 90001, 90005]).IsChain
            (fun a b => headerFuncs.getPcr a.sent ≤ headerFuncs.getPcr b.sent) ↔
          RepeatsBehind headerFuncs (sampleConfig 3) (repeated [90000, 90001, 90005]))) :=
  leaving_nondecreasing_iff false 0 [baseFrame [90000, 90001, 90005]] (by decide +kernel)
    (Or.inr rfl) 0x101 (repeated [90000, 90001, 90005]) rfl (by decide +kernel)

/-- A PCR that is repeated after the stamped clock has run ahead of it sets the clock back. -/
theorem repeated_pcr_goes_back :
    (∀ x ∈ [baseFrame [90000, 90001, 90001]], x.1.length = 7) ∧
      (repeated [90000, 90001, 90001]).map Stamp.orgPcr = [27000000, 27000300, 27000300] ∧
      (repeated [90000, 90001, 90001]).map (fun s => headerFuncs.getPcr s.sent) =
        [27000000, 27001068, 27000300] := by
  refine ⟨by decide +kernel, by decide +kernel, by decide +kernel⟩

end Mptsd.Writer.Clock
