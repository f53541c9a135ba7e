/- Unit: Mptsd/Writer/Pacing
   source: src/output_write.c (output_handle_write), src/sleep.c (calibrate_sleep),
   src/config.c (config_load)
   digest: When the frames leave: the clock of the writer, which sleeps behind every frame and
   behind every buffer. -/

import Mathlib.Algebra.BigOperators.Fin
import Mptsd.Lib.Batches
import Mptsd.Conf

set_option autoImplicit false
set_option relaxedAutoImplicit false

namespace Mptsd.Writer.Pacing

open Mptsd.TsPacket (framePacketSize)
open Mptsd.Conf (OutputRate)
open Mptsd.Lib.Batches (Batched Batch batched_nil getElem?_append_cases)

/-- `timeval_diff_usec`, with times in microseconds. -/
structure TimevalDiff where
  usec : ℕ → ℕ → ℕ
  usec_of_le : ∀ a b, a ≤ b → usec a b = b - a

/-- `conf->output_tmout` before the calibration: the microseconds of a frame. -/
def frameTime (rate : OutputRate) : ℕ := 1000000 / rate.packetsPerSec

/-- `conf->usleep_overhead`, for which there is time in a frame. -/
structure Timing (rate : OutputRate) where
  usleepOverhead : ℕ
  small : usleepOverhead < frameTime rate

variable (diff : TimevalDiff) {rate : OutputRate}

/-- `conf->output_tmout`. -/
def Timing.outputTmout (t : Timing rate) : ℤ := frameTime rate - t.usleepOverhead

/-- `calibrate_sleep`, with the clock in front of its calls of `usleep(1)` and behind them. The
program exits without a time to sleep. -/
def calibrateSleep (rate : OutputRate) (tv1 tv2 : Fin 3001 → ℕ) : Option (Timing rate) :=
  let total := (∑ i, (diff.usec (tv1 i) (tv2 i) + (2 ^ 64 - 1))) % 2 ^ 64
  let usleepOverhead := total / 3001
  if small : usleepOverhead < frameTime rate then some ⟨usleepOverhead, small⟩ else none

/-- `o->obuf_ms`, in microseconds. -/
def obufTime : ℕ := 100 * 1000

/-- `usleep`, which takes `late` longer than it is asked to. -/
def usleep (now : ℕ) (interval : ℤ) (late : ℕ) : ℕ :=
  if interval > 0 then now + interval.toNat + late else now

/-- How long it takes to process and to write a frame, and how much too long the sleep behind it
is. -/
structure Delay where
  work : ℕ
  late : ℕ

/-- The inner loop of `output_handle_write`. `used_ts` has no value before the first frame. `sent`
is not a variable of the source: it records when each frame has been written. -/
structure Draining where
  startWriteTs : ℕ
  usedTs : ℕ
  now : ℕ
  packetsWritten : ℕ
  sent : List ℕ

/-- `sleep_interval`. -/
def sleepInterval (t : Timing rate) (s : Draining) : ℤ :=
  if s.packetsWritten = 0 then t.outputTmout
  else
    let timeTaken : ℤ := diff.usec s.startWriteTs s.usedTs
    let realTime := s.packetsWritten * (t.outputTmout + t.usleepOverhead)
    let timeDiff := realTime - timeTaken
    if timeDiff > t.outputTmout - t.usleepOverhead then
      if timeDiff - t.usleepOverhead < 0 then 1 else timeDiff - t.usleepOverhead
    else 0

def drainFrame (t : Timing rate) (s : Draining) (d : Delay) : Draining :=
  let written := s.now + d.work
  let now := usleep written (sleepInterval diff t s) d.late
  { s with usedTs := now, now, packetsWritten := s.packetsWritten + 1, sent := s.sent ++ [written] }

/-- A full buffer: how long the writer waited for it, its frames, and the sleep behind them. -/
structure Buffer (rate : OutputRate) where
  wait : ℕ
  frames : List Delay
  whole : frames.length = rate.obufFrames
  late : ℕ

/-- The clock of the writer, and when it has written all its frames. -/
structure Clock where
  now : ℕ
  sent : List ℕ

def drained (t : Timing rate) (start : ℕ) (frames : List Delay) : Draining :=
  frames.foldl (drainFrame diff t) ⟨start, 0, start, 0, []⟩

/-- One turn of the outer loop. -/
def handleBuffer (t : Timing rate) (w : Clock) (b : Buffer rate) : Clock :=
  let s := drained diff t (w.now + b.wait) b.frames
  let writeTime := diff.usec s.startWriteTs s.now
  { now := if writeTime < obufTime then usleep s.now (obufTime - writeTime : ℕ) b.late else s.now
    sent := w.sent ++ s.sent }

def handleBuffers (t : Timing rate) (w : Clock) (buffers : List (Buffer rate)) : Clock :=
  buffers.foldl (handleBuffer diff t) w

/-- The frames of a buffer so far: none has left more than two frame times before its place. -/
structure Paced (start : ℕ) (t : Timing rate) (s : Draining) : Prop where
  began : s.startWriteTs = start
  later : start ≤ s.now
  used : s.packetsWritten ≠ 0 → s.usedTs = s.now
  behind : start + s.packetsWritten * frameTime rate ≤ s.now + 2 * frameTime rate
  length : s.sent.length = s.packetsWritten
  sorted : s.sent.Pairwise (· ≤ ·)
  past : ∀ time ∈ s.sent, time ≤ s.now
  places : ∀ k time, s.sent[k]? = some time →
    start ≤ time ∧ start + k * frameTime rate ≤ time + 2 * frameTime rate

section pacing

variable {diff : TimevalDiff} {t : Timing rate} {start : ℕ} {s : Draining}

private theorem le_usleep (now : ℕ) (interval : ℤ) (late : ℕ) :
    now ≤ usleep now interval late ∧ (now + interval : ℤ) ≤ usleep now interval late := by
  rw [usleep]
  split_ifs with asked
  · omega
  · omega

private theorem place_le (used : s.usedTs = s.now) (later : s.startWriteTs ≤ s.now)
    (more : s.packetsWritten ≠ 0) :
    (s.startWriteTs + s.packetsWritten * frameTime rate : ℤ) ≤
      s.now + sleepInterval diff t s + frameTime rate := by
  have period : t.outputTmout + t.usleepOverhead = frameTime rate := sub_add_cancel _ _
  have small := t.small
  rw [sleepInterval, if_neg more, period, used, diff.usec_of_le _ _ later, Nat.cast_sub later]
  dsimp only
  generalize (s.packetsWritten * frameTime rate : ℤ) = realTime
  split_ifs with ahead short
  · omega
  · omega
  · omega

private theorem Paced.drainFrame (h : Paced start t s) (d : Delay) :
    Paced start t (drainFrame diff t s d) := by
  obtain ⟨began, later, used, behind, length, sorted, past, places⟩ := h
  obtain ⟨forward, slept⟩ := le_usleep (s.now + d.work) (sleepInterval diff t s) d.late
  rw [Pacing.drainFrame]
  refine ⟨began, by dsimp only; omega, fun _ => rfl, ?_, ?_, ?_, ?_, ?_⟩
  · dsimp only
    rw [Nat.succ_mul]
    by_cases first : s.packetsWritten = 0
    · rw [first, Nat.zero_mul]
      omega
    · have place : (s.startWriteTs + s.packetsWritten * frameTime rate : ℤ) ≤
          s.now + sleepInterval diff t s + frameTime rate :=
        place_le (used first) (began ▸ later) first
      rw [began] at place
      generalize sleepInterval diff t s = interval at *
      have cast : ((s.packetsWritten * frameTime rate : ℕ) : ℤ) =
        s.packetsWritten * frameTime rate := Nat.cast_mul _ _
      omega
  · simp [length]
  · dsimp only
    rw [List.pairwise_append]
    refine ⟨sorted, List.pairwise_singleton _ _, fun time member written last => ?_⟩
    rw [List.mem_singleton.mp last]
    exact (past time member).trans (Nat.le_add_right _ _)
  · intro time member
    dsimp only at member ⊢
    rcases List.mem_append.mp member with earlier | last
    · have := past time earlier
      omega
    · rw [List.mem_singleton.mp last]
      exact forward
  · intro k time found
    dsimp only at found
    rcases lt_trichotomy k s.sent.length with inside | last | outside
    · rw [List.getElem?_append_left inside] at found
      exact places k time found
    · subst last
      rw [List.getElem?_concat_length] at found
      obtain rfl := Option.some.inj found
      rw [length]
      omega
    · rw [List.getElem?_eq_none (by simp; omega)] at found
      cases found

private theorem paced_drained (diff : TimevalDiff) (t : Timing rate) (start : ℕ)
    (frames : List Delay) :
    Paced start t (drained diff t start frames) := by
  have run : ∀ s, Paced start t s → Paced start t (frames.foldl (Pacing.drainFrame diff t) s) := by
    induction frames with
    | nil => exact fun _ h => h
    | cons d rest ih => exact fun s h => ih _ (h.drainFrame d)
  refine run _ ⟨rfl, le_rfl, fun more => absurd rfl more, ?_, rfl, List.Pairwise.nil, ?_, ?_⟩
  · dsimp only
    omega
  · rintro time ⟨⟩
  · rintro k time ⟨⟩

private theorem length_drained (diff : TimevalDiff) (t : Timing rate) (start : ℕ)
    (frames : List Delay) :
    (drained diff t start frames).sent.length = frames.length := by
  have run : ∀ s, (frames.foldl (Pacing.drainFrame diff t) s).sent.length =
      s.sent.length + frames.length := by
    induction frames with
    | nil => exact fun _ => rfl
    | cons d rest ih =>
        intro s
        rw [List.foldl_cons, ih, List.length_cons, Pacing.drainFrame]
        simp
        omega
  rw [drained, run]
  exact Nat.zero_add _

/-- All the frames so far: a buffer is a batch of them, and each has its place in it. -/
structure OnTime (start : ℕ) (t : Timing rate) (buffers : ℕ) (w : Clock) : Prop where
  batched : Batched rate.obufFrames obufTime start buffers w.now w.sent
  places : ∀ n time, w.sent[n]? = some time →
    start + n / rate.obufFrames * obufTime + n % rate.obufFrames * frameTime rate ≤
      time + 2 * frameTime rate

private theorem batch_drained (diff : TimevalDiff) (t : Timing rate) (start : ℕ) (b : Buffer rate) :
    Batch rate.obufFrames start (drained diff t start b.frames).now
      (drained diff t start b.frames).sent := by
  have paced := paced_drained diff t start b.frames
  refine ⟨(length_drained diff t start b.frames).trans b.whole, paced.later, paced.sorted,
    fun time member => ⟨?_, paced.past time member⟩⟩
  obtain ⟨k, found⟩ := List.getElem?_of_mem member
  exact (paced.places k time found).1

private theorem OnTime.handleBuffer {w : Clock} {buffers : ℕ} (h : OnTime start t buffers w)
    (b : Buffer rate) : OnTime start t (buffers + 1) (handleBuffer diff t w b) := by
  obtain ⟨batched, places⟩ := h
  have batch := batch_drained diff t (w.now + b.wait) b
  have paced := paced_drained diff t (w.now + b.wait) b.frames
  rw [Pacing.handleBuffer]
  generalize drained diff t (w.now + b.wait) b.frames = s at paced batch
  refine ⟨?_, ?_⟩
  · refine batched.append batch (Nat.le_add_right _ _) ?_ ?_
    · dsimp only
      split_ifs with early
      · exact (le_usleep _ _ _).1
      · exact le_rfl
    · dsimp only
      have forward := paced.later
      rw [paced.began, diff.usec_of_le _ _ forward]
      split_ifs with early
      · have := (le_usleep s.now (obufTime - (s.now - (w.now + b.wait)) : ℕ) b.late).2
        omega
      · omega
  · intro n time found
    rcases getElem?_append_cases batched.length batch.whole found with earlier | ⟨last, found⟩
    · exact places n time earlier
    · have := (paced.places _ _ found).2
      have := batched.later
      rw [last]
      omega

private theorem onTime_handleBuffers (diff : TimevalDiff) (t : Timing rate) (start : ℕ)
    (buffers : List (Buffer rate)) :
    OnTime start t buffers.length (handleBuffers diff t ⟨start, []⟩ buffers) := by
  have run : ∀ w done, OnTime start t done w →
      OnTime start t (done + buffers.length) (handleBuffers diff t w buffers) := by
    induction buffers with
    | nil => exact fun _ _ h => h
    | cons b rest ih =>
        intro w done h
        rw [List.length_cons, ← Nat.add_assoc, Nat.add_right_comm]
        exact ih _ _ (h.handleBuffer b)
  have new : OnTime start t 0 ⟨start, []⟩ := by
    refine ⟨batched_nil, ?_⟩
    rintro n time ⟨⟩
  rw [← Nat.zero_add buffers.length]
  exact run _ _ new

end pacing

section rate

private theorem ten_obufFrames_lt (rate : OutputRate) :
    10 * rate.obufFrames < rate.packetsPerSec + 10 := by
  have aligned : ⌈(rate.bitrate : ℚ) / (framePacketSize * 8)⌉₊ = rate.packetsPerSec := by
    rw [OutputRate.bitrate, framePacketSize]
    push_cast
    rw [mul_div_assoc, show (10528 : ℚ) / (1316 * 8) = 1 by norm_num, mul_one, Nat.ceil_natCast]
  have near : (rate.obufFrames : ℚ) < rate.packetsPerSec / (1000 / 100) + 1 := by
    rw [OutputRate.obufFrames, aligned]
    apply Nat.ceil_lt_add_one
    positivity
  have scaled : (10 * rate.obufFrames : ℚ) < rate.packetsPerSec + 10 := by linarith
  exact_mod_cast scaled

variable (diff : TimevalDiff) (t : Timing rate) (start : ℕ) (buffers : List (Buffer rate))

/-- In any run of the writer no frame leaves before the time of the buffers before it has passed,
nor more than two frame times before its place in its own buffer. -/
theorem frames_in_place (n time : ℕ)
    (sent : (handleBuffers diff t ⟨start, []⟩ buffers).sent[n]? = some time) :
    start + n / rate.obufFrames * obufTime ≤ time ∧
      start + n / rate.obufFrames * obufTime + n % rate.obufFrames * frameTime rate ≤
        time + 2 * frameTime rate :=
  have onTime := onTime_handleBuffers diff t start buffers
  ⟨onTime.batched.begun n time sent, onTime.places n time sent⟩

def sampleRate : OutputRate := ⟨2, le_rfl, by decide⟩

/-- A buffer of 19 frames, each of which takes 5 microseconds to write. -/
def sampleBuffer : Buffer sampleRate :=
  ⟨3, List.replicate _ ⟨5, 2⟩, List.length_replicate, 1⟩

def sampleDiff : TimevalDiff := ⟨fun a b => b - a, fun _ _ _ => rfl⟩

def sampleTiming : Timing sampleRate := ⟨60, by decide +kernel⟩

theorem frames_in_place_sample :
    10 + 30 / sampleRate.obufFrames * obufTime ≤ 152599 ∧
      10 + 30 / sampleRate.obufFrames * obufTime +
        30 % sampleRate.obufFrames * frameTime sampleRate ≤ 152599 + 2 * frameTime sampleRate :=
  frames_in_place sampleDiff sampleTiming 10 [sampleBuffer, sampleBuffer] 30 152599
    (by decide +kernel)

/-- However late it is called, the writer never catches up by sending faster: any window of time
has no more frames than the buffers that fit into it and two more, and ten buffers hold less than
ten frames more than the output rate has in a second. -/
theorem output_rate_bounded (since span : ℕ) :
    (handleBuffers diff t ⟨start, []⟩ buffers).sent.countP
        (fun time => decide (since ≤ time ∧ time < since + span)) ≤
        (span / obufTime + 2) * rate.obufFrames ∧
      10 * rate.obufFrames < rate.packetsPerSec + 10 :=
  ⟨(onTime_handleBuffers diff t start buffers).batched.count_le (by norm_num [obufTime]) since span,
    ten_obufFrames_lt rate⟩

end rate

end Mptsd.Writer.Pacing
