/- Unit: Mptsd/Network/Sync
   source: src/network.c (mpeg_sync), src/data.h (FRAME_PACKET_SIZE)
   digest: How a new connection finds the start of a packet, and how many bytes that takes. -/

import Mathlib.Tactic

set_option autoImplicit false
set_option relaxedAutoImplicit false

namespace Mptsd.Network.Sync

def framePacketSize : ℕ := 1316

/-- The bytes of a source, and how many of them come, if not endlessly many. -/
structure Source where
  byte : ℕ → UInt8
  stop : Option ℕ

/-- As many bytes come. -/
def Source.Delivers (s : Source) (n : ℕ) : Prop := ∀ stop ∈ s.stop, n ≤ stop

instance (s : Source) (n : ℕ) : Decidable (s.Delivers n) :=
  inferInstanceAs (Decidable (∀ stop ∈ s.stop, n ≤ stop))

/-- `fdread_ex` behind the first bytes: what was asked for, or nothing. -/
def fdreadEx (s : Source) (offset wanted : ℕ) : Option (List UInt8) :=
  if s.Delivers (offset + wanted) then
    some ((List.range wanted).map fun i => s.byte (offset + i))
  else none

/-- What else `mpeg_sync` looks at, by the bytes it has read: the input's `dienow`, and the time. -/
structure Surroundings where
  dienow : ℕ → Bool
  time : ℕ → ℤ

/-- The variables of the loop. -/
structure SyncState where
  readBytes : ℕ
  syncPackets : ℕ
  unsynced : syncPackets < 7

/-- The return value, and the number of bytes taken from the source. -/
structure Outcome where
  ret : ℤ
  consumed : ℕ
  deriving DecidableEq

/-- A read that fails has taken what was left. -/
def shortRead (s : Source) (readBytes : ℕ) : Outcome := ⟨1, s.stop.getD readBytes⟩

/-- The loop, from its head or, within it, from `resync`. -/
def syncLoop (s : Source) (env : Surroundings) (head : Bool) (w : SyncState) : Outcome :=
  if head ∧ env.dienow w.readBytes then ⟨1, w.readBytes⟩
  else
    match fdreadEx s w.readBytes 1 with
    | none => shortRead s w.readBytes
    | some syncframe =>
        if syncframe.head? = some 0x47 then
          match fdreadEx s (w.readBytes + 1) (188 - 1) with
          | none => shortRead s w.readBytes
          | some _ =>
              if more : w.syncPackets + 1 < 7 then
                syncLoop s env false ⟨w.readBytes + 188, w.syncPackets + 1, more⟩
              else ⟨0, w.readBytes + 188⟩
        else if w.readBytes + 1 > framePacketSize then ⟨1, w.readBytes + 1⟩
        else if env.time 0 + 2 ≤ env.time (w.readBytes + 1) then ⟨1, w.readBytes + 1⟩
        else syncLoop s env true ⟨w.readBytes + 1, 0, by decide⟩
  termination_by (framePacketSize + 1 - w.readBytes, 7 - w.syncPackets)
  decreasing_by
    · have := w.unsynced
      simp_wf
      omega
    · simp_wf
      omega

def mpegSync (s : Source) (env : Surroundings) : Outcome :=
  syncLoop s env true ⟨0, 0, by decide⟩

/-- The packets found in a row begin at `start`, and the search for it was not given up. -/
structure Aligned (s : Source) (w : SyncState) (start : ℕ) : Prop where
  early : start ≤ framePacketSize
  readBytes : w.readBytes = start + 188 * w.syncPackets
  delivered : s.Delivers w.readBytes
  synced : ∀ i < w.syncPackets, s.byte (start + 188 * i) = 0x47

/-- Not more was consumed than twice the bytes of a frame, and for a success the last of them are
those of seven packets. -/
structure Bounded (s : Source) (out : Outcome) : Prop where
  consumed : out.consumed ≤ 2 * framePacketSize
  delivered : s.Delivers out.consumed
  synced : out.ret = 0 → ∃ start, out.consumed = start + framePacketSize ∧
    ∀ i < 7, s.byte (start + 188 * i) = 0x47

variable {s : Source} {env : Surroundings} {w : SyncState} {start : ℕ}

section read

variable {offset wanted n : ℕ}

theorem Source.Delivers.mono (h : s.Delivers n) {m : ℕ} (le : m ≤ n) : s.Delivers m :=
  fun stop ends => le.trans (h stop ends)

private theorem fdreadEx_eq_none_iff :
    fdreadEx s offset wanted = none ↔ ¬ s.Delivers (offset + wanted) := by
  rw [fdreadEx]
  split <;> simp_all

private theorem fdreadEx_of_delivers (h : s.Delivers (offset + wanted)) :
    fdreadEx s offset wanted = some ((List.range wanted).map fun i => s.byte (offset + i)) :=
  if_pos h

private theorem fdreadEx_eq_some {data : List UInt8} (h : fdreadEx s offset wanted = some data) :
    s.Delivers (offset + wanted) ∧ data = (List.range wanted).map fun i => s.byte (offset + i) := by
  rw [fdreadEx] at h
  split at h
  · rename_i delivers
    exact ⟨delivers, (Option.some.inj h).symm⟩
  · cases h

private theorem head_fdreadEx {data : List UInt8} (h : fdreadEx s offset 1 = some data) :
    data.head? = some (s.byte offset) := by
  rw [(fdreadEx_eq_some h).2]
  rfl

private theorem bounded_shortRead (short : ¬ s.Delivers n) (early : n ≤ 2 * framePacketSize)
    (readBytes : ℕ) : Bounded s (shortRead s readBytes) := by
  rw [Source.Delivers] at short
  push Not at short
  obtain ⟨stop, ends, below⟩ := short
  have consumed : (shortRead s readBytes).consumed = stop := by
    rw [shortRead, Option.mem_def.mp ends, Option.getD_some]
  refine ⟨by omega, ?_, fun success => absurd success (by decide : (1 : ℤ) ≠ 0)⟩
  rw [consumed]
  intro stop' ends'
  rw [Option.mem_unique ends ends']

end read

private theorem bounded_of_ret_ne_zero {out : Outcome} (failed : out.ret = 1)
    (early : out.consumed ≤ 2 * framePacketSize) (delivered : s.Delivers out.consumed) :
    Bounded s out :=
  ⟨early, delivered, fun success => by
    rw [failed] at success
    exact absurd success (by decide)⟩

private theorem Aligned.readBytes_le (aligned : Aligned s w start) :
    w.readBytes + 188 ≤ 2 * framePacketSize := by
  have early := aligned.early
  have := aligned.readBytes
  have := w.unsynced
  rw [framePacketSize] at early ⊢
  omega

private theorem Aligned.hit (aligned : Aligned s w start) (sync : s.byte w.readBytes = 0x47) :
    ∀ i < w.syncPackets + 1, s.byte (start + 188 * i) = 0x47 := by
  intro i before
  rcases Nat.lt_succ_iff_lt_or_eq.mp before with earlier | rfl
  · exact aligned.synced i earlier
  · rwa [← aligned.readBytes]

private theorem bounded_syncLoop (head : Bool) (aligned : Aligned s w start) :
    Bounded s (syncLoop s env head w) := by
  have room := aligned.readBytes_le
  fun_induction syncLoop s env head w generalizing start with
  | case1 head w told =>
      exact bounded_of_ret_ne_zero rfl (by dsimp only; omega) aligned.delivered
  | case2 head w goesOn short =>
      exact bounded_shortRead (fdreadEx_eq_none_iff.mp short) (by omega) _
  | case3 head w goesOn syncframe read sync short =>
      refine bounded_shortRead (fdreadEx_eq_none_iff.mp short) ?_ _
      omega
  | case4 head w goesOn syncframe read sync rest readRest more ih =>
      have delivered : s.Delivers (w.readBytes + 188) := (fdreadEx_eq_some readRest).1
      rw [head_fdreadEx read, Option.some_inj] at sync
      have aligned' : Aligned s ⟨w.readBytes + 188, w.syncPackets + 1, more⟩ start :=
        ⟨aligned.early, by have := aligned.readBytes; dsimp only; omega, delivered,
          aligned.hit sync⟩
      exact ih aligned' aligned'.readBytes_le
  | case5 head w goesOn syncframe read sync rest readRest last =>
      have delivered : s.Delivers (w.readBytes + 188) := (fdreadEx_eq_some readRest).1
      rw [head_fdreadEx read, Option.some_inj] at sync
      have seven : w.syncPackets + 1 = 7 := by
        have := w.unsynced
        omega
      have readBytes := aligned.readBytes
      refine ⟨room, delivered, fun _ => ⟨start, ?_, ?_⟩⟩
      · rw [framePacketSize]
        dsimp only
        omega
      · rw [← seven]
        exact aligned.hit sync
  | case6 head w goesOn syncframe read miss late =>
      have delivered := (fdreadEx_eq_some read).1
      exact bounded_of_ret_ne_zero rfl (by dsimp only; omega) delivered
  | case7 head w goesOn syncframe read miss early late =>
      have delivered := (fdreadEx_eq_some read).1
      exact bounded_of_ret_ne_zero rfl (by dsimp only; omega) delivered
  | case8 head w goesOn syncframe read miss early inTime ih =>
      have delivered := (fdreadEx_eq_some read).1
      have aligned' : Aligned s ⟨w.readBytes + 1, 0, by decide⟩ (w.readBytes + 1) :=
        ⟨not_lt.mp early, rfl, delivered, fun i none => absurd none (Nat.not_lt_zero i)⟩
      exact ih aligned' aligned'.readBytes_le

private theorem syncLoop_hits {k : ℕ} (synced : ∀ i < 7, s.byte (k + 188 * i) = 0x47)
    (delivers : s.Delivers (k + framePacketSize)) (head : Bool)
    (told : head → env.dienow w.readBytes = false)
    (place : w.readBytes = k + 188 * w.syncPackets) :
    syncLoop s env head w = ⟨0, k + framePacketSize⟩ := by
  have unsynced := w.unsynced
  fun_induction syncLoop s env head w with
  | case1 head w stopped =>
      rw [told stopped.1] at stopped
      exact absurd stopped.2 (by decide)
  | case2 head w goesOn short =>
      refine absurd (delivers.mono ?_) (fdreadEx_eq_none_iff.mp short)
      rw [framePacketSize]
      omega
  | case3 head w goesOn syncframe read sync short =>
      refine absurd (delivers.mono ?_) (fdreadEx_eq_none_iff.mp short)
      rw [framePacketSize]
      omega
  | case4 head w goesOn syncframe read sync rest readRest more ih =>
      exact ih nofun (by dsimp only; omega) more
  | case5 head w goesOn syncframe read sync rest readRest last =>
      rw [framePacketSize]
      rw [Outcome.mk.injEq]
      exact ⟨rfl, by omega⟩
  | case6 head w goesOn syncframe read miss =>
      rw [head_fdreadEx read, place] at miss
      exact absurd (congrArg some (synced _ unsynced)) miss
  | case7 head w goesOn syncframe read miss =>
      rw [head_fdreadEx read, place] at miss
      exact absurd (congrArg some (synced _ unsynced)) miss
  | case8 head w goesOn syncframe read miss =>
      rw [head_fdreadEx read, place] at miss
      exact absurd (congrArg some (synced _ unsynced)) miss

private theorem syncLoop_misses {k : ℕ} (early : k ≤ framePacketSize)
    (none : ∀ j < k, s.byte j ≠ 0x47) (synced : ∀ i < 7, s.byte (k + 188 * i) = 0x47)
    (delivers : s.Delivers (k + framePacketSize)) (told : ∀ j ≤ k, env.dienow j = false)
    (inTime : ∀ j ≤ k, env.time j < env.time 0 + 2)
    (reached : w.readBytes ≤ k) (fresh : w.syncPackets = 0) :
    syncLoop s env true w = ⟨0, k + framePacketSize⟩ := by
  obtain ⟨n, left⟩ := Nat.exists_eq_add_of_le reached
  induction n generalizing w with
  | zero =>
      apply syncLoop_hits synced delivers true (fun _ => told _ reached)
      rw [fresh]
      omega
  | succ n ih =>
      have before : w.readBytes + 1 ≤ k := by omega
      have one : s.Delivers (w.readBytes + 1) := delivers.mono (by omega)
      have read := fdreadEx_of_delivers one
      have miss : ((List.range 1).map fun i => s.byte (w.readBytes + i)).head? ≠ some 0x47 := by
        intro sync
        rw [head_fdreadEx read] at sync
        exact none _ before (Option.some.inj sync)
      have skipped : syncLoop s env true w =
          syncLoop s env true ⟨w.readBytes + 1, 0, by decide⟩ := by
        rw [syncLoop, if_neg (by simp [told _ reached])]
        simp only [read]
        rw [if_neg miss, if_neg (by omega), if_neg (not_le.mpr (inTime _ before))]
      rw [skipped]
      exact ih before rfl (by dsimp only; omega)

/-- Whatever a source sends, the search for its packets ends within two frames. If it succeeds, the
last frame consumed is made of seven packets, each of them from its sync byte on. It does succeed,
at the first place it can, where the sync bytes begin within the first frame and repeat every 188
bytes, provided that the input is not told to exit meanwhile and that it takes less than two
seconds. -/
theorem mpegSync_spec (s : Source) (env : Surroundings) :
    (mpegSync s env).consumed ≤ 2632 ∧
      ((mpegSync s env).ret = 0 →
        ∃ start, (mpegSync s env).consumed = start + 1316 ∧ s.Delivers (start + 1316) ∧
          ∀ i < 7, s.byte (start + 188 * i) = 0x47) ∧
      ∀ k ≤ 1316, (∀ j < k, s.byte j ≠ 0x47) → (∀ i < 7, s.byte (k + 188 * i) = 0x47) →
        s.Delivers (k + 1316) → (∀ j ≤ k, env.dienow j = false) →
        (∀ j ≤ k, env.time j < env.time 0 + 2) →
        mpegSync s env = ⟨0, k + 1316⟩ := by
  have aligned : Aligned s ⟨0, 0, by decide⟩ 0 :=
    ⟨Nat.zero_le _, rfl, fun stop _ => Nat.zero_le stop, fun i none =>
      absurd none (Nat.not_lt_zero i)⟩
  have bounded : Bounded s (mpegSync s env) := bounded_syncLoop true aligned
  refine ⟨bounded.consumed, ?_, ?_⟩
  · intro success
    obtain ⟨start, consumed, synced⟩ := bounded.synced success
    exact ⟨start, consumed, consumed ▸ bounded.delivered, synced⟩
  · intro k early none synced delivers told inTime
    exact syncLoop_misses early none synced delivers told inTime (Nat.zero_le k) rfl

/-- A source whose sync bytes are found after two others. -/
def sampleSource : Source where
  byte j := if j % 188 = 2 then 0x47 else 0xff
  stop := none

def sampleSurroundings (dienow : Bool) : Surroundings where
  dienow _ := dienow
  time _ := 0

theorem mpegSync_spec_sample :
    mpegSync sampleSource (sampleSurroundings false) = ⟨0, 2 + 1316⟩ := by
  refine (mpegSync_spec sampleSource (sampleSurroundings false)).2.2 2 (by decide) ?_ ?_ ?_ ?_ ?_
  · decide
  · decide
  · exact nofun
  · exact fun j _ => rfl
  · exact fun j _ => (by decide : (0 : ℤ) < 0 + 2)

/-- The same source, for an input that has been told to exit. -/
theorem told_to_exit_not_synced :
    (∀ j < 2, sampleSource.byte j ≠ 0x47) ∧ (∀ i, sampleSource.byte (2 + 188 * i) = 0x47) ∧
      sampleSource.stop = none ∧ (∀ j, (sampleSurroundings true).time j = 0) ∧
      mpegSync sampleSource (sampleSurroundings true) = ⟨1, 0⟩ := by
  refine ⟨by decide, ?_, rfl, fun j => rfl, ?_⟩
  · intro i
    show (if (2 + 188 * i) % 188 = 2 then (0x47 : UInt8) else 0xff) = 0x47
    rw [if_pos (by omega)]
  · rw [mpegSync, syncLoop, if_pos ⟨rfl, rfl⟩]

end Mptsd.Network.Sync
