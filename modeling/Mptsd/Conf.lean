/- Unit: Mptsd/Conf
   source: src/config.h, src/config.c (config_load)
   digest: The settings the threads read, with the output bitrate as config_load aligns it. -/

import Mathlib.Algebra.Order.Floor.Semiring
import Mathlib.Data.Rat.Floor
import Mathlib.Tactic
import Mptsd.TsPacket

set_option autoImplicit false
set_option relaxedAutoImplicit false

namespace Mptsd.Conf

open Mptsd.TsPacket (framePacketSize)

/-- A bitrate `-B` accepts, in Mbps. -/
structure OutputRate where
  mbps : ℚ
  lower : 2 ≤ mbps
  upper : mbps ≤ 75

namespace OutputRate

/-- `conf->output_packets_per_sec`: whole frames per second, rounded up. -/
def packetsPerSec (rate : OutputRate) : ℕ :=
  ⌈rate.mbps * 1000000 / (framePacketSize * 8)⌉₊

/-- `conf->output_bitrate` after the alignment, in bits per second. -/
def bitrate (rate : OutputRate) : ℕ := rate.packetsPerSec * (framePacketSize * 8)

private theorem packetsPerSec_bounds (rate : OutputRate) :
    190 ≤ rate.packetsPerSec ∧ rate.packetsPerSec ≤ 7124 := by
  have lower := rate.lower
  have upper := rate.upper
  rw [packetsPerSec, framePacketSize]
  constructor
  · by_contra small
    have below : ⌈rate.mbps * 1000000 / ((1316 : ℕ) * 8)⌉₊ ≤ 189 := by omega
    have := Nat.ceil_le.mp below
    push_cast at this
    linarith
  · apply Nat.ceil_le.mpr
    push_cast
    linarith

theorem bitrate_bounds (rate : OutputRate) :
    2000320 ≤ rate.bitrate ∧ rate.bitrate ≤ 75001472 := by
  have := rate.packetsPerSec_bounds
  rw [bitrate, framePacketSize]
  omega

/-- The frames of an output buffer, as `output_buffer_alloc` computes them for its 100 ms. -/
def obufFrames (rate : OutputRate) : ℕ :=
  ⌈(⌈(rate.bitrate : ℚ) / (framePacketSize * 8)⌉₊ : ℚ) / (1000 / 100)⌉₊

theorem obufFrames_le (rate : OutputRate) : rate.obufFrames ≤ 713 := by
  have aligned : ⌈(rate.bitrate : ℚ) / (framePacketSize * 8)⌉₊ = rate.packetsPerSec := by
    rw [bitrate, framePacketSize]
    push_cast
    rw [mul_div_assoc, show (10528 : ℚ) / (1316 * 8) = 1 by norm_num, mul_one, Nat.ceil_natCast]
  have upper : (rate.packetsPerSec : ℚ) ≤ 7124 := by
    exact_mod_cast rate.packetsPerSec_bounds.2
  rw [obufFrames]
  rw [aligned]
  apply Nat.ceil_le.mpr
  push_cast
  linarith

theorem obufFrames_pos (rate : OutputRate) : 0 < rate.obufFrames := by
  have positive : (0 : ℚ) < rate.bitrate := by
    have := rate.bitrate_bounds.1
    exact_mod_cast (show 0 < rate.bitrate by omega)
  have frames : 0 < ⌈(rate.bitrate : ℚ) / (framePacketSize * 8)⌉₊ := by
    apply Nat.ceil_pos.mpr
    rw [framePacketSize]
    positivity
  apply Nat.ceil_pos.mpr
  have : (0 : ℚ) < (⌈(rate.bitrate : ℚ) / (framePacketSize * 8)⌉₊ : ℕ) := by
    exact_mod_cast frames
  positivity

end OutputRate

structure Config where
  pcrMode : ℕ
  rate : OutputRate
  transportStreamId : ℕ
  writeOutputNetwork : Bool

/-- `conf->output_bitrate`, which `output_buffer_alloc` copies to `o->output_bitrate`. -/
def Config.outputBitrate (conf : Config) : ℕ := conf.rate.bitrate

/-- `obuf[0].size / TS_PACKET_SIZE`. -/
def Config.obufPackets (conf : Config) : ℕ := 7 * conf.rate.obufFrames

/-- A transport stream of 38 Mbps. -/
def sampleConfig (pcrMode : ℕ) : Config where
  pcrMode
  rate := ⟨38, by norm_num, by norm_num⟩
  transportStreamId := 1
  writeOutputNetwork := true

end Mptsd.Conf
