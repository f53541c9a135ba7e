/- Unit: Mptsd/Mixer/Distance
   source: src/output_mix.c (output_handle_mix, the required number of packets)
   digest: For which pairs of PCRs the number of packets between them is computed correctly. -/

import Mptsd.Mixer.Model

set_option autoImplicit false
set_option relaxedAutoImplicit false

namespace Mptsd.Mixer.Distance

open Mptsd.TsPacket (pcrRange)
open Mptsd.Conf (Config sampleConfig)
open Mptsd.Lib.Arith
open Mptsd.Mixer.Model

/-- The packets sent in one tick of 27 MHz. -/
def rate (conf : Config) : ℚ := conf.outputBitrate / 8 / 27000000 / 188

/-- The `double` that is stored in `output_pcr_packets_needed`: the difference of the PCRs is taken
in 64 bits without a sign. -/
def computed (conf : Config) (last cur : ℕ) : ℤ :=
  roundAway (rate conf * ((cur + 2 ^ 64 - last) % 2 ^ 64 : ℕ)) - 1

/-- The value fits into an `int`, and the result is the number of packets that belong between the
two PCRs, wrap-around included, within the bounds of a buffer. -/
structure Meant (conf : Config) (last cur : ℕ) : Prop where
  fits : -2 ^ 31 ≤ computed conf last cur ∧ computed conf last cur < 2 ^ 31
  needed : packetsNeeded conf conf.obufPackets cur last =
    min (conf.obufPackets : ℤ)
      (max 0 (roundAway (rate conf * ((cur + pcrRange - last) % pcrRange : ℕ)) - 1))

variable {conf : Config} {last cur : ℕ}

private theorem rate_bounds (conf : Config) : 1 / 21000 < rate conf ∧ rate conf < 1 := by
  obtain ⟨lower, upper⟩ := conf.rate.bitrate_bounds
  have lower' : (2000320 : ℚ) ≤ conf.outputBitrate := by exact_mod_cast lower
  have upper' : (conf.outputBitrate : ℚ) ≤ 75001472 := by exact_mod_cast upper
  rw [rate]
  constructor <;> linarith

private theorem packetsNeeded_eq
    (fits : -2 ^ 31 ≤ computed conf last cur ∧ computed conf last cur < 2 ^ 31) :
    packetsNeeded conf conf.obufPackets cur last =
      min (conf.obufPackets : ℤ) (max 0 (computed conf last cur)) := by
  have small := conf.rate.obufFrames_le
  have bound : conf.obufPackets < (2 ^ 31 - 1) / 2 := by
    rw [Config.obufPackets]
    omega
  have same : roundAway ((conf.outputBitrate : ℚ) / 8 / 27000000 / 188 *
      ((cur + 2 ^ 64 - last) % 2 ^ 64 : ℕ)) - 1 = computed conf last cur := rfl
  unfold packetsNeeded storeInt
  dsimp only
  rw [same, if_pos fits, if_pos bound]
  generalize computed conf last cur = value
  split_ifs <;> omega

variable (conf last cur) in
private theorem computed_fits_iff :
    (-2 ^ 31 ≤ computed conf last cur ∧ computed conf last cur < 2 ^ 31) ↔
      rate conf * ((cur + 2 ^ 64 - last) % 2 ^ 64 : ℕ) < 2 ^ 31 + 1 / 2 := by
  have nonneg : 0 ≤ rate conf * ((cur + 2 ^ 64 - last) % 2 ^ 64 : ℕ) :=
    mul_nonneg (by have := (rate_bounds conf).1; linarith) (Nat.cast_nonneg _)
  rw [computed]
  generalize rate conf * ((cur + 2 ^ 64 - last) % 2 ^ 64 : ℕ) = x at nonneg
  have low : 0 ≤ roundAway x := by
    rw [roundAway, if_pos nonneg]
    exact Int.floor_nonneg.mpr (by linarith)
  have high : roundAway x < 2 ^ 31 + 1 ↔ x < 2 ^ 31 + 1 / 2 := by
    rw [roundAway, if_pos nonneg, Int.floor_lt]
    push_cast
    constructor <;> intro <;> linarith
  rw [← high]
  omega

/-- The number of packets is computed as meant exactly when the second PCR is not the smaller one
and the output carries less than `2 ^ 31` packets and a half between them. -/
theorem needed_meant_iff (legal : last < pcrRange) (legal' : cur < pcrRange) :
    Meant conf last cur ↔ last ≤ cur ∧ rate conf * (cur - last : ℕ) < 2 ^ 31 + 1 / 2 := by
  rw [pcrRange] at legal legal'
  have low := (rate_bounds conf).1
  by_cases order : last ≤ cur
  · have distance : (cur + 2 ^ 64 - last) % 2 ^ 64 = cur - last := by
      rw [show cur + 2 ^ 64 - last = cur - last + 2 ^ 64 by omega, Nat.add_mod_right,
        Nat.mod_eq_of_lt (by omega)]
    have wrapped : (cur + pcrRange - last) % pcrRange = cur - last := by
      rw [pcrRange]
      rw [show cur + 2 ^ 33 * 300 - last = cur - last + 2 ^ 33 * 300 by omega, Nat.add_mod_right,
        Nat.mod_eq_of_lt (by omega)]
    have fits := computed_fits_iff conf last cur
    rw [distance] at fits
    constructor
    · intro h
      exact ⟨order, fits.mp h.fits⟩
    · rintro ⟨-, below⟩
      have inside := fits.mpr below
      refine ⟨inside, ?_⟩
      rw [packetsNeeded_eq inside, wrapped, computed, distance]
  · -- the difference is close to `2 ^ 64`
    refine iff_of_false ?_ (fun both => order both.1)
    intro h
    have below := (computed_fits_iff conf last cur).mp h.fits
    have large : 2 ^ 63 ≤ (cur + 2 ^ 64 - last) % 2 ^ 64 := by
      rw [Nat.mod_eq_of_lt (by omega)]
      omega
    have large' : (2 : ℚ) ^ 63 ≤ ((cur + 2 ^ 64 - last) % 2 ^ 64 : ℕ) := by exact_mod_cast large
    have product : 1 / 21000 * (2 : ℚ) ^ 63 ≤
        rate conf * ((cur + 2 ^ 64 - last) % 2 ^ 64 : ℕ) :=
      mul_le_mul low.le large' (by positivity) (by linarith)
    norm_num at product below
    linarith

theorem needed_meant_second :
    Meant (sampleConfig 1) 27000000 54000000 ↔
      27000000 ≤ 54000000 ∧ rate (sampleConfig 1) * (54000000 - 27000000 : ℕ) < 2 ^ 31 + 1 / 2 :=
  needed_meant_iff (by decide) (by decide)

/-- Around the wrap of the PCR, 10 ms apart: no packets are required, instead of 252. -/
theorem wrap_needs_nothing :
    packetsNeeded (sampleConfig 1) (sampleConfig 1).obufPackets 135000 (pcrRange - 135000) = 0 ∧
      computed (sampleConfig 1) (pcrRange - 135000) 135000 ≥ 2 ^ 31 ∧
      roundAway (rate (sampleConfig 1) *
        ((135000 + pcrRange - (pcrRange - 135000)) % pcrRange : ℕ)) - 1 = 252 ∧
      ¬ Meant (sampleConfig 1) (pcrRange - 135000) 135000 := by
  refine ⟨by decide +kernel, by decide +kernel, by decide +kernel, ?_⟩
  rw [needed_meant_iff (by decide) (by decide)]
  decide +kernel

end Mptsd.Mixer.Distance
