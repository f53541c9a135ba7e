/- Unit: Mptsd/Lib/Rtp
   digest: The fixed header of a datagram of the real-time transport protocol, and its clock. -/

import Mptsd.Lib.Radix

set_option autoImplicit false
set_option relaxedAutoImplicit false

namespace Mptsd.Lib.Rtp

open Mptsd.Lib.Radix

/-- The fields of the first twelve bytes. -/
structure Header where
  version : ℕ
  padding : ℕ
  extension : ℕ
  csrcCount : ℕ
  marker : ℕ
  payloadType : ℕ
  sequenceNumber : ℕ
  timestamp : ℕ
  ssrc : ℕ
  deriving DecidableEq

/-- Bytes in network order as a number. -/
def number (bytes : List UInt8) : ℕ := value 256 (bytes.map UInt8.toNat)

/-- The header, and all that follows it. -/
def decode : List UInt8 → Option (Header × List UInt8)
  | first :: second :: rest =>
      if rest.length < 10 then none
      else
        some
          ({ version := first.toNat / 64
             padding := first.toNat / 32 % 2
             extension := first.toNat / 16 % 2
             csrcCount := first.toNat % 16
             marker := second.toNat / 128
             payloadType := second.toNat % 128
             sequenceNumber := number (rest.take 2)
             timestamp := number ((rest.drop 2).take 4)
             ssrc := number ((rest.drop 6).take 4) }, rest.drop 10)
  | _ => none

/-- Fields of their lengths are found again, whatever follows. -/
theorem decode_fields (first second : UInt8) {sequence clock source : List UInt8}
    (two : sequence.length = 2) (four : clock.length = 4) (four' : source.length = 4)
    (payload : List UInt8) :
    decode (first :: second :: (sequence ++ (clock ++ (source ++ payload)))) =
      some
        ({ version := first.toNat / 64
           padding := first.toNat / 32 % 2
           extension := first.toNat / 16 % 2
           csrcCount := first.toNat % 16
           marker := second.toNat / 128
           payloadType := second.toNat % 128
           sequenceNumber := number sequence
           timestamp := number clock
           ssrc := number source }, payload) := by
  have long : ¬ (sequence ++ (clock ++ (source ++ payload))).length < 10 := by
    simp only [List.length_append]
    omega
  have afterSequence : (sequence ++ (clock ++ (source ++ payload))).drop 2 =
      clock ++ (source ++ payload) := List.drop_left' two
  have afterClock : (sequence ++ (clock ++ (source ++ payload))).drop 6 = source ++ payload := by
    rw [show 6 = 2 + 4 from rfl, ← List.drop_drop, afterSequence, List.drop_left' four]
  have afterSource : (sequence ++ (clock ++ (source ++ payload))).drop 10 = payload := by
    rw [show 10 = 6 + 4 from rfl, ← List.drop_drop, afterClock, List.drop_left' four']
  rw [decode, if_neg long, afterSequence, afterClock, afterSource, List.take_left' two,
    List.take_left' four, List.take_left' four']

/-- The ticks of a clock of 90 kHz after `t` microseconds. -/
def ticks (t : ℕ) : ℕ := 9 * t / 100

/-- Timestamps of 32 bits tell how many ticks have gone by, up to full rounds of the counter; these
are the time that has gone by, to less than a tick. -/
theorem ticks_elapsed {t t' : ℕ} (le : t ≤ t') :
    (ticks t' % 2 ^ 32 + 2 ^ 32 - ticks t % 2 ^ 32) % 2 ^ 32 = (ticks t' - ticks t) % 2 ^ 32 ∧
      9 * (t' - t) < 100 * (ticks t' - ticks t + 1) ∧
      100 * (ticks t' - ticks t) < 9 * (t' - t) + 100 := by
  simp only [ticks]
  omega

end Mptsd.Lib.Rtp
