/- Unit: Mptsd/Transponders/Digits
   source: src/data.c (nit_new)
   digest: The decimal digits of a frequency and of a symbol rate, written as hexadecimal ones. -/

import Mptsd.Lib.Radix
import Mptsd.Reload.Load
import Mptsd.Transponders.Install

set_option autoImplicit false
set_option relaxedAutoImplicit false

namespace Mptsd.Transponders.Digits

open Mptsd.Ini (digitValue readDigits readDigits_append)
open Mptsd.Lib.Radix
open Mptsd.Reload.Load (digitValue_lt)
open Mptsd.Transponders.Model
open Mptsd.Transponders.Install (ok_bind)

/-- The digits of a string, without everything else in it. -/
def digitsOf (s : String) : List ℕ := (s.toList.filter Char.isDigit).map digitValue

/-- The nine bytes of `tmp` hold a terminator. -/
def Terminated (tmp : List Char) : Prop := '\x00' ∈ tmp.take 9

instance (tmp : List Char) : Decidable (Terminated tmp) := inferInstanceAs (Decidable (_ ∈ _))

/-- The 32 bits of `code` are the digits of `s` in BCD. -/
structure Encoded (s : String) (code : ℕ) : Prop where
  small : code < 2 ^ 32
  row : places 16 8 code = List.replicate (8 - (digitsOf s).length) 0 ++ digitsOf s
  decimal : ∀ d ∈ places 16 8 code, d ≤ 9

section digits

variable (s : String)

private theorem length_digitsOf_le : (digitsOf s).length ≤ s.length := by
  rw [digitsOf, List.length_map, ← String.length_toList]
  exact List.length_filter_le _ _

private theorem lt_of_mem_digitsOf {d : ℕ} (member : d ∈ digitsOf s) : d < 10 := by
  obtain ⟨c, kept, rfl⟩ := List.mem_map.mp member
  exact digitValue_lt (List.mem_filter.mp kept).2

private theorem length_digitsOf_eq_iff :
    (digitsOf s).length = s.length ↔ ∀ c ∈ s.toList, c.isDigit = true := by
  rw [digitsOf, List.length_map, ← String.length_toList, List.length_filter_eq_length_iff]

private theorem terminated_digitBuffer_iff (nine : s.length ≤ 9) :
    Terminated (digitBuffer s) ↔ (digitsOf s).length < 9 := by
  have le := (length_digitsOf_le s).trans nine
  have same : (digitsOf s).length = (s.toList.filter Char.isDigit).length := by
    rw [digitsOf, List.length_map]
  have whole : (digitBuffer s).length = 9 := by
    simp only [digitBuffer, List.length_append, List.length_replicate]
    omega
  rw [Terminated, List.take_of_length_le whole.le, digitBuffer, List.mem_append]
  constructor
  · rintro (digit | zero)
    · have := (List.mem_filter.mp digit).2
      exact absurd this (by decide)
    · have := (List.mem_replicate.mp zero).1
      omega
  · intro less
    exact Or.inr (List.mem_replicate.mpr ⟨by omega, rfl⟩)

private theorem lt_sixteen_of_mem_digitsOf {d : ℕ} (member : d ∈ digitsOf s) : d < 16 :=
  (lt_of_mem_digitsOf s member).trans (by norm_num)

private theorem value_digitsOf_lt (few : (digitsOf s).length < 9) :
    value 16 (digitsOf s) < 2 ^ 32 := by
  have below := value_lt (by norm_num) fun d => lt_sixteen_of_mem_digitsOf s (d := d)
  exact below.trans_le (Nat.pow_le_pow_right (by norm_num) (Nat.le_of_lt_succ few))

private theorem strtol16_digitBuffer (behind : List Char) (few : (digitsOf s).length < 9) :
    strtol16 (digitBuffer s) behind = value 16 (digitsOf s) := by
  have small : ∀ c ∈ s.toList.filter Char.isDigit, digitValue c < 16 := by
    intro c kept
    have := digitValue_lt (List.mem_filter.mp kept).2
    omega
  have same : (digitsOf s).length = (s.toList.filter Char.isDigit).length := by
    rw [digitsOf, List.length_map]
  obtain ⟨k, zeros⟩ : ∃ k, 9 - (s.toList.filter Char.isDigit).length = k + 1 :=
    Nat.exists_eq_succ_of_ne_zero (by omega)
  have bound := value_digitsOf_lt s few
  have read : readDigits 16 0 (digitBuffer s ++ behind) = value 16 (digitsOf s) := by
    rw [digitBuffer, zeros, List.append_assoc, readDigits_append small]
    · rw [Nat.zero_mul, Nat.zero_add, digitsOf]
    · intro c head
      obtain rfl : '\x00' = c := Option.some.inj head
      decide
  rw [strtol16, read]
  omega

end digits

private theorem encoded_strtol16 (s : String) (behind : List Char) (few : (digitsOf s).length < 9) :
    Encoded s (strtol16 (digitBuffer s) behind) := by
  have small : ∀ d ∈ digitsOf s, d < 16 := fun d => lt_sixteen_of_mem_digitsOf s
  have padded := places_value_of_le (by norm_num) small (Nat.le_of_lt_succ few)
  rw [strtol16_digitBuffer s behind few]
  refine ⟨value_digitsOf_lt s few, padded, ?_⟩
  intro d member
  rw [padded] at member
  rcases List.mem_append.mp member with zero | own
  · rw [List.eq_of_mem_replicate zero]
    omega
  · have := lt_of_mem_digitsOf s own
    omega

private theorem codes_of_accepted {behind : List Char} {tsId : ℕ} {freq mod symbolRate : String}
    {n : Nit}
    (accepted : nitNew behind tsId (some freq) (some mod) (some symbolRate) = .ok (some n)) :
    freq.length = 9 ∧ symbolRate.length = 8 ∧
      n.freqCode = strtol16 (digitBuffer freq) behind ∧
      n.symbolRateCode = strtol16 (digitBuffer symbolRate) behind := by
  simp only [nitNew, readString, ok_bind] at accepted
  split at accepted
  · cases accepted
  · rename_i nine
    split at accepted
    · cases accepted
    · rename_i eight
      cases accepted
      exact ⟨not_not.mp nine, not_not.mp eight, rfl, rfl⟩

/-- For every transponder that `nit_new` accepts, whatever the characters: both times the buffer is
terminated and the number is the BCD of the digits, if and only if the frequency has a character
that is no digit. -/
theorem bcd_iff (behind : List Char) (tsId : ℕ) (freq mod symbolRate : String) (n : Nit)
    (accepted : nitNew behind tsId (some freq) (some mod) (some symbolRate) = .ok (some n)) :
    (Terminated (digitBuffer freq) ∧ Encoded freq n.freqCode ∧
        Terminated (digitBuffer symbolRate) ∧ Encoded symbolRate n.symbolRateCode) ↔
      ∃ c ∈ freq.toList, c.isDigit = false := by
  obtain ⟨nine, eight, freqCode, symbolRateCode⟩ := codes_of_accepted accepted
  have short : (digitsOf symbolRate).length < 9 := by
    have := length_digitsOf_le symbolRate
    omega
  have terminated : Terminated (digitBuffer freq) ↔ ∃ c ∈ freq.toList, c.isDigit = false := by
    have le := length_digitsOf_le freq
    have all := length_digitsOf_eq_iff freq
    rw [terminated_digitBuffer_iff freq nine.le]
    constructor
    · intro few
      by_contra digits
      push Not at digits
      have := all.mpr fun c member => by simpa using digits c member
      omega
    · rintro ⟨c, member, other⟩
      by_contra many
      have := all.mp (by omega) c member
      rw [other] at this
      cases this
  rw [← terminated]
  constructor
  · rintro ⟨first, -⟩
    exact first
  · intro first
    have few := (terminated_digitBuffer_iff freq nine.le).mp first
    refine ⟨first, ?_, ?_, ?_⟩
    · rw [freqCode]
      exact encoded_strtol16 freq behind few
    · exact (terminated_digitBuffer_iff symbolRate (by omega)).mpr short
    · rw [symbolRateCode]
      exact encoded_strtol16 symbolRate behind short

/-- The frequency and the symbol rate of the configuration that comes with the program. -/
theorem bcd_iff_with_comma :
    ∃ n, nitNew [] 1 (some "0658,0000") (some "64-QAM") (some "006,8750") = .ok (some n) ∧
      ((Terminated (digitBuffer "0658,0000") ∧ Encoded "0658,0000" n.freqCode ∧
          Terminated (digitBuffer "006,8750") ∧ Encoded "006,8750" n.symbolRateCode) ↔
        ∃ c ∈ "0658,0000".toList, c.isDigit = false) :=
  ⟨_, rfl, bcd_iff [] 1 "0658,0000" "64-QAM" "006,8750" _ rfl⟩

/-- Nine digits fill the buffer: what is behind it belongs to the frequency, too. -/
theorem nine_digits_unterminated :
    ∃ n n', nitNew [] 1 (some "306000000") (some "64-QAM") (some "006,8750") = .ok (some n) ∧
      nitNew ['7'] 1 (some "306000000") (some "64-QAM") (some "006,8750") = .ok (some n') ∧
      ¬ Terminated (digitBuffer "306000000") ∧ n.freqCode = 0x06000000 ∧
      n'.freqCode = 0x60000007 :=
  ⟨_, _, rfl, rfl, by decide +kernel, by decide +kernel, by decide +kernel⟩

end Mptsd.Transponders.Digits
