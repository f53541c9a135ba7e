/- Unit: Mptsd/TsPacket
   source: src/data.h, src/data.c (obuf_reset), src/input.c (process_pat)
   digest: Transport stream packets as bytes, and what the program takes from outside: the packet
   accessors of its TS library and the arithmetic on `double`. -/

import Mathlib.Tactic
import Mptsd.Lib.Floating

set_option autoImplicit false
set_option relaxedAutoImplicit false

namespace Mptsd.TsPacket

open Mptsd.Lib.Floating (Rounding binary64)

/-- `TS_PACKET_SIZE`. -/
def tsPacketSize : ℕ := 188

/-- `FRAME_PACKET_SIZE`: seven packets. -/
def framePacketSize : ℕ := 1316

/-- `RTP_HEADER_SIZE`. -/
def rtpHeaderSize : ℕ := 12

/-- Every packet has a first byte. -/
instance packetSize_neZero : NeZero 188 := ⟨by decide⟩

/-- The 188 bytes of one transport stream packet. -/
abbrev Packet := Fin 188 → UInt8

/-- The packets one network write carries. -/
abbrev Frame := List Packet

/-- The PID of stuffing. -/
def nullPid : ℕ := 0x1fff

/-- PCRs are counted modulo this number of ticks of 27 MHz. -/
def pcrRange : ℕ := 2 ^ 33 * 300

/-- A stuffing packet: `47 1f ff` and a fourth byte, every other byte `0xff`. -/
def stuffing (fourth : UInt8) : Packet := fun k =>
  if k = 0 then 0x47 else if k = 1 then 0x1f else if k = 2 then 0xff
  else if k = 3 then fourth else 0xff

/-- What `obuf_reset` writes into every slot. -/
def nullPacket : Packet := stuffing 0x00

/-- What `process_pat` writes over a packet it has consumed. -/
def stuffedPacket : Packet := stuffing 0x10

/-- The accessors of the TS library that the program calls on packets, and how the machine rounds
the results of type `double`. The fields below the functions are the documented behaviour the
program relies on. -/
structure TsFuncs where
  doubles : Rounding 53
  getPid : Packet → ℕ
  setPid : Packet → ℕ → Packet
  getCont : Packet → ℕ
  setCont : Packet → ℕ → Packet
  hasPcr : Packet → Bool
  getPcr : Packet → ℕ
  setPcr : Packet → ℕ → Packet
  getPid_bytes : ∀ p, getPid p = (p 1).toNat % 32 * 256 + (p 2).toNat
  getPid_setPid : ∀ p n, getPid (setPid p n) = n % 0x2000
  getPid_setCont : ∀ p n, getPid (setCont p n) = getPid p
  getPid_setPcr : ∀ p n, getPid (setPcr p n) = getPid p
  getCont_setPid : ∀ p n, getCont (setPid p n) = getCont p
  getCont_setCont : ∀ p n, getCont (setCont p n) = n % 16
  getCont_setPcr : ∀ p n, getCont (setPcr p n) = getCont p
  hasPcr_adaptation : ∀ p, hasPcr p = true → (p 3).toNat / 32 % 2 = 1
  getPcr_lt : ∀ p, getPcr p < 2 ^ 64
  getPcr_setPcr : ∀ p n, hasPcr p = true → n < 2 ^ 33 * 300 → getPcr (setPcr p n) = n
  sync_setPid : ∀ p n, setPid p n 0 = p 0
  sync_setCont : ∀ p n, setCont p n 0 = p 0
  sync_setPcr : ∀ p n, setPcr p n 0 = p 0

attribute [simp] TsFuncs.getPid_setCont TsFuncs.getPid_setPcr TsFuncs.getCont_setPid
  TsFuncs.getCont_setPcr TsFuncs.sync_setPid TsFuncs.sync_setCont TsFuncs.sync_setPcr

namespace TsFuncs

variable (ts : TsFuncs)

/-- The same accessors on a machine that computes with `double` exactly. -/
def exactly : TsFuncs := { ts with doubles := .exact }

theorem getPid_lt (p : Packet) : ts.getPid p < 0x2000 := by
  have := (p 2).toNat_lt
  rw [ts.getPid_bytes]
  omega

private theorem getPid_congr {p q : Packet} (one : p 1 = q 1) (two : p 2 = q 2) :
    ts.getPid p = ts.getPid q := by
  rw [ts.getPid_bytes, ts.getPid_bytes, one, two]

@[simp] theorem getPid_stuffing (b : UInt8) : ts.getPid (stuffing b) = nullPid := by
  rw [ts.getPid_bytes]
  simp [stuffing, nullPid]

@[simp] theorem getPid_nullPacket : ts.getPid nullPacket = nullPid := ts.getPid_stuffing _

@[simp] theorem getPid_update_three (p : Packet) (b : UInt8) :
    ts.getPid (Function.update p 3 b) = ts.getPid p :=
  ts.getPid_congr (by simp) (by simp)

theorem hasPcr_update_three (p : Packet) : ts.hasPcr (Function.update p 3 0x10) = false := by
  cases h : ts.hasPcr (Function.update p 3 0x10) with
  | false => rfl
  | true =>
      have := ts.hasPcr_adaptation _ h
      simp at this

end TsFuncs

/-- The thirty-three bit base and nine bit extension of the PCR field. -/
private def pcrField (p : Packet) : ℕ :=
  ((p 6).toNat * 2 ^ 25 + (p 7).toNat * 2 ^ 17 + (p 8).toNat * 2 ^ 9 + (p 9).toNat * 2 +
    (p 10).toNat / 128) * 300 + ((p 10).toNat % 2 * 256 + (p 11).toNat)

private def withPcrField (p : Packet) (v : ℕ) : Packet := fun k =>
  if k = 6 then .ofNat (v / 300 / 2 ^ 25)
  else if k = 7 then .ofNat (v / 300 / 2 ^ 17)
  else if k = 8 then .ofNat (v / 300 / 2 ^ 9)
  else if k = 9 then .ofNat (v / 300 / 2)
  else if k = 10 then .ofNat (v / 300 % 2 * 128 + 126 + v % 300 / 256)
  else if k = 11 then .ofNat (v % 300)
  else p k

private theorem base_bytes {b : ℕ} (small : b < 2 ^ 33) :
    b / 2 ^ 25 % 256 * 2 ^ 25 + b / 2 ^ 17 % 256 * 2 ^ 17 + b / 2 ^ 9 % 256 * 2 ^ 9 +
      b / 2 % 256 * 2 + b % 2 = b := by
  have top : b / 2 ^ 25 % 256 = b / 2 ^ 25 := Nat.mod_eq_of_lt (by omega)
  have third : 256 * (b / 2 ^ 25) + b / 2 ^ 17 % 256 = b / 2 ^ 17 := by
    rw [show (2 : ℕ) ^ 25 = 2 ^ 17 * 256 by norm_num, ← Nat.div_div_eq_div_mul]
    exact Nat.div_add_mod _ _
  have second : 256 * (b / 2 ^ 17) + b / 2 ^ 9 % 256 = b / 2 ^ 9 := by
    rw [show (2 : ℕ) ^ 17 = 2 ^ 9 * 256 by norm_num, ← Nat.div_div_eq_div_mul]
    exact Nat.div_add_mod _ _
  have first : 256 * (b / 2 ^ 9) + b / 2 % 256 = b / 2 := by
    rw [show (2 : ℕ) ^ 9 = 2 * 256 by norm_num, ← Nat.div_div_eq_div_mul]
    exact Nat.div_add_mod _ _
  have low := Nat.div_add_mod b 2
  rw [top]
  generalize b / 2 ^ 25 = w at *
  generalize b / 2 ^ 17 % 256 = x' at *
  generalize b / 2 ^ 17 = x at *
  generalize b / 2 ^ 9 % 256 = y' at *
  generalize b / 2 ^ 9 = y at *
  omega

private theorem tenth_byte (b : ℕ) {e : ℕ} (small : e < 300) :
    (b % 2 * 128 + 126 + e / 256) % 256 / 128 = b % 2 ∧
      (b % 2 * 128 + 126 + e / 256) % 256 % 2 = e / 256 := by
  have bit : e / 256 ≤ 1 := by omega
  have parity : b % 2 ≤ 1 := by omega
  generalize e / 256 = x at *
  generalize b % 2 = y at *
  constructor <;> omega

private theorem pcrField_withPcrField (p : Packet) {v : ℕ} (small : v < 2 ^ 33 * 300) :
    pcrField (withPcrField p v) = v := by
  have base := base_bytes (b := v / 300) (by omega)
  have bytes := tenth_byte (v / 300) (Nat.mod_lt v (show 0 < 300 by norm_num))
  have extension := Nat.div_add_mod (v % 300) 256
  have whole := Nat.div_add_mod v 300
  simp only [pcrField, withPcrField, if_true, if_false, UInt8.toNat_ofNat', Fin.reduceEq,
    Nat.reducePow, bytes.1, bytes.2] at base ⊢
  rw [base, Nat.mul_comm (v % 300 / 256), extension, Nat.mul_comm (v / 300), whole]

/-- The usual layout of the packet header, which is a model of the accessors, on a machine with
`double` of 64 bits. -/
def headerFuncs : TsFuncs where
  doubles := binary64
  getPid p := (p 1).toNat % 32 * 256 + (p 2).toNat
  setPid p n := fun k =>
    if k = 1 then .ofNat ((p 1).toNat / 32 * 32 + n / 256 % 32)
    else if k = 2 then .ofNat n else p k
  getCont p := (p 3).toNat % 16
  setCont p n := fun k => if k = 3 then .ofNat ((p 3).toNat / 16 * 16 + n % 16) else p k
  hasPcr p := (p 3).toNat / 32 % 2 = 1 && (p 4).toNat ≠ 0 && (p 5).toNat / 16 % 2 = 1
  getPcr := pcrField
  setPcr := withPcrField
  getPid_bytes _ := rfl
  getPid_setPid p n := by
    have := (p 1).toNat_lt
    simp
    omega
  getPid_setCont p n := by simp
  getPid_setPcr p n := by simp [withPcrField]
  getCont_setPid p n := by simp
  getCont_setCont p n := by
    have := (p 3).toNat_lt
    simp
  getCont_setPcr p n := by simp [withPcrField]
  hasPcr_adaptation p h := by
    simp only [Bool.and_eq_true, decide_eq_true_eq] at h
    exact h.1.1
  getPcr_lt p := by
    have := (p 6).toNat_lt
    have := (p 7).toNat_lt
    have := (p 8).toNat_lt
    have := (p 9).toNat_lt
    have := (p 10).toNat_lt
    have := (p 11).toNat_lt
    rw [pcrField]
    omega
  getPcr_setPcr p n _ small := by
    exact pcrField_withPcrField p small
  sync_setPid p n := by simp
  sync_setCont p n := by simp
  sync_setPcr p n := by simp [withPcrField]

end Mptsd.TsPacket
