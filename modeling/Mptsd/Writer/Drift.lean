/- Unit: Mptsd/Writer/Drift
   source: src/output_write.c (ts_frame_process), src/README (Output Stream)
   digest: How far the stamped PCRs of a PID fall behind the bytes that have been sent. -/

import Mathlib.Data.List.Chain
import Mptsd.Writer.Restamp

set_option autoImplicit false
set_option relaxedAutoImplicit false

namespace Mptsd.Writer.Drift

open Mptsd.TsPacket
open Mptsd.Conf (Config sampleConfig)
open Mptsd.Sections (pcrPacket)
open Mptsd.Writer.Model
open Mptsd.Writer.Restamp

/-- The stamps of one PID, in order. -/
def stampsOf (log : List Stamp) (pid : ℕ) : List Stamp := log.filter (fun s => s.pid = pid)

variable (ts : TsFuncs) (conf : Config)

/-- The ticks of the 27 MHz clock for a number of bytes at the output bitrate. -/
def ticks (bytes : ℤ) : ℚ := bytes * (8 * 27000000) / conf.outputBitrate

/-- The PCR that the bytes since the first packet of the PID call for. -/
def ideal (first s : Stamp) : ℚ := first.orgPcr + ticks conf (bytesBetween first s)

/-- Where the clock of a PID that was at `x` is one stamp later. A PCR of 0 is taken for none, and
the next one is left as it is. -/
def clockNext (x : ℕ) (a b : Stamp) : ℕ :=
  if x = 0 then b.orgPcr else advanced ts conf a b x

/-- The ticks that the roundings of the quotient and of the sum add to the whole ones. -/
def roundedUp (x : ℕ) (a b : Stamp) : ℤ :=
  clockNext ts conf x a b - (x + ⌊ticks conf (bytesBetween a b)⌋)

/-- What is lost from one stamp to the next: the fraction of a tick that the store in an integer
cuts off, unless the roundings have made it up. -/
def lost (x : ℕ) (a b : Stamp) : ℚ :=
  if x = 0 then ticks conf (bytesBetween a b) - b.orgPcr
  else Int.fract (ticks conf (bytesBetween a b)) - roundedUp ts conf x a b

/-- The losses of all steps from a stamp on where the clock is at `x`. -/
def lossesFrom (x : ℕ) (a : Stamp) : List Stamp → List ℚ
  | [] => []
  | b :: rest => lost ts conf x a b :: lossesFrom (clockNext ts conf x a b) b rest

def losses : List Stamp → List ℚ
  | [] => []
  | first :: rest => lossesFrom ts conf first.orgPcr first rest

/-- No step leaves the 64 bits. -/
structure Fits (a b : Stamp) : Prop where
  forward : 0 ≤ bytesBetween a b
  product : bytesBetween a b * (8 * 27000000) < 2 ^ 64
  sum : pcrSum ts a.kept (productBetween a b) conf.outputBitrate < 2 ^ 64

instance (a b : Stamp) : Decidable (Fits ts conf a b) :=
  decidable_of_iff (0 ≤ bytesBetween a b ∧ bytesBetween a b * (8 * 27000000) < 2 ^ 64 ∧
      pcrSum ts a.kept (productBetween a b) conf.outputBitrate < 2 ^ 64)
    ⟨fun ⟨forward, product, sum⟩ => ⟨forward, product, sum⟩,
      fun h => ⟨h.forward, h.product, h.sum⟩⟩

/-- The packet leaves with the PCR that is kept. -/
def Leaves (s : Stamp) : Prop :=
  s.sent = ts.setPcr s.received s.kept ∨ (s.sent = s.received ∧ s.kept = s.orgPcr)

variable {ts conf}

theorem chain_stampsOf {t : Traced} (logged : Logged ts conf t) (pid : ℕ) :
    (stampsOf t.log pid).IsChain (Follows ts conf) := by
  rw [List.isChain_iff_forall_rel_of_append_cons_cons]
  intro a b earlier later split
  obtain ⟨front, back, whole, -, tail⟩ := List.filter_eq_append_iff.mp split
  obtain ⟨between, rest, middle, -, own, next⟩ := List.filter_eq_cons_iff.mp tail
  obtain ⟨between', rest', middle', others, own', -⟩ := List.filter_eq_cons_iff.mp next
  have pidA : a.pid = pid := by simpa using own
  have pidB : b.pid = pid := by simpa using own'
  refine logged.pairs (front ++ between) a between' b rest' ?_ (pidA.trans pidB.symm) ?_
  · rw [whole, middle, middle']
    simp
  · intro s member
    rw [pidA]
    simpa using others s member

theorem head_stampsOf {t : Traced} (logged : Logged ts conf t) {pid : ℕ} {first : Stamp}
    {rest : List Stamp} (list : stampsOf t.log pid = first :: rest) :
    first.kept = first.orgPcr ∧ first.sent = first.received := by
  obtain ⟨front, back, split, others, own, -⟩ := List.filter_eq_cons_iff.mp list
  have pidA : first.pid = pid := by simpa using own
  apply logged.firsts front first back split
  intro s member
  rw [pidA]
  simpa using others s member

private theorem kept_eq_clockNext {a b : Stamp} (follows : Follows ts conf a b)
    (fits : Fits ts conf a b)
    (increasing : a.orgPcr < b.orgPcr) : b.kept = clockNext ts conf a.kept a b := by
  rw [clockNext]
  split_ifs with none
  · exact (follows.reset (Or.inl none)).1
  · have sum : pcrSum ts a.kept (productBetween a b) conf.outputBitrate < (2 ^ 64 : ℕ) := by
      push_cast
      exact fits.sum
    rw [follows.kept none increasing]
    exact Nat.mod_eq_of_lt ((Nat.floor_lt' (by norm_num)).mpr sum)

private theorem lost_eq (x : ℕ) (a b : Stamp) :
    lost ts conf x a b = ticks conf (bytesBetween a b) - ((clockNext ts conf x a b : ℚ) - x) := by
  rw [lost]
  split_ifs with none
  · rw [clockNext, if_pos none, none]
    simp
  · rw [roundedUp, Int.fract]
    push_cast
    ring

/-- While a PCR has its legal size and few bytes have gone out, what a step loses is a fraction of
a tick, or the sum was so close to the next whole tick that it was rounded to it. -/
theorem roundedUp_bounds {x : ℕ} {a b : Stamp} (some : x ≠ 0) (legal : x < pcrRange)
    (forward : 0 ≤ bytesBetween a b) (small : bytesBetween a b * (8 * 27000000) < 2 ^ 53) :
    roundedUp ts conf x a b = 0 ∨ roundedUp ts conf x a b = 1 := by
  have rate := conf.rate.bitrate_bounds.1
  have positive : 0 ≤ bytesBetween a b * (8 * 27000000) := mul_nonneg forward (by norm_num)
  have product : (productBetween a b : ℤ) = bytesBetween a b * (8 * 27000000) := by
    rw [productBetween, Int.emod_eq_of_lt positive (small.trans (by norm_num)),
      Int.toNat_of_nonneg positive]
  have floor : ⌊ticks conf (bytesBetween a b)⌋ = (productBetween a b / conf.outputBitrate : ℕ) := by
    have cast : ticks conf (bytesBetween a b) = (productBetween a b : ℚ) / conf.outputBitrate := by
      rw [ticks, ← Int.cast_natCast (productBetween a b), product]
      push_cast
      ring
    rw [cast, Rat.floor_natCast_div_natCast, Int.natCast_div]
  have quotient : productBetween a b / conf.outputBitrate ≤ 2 ^ 53 / 2000320 :=
    Nat.div_le_div (by omega) rate (by norm_num)
  rw [pcrRange] at legal
  have positive : 0 < conf.outputBitrate := by unfold Config.outputBitrate; omega
  have small : x + productBetween a b / conf.outputBitrate + 1 < 2 ^ 53 := by omega
  obtain ⟨above, below⟩ := pcrSum_bounds ts (by omega) positive small
  have least := Nat.le_floor above
  have most := Nat.floor_le_of_le below
  rw [roundedUp, clockNext, if_neg some, advanced, floor]
  omega

variable (conf) in
private theorem ticks_add (a b c : Stamp) :
    ticks conf (bytesBetween a c) =
      ticks conf (bytesBetween a b) + ticks conf (bytesBetween b c) := by
  have sum : bytesBetween a c = bytesBetween a b + bytesBetween b c := by
    unfold bytesBetween
    ring
  unfold ticks
  rw [sum]
  push_cast
  ring

private theorem error_eq_sum {rest : List Stamp} {a s : Stamp} {n : ℕ}
    (follows : (a :: rest).IsChain (Follows ts conf)) (fits : (a :: rest).IsChain (Fits ts conf))
    (increasing : (a :: rest).IsChain fun x y => x.orgPcr < y.orgPcr)
    (found : (a :: rest)[n]? = some s) :
    ticks conf (bytesBetween a s) - ((s.kept : ℚ) - a.kept) =
      ((lossesFrom ts conf a.kept a rest).take n).sum := by
  induction rest generalizing a n with
  | nil =>
      cases n with
      | zero =>
          obtain rfl : a = s := by simpa using found
          simp [ticks, bytesBetween]
      | succ n => simp at found
  | cons b rest ih =>
      cases n with
      | zero =>
          obtain rfl : a = s := by simpa using found
          simp [ticks, bytesBetween]
      | succ n =>
          rw [List.isChain_cons_cons] at follows fits increasing
          have kept := kept_eq_clockNext follows.1 fits.1 increasing.1
          have later := ih follows.2 fits.2 increasing.2 (by simpa using found)
          have whole := ticks_add conf a b s
          rw [lossesFrom, List.take_succ_cons, List.sum_cons, ← kept, ← later, lost_eq, ← kept,
            whole]
          ring

theorem leaves_of_logged {t : Traced} (logged : Logged ts conf t)
    (rewriting : conf.pcrMode = 2 ∨ conf.pcrMode = 3) {pid : ℕ} :
    ∀ s ∈ stampsOf t.log pid, Leaves ts s := by
  have chain := chain_stampsOf logged pid
  cases list : stampsOf t.log pid with
  | nil => simp
  | cons first rest =>
      obtain ⟨kept, sent⟩ := head_stampsOf logged list
      have start : Leaves ts first := Or.inr ⟨sent, kept⟩
      rw [list] at chain
      clear list kept sent
      induction rest generalizing first with
      | nil => simpa using start
      | cons b rest ih =>
          rw [List.isChain_cons_cons] at chain
          have next : Leaves ts b := by
            by_cases reset : first.kept = 0 ∨ b.orgPcr ≤ first.orgPcr
            · obtain ⟨kept, sent⟩ := chain.1.reset reset
              exact Or.inr ⟨sent, kept⟩
            · push Not at reset
              exact Or.inl (chain.1.sent reset.1 reset.2 rewriting)
          rw [List.forall_mem_cons]
          exact ⟨start, ih b chain.2 next⟩

/-- A frame with `n` packets of PID 0x101 with a PCR, sent to the last byte. -/
def pcrFrame (n : ℕ) : Frame × FrameIo :=
  ((List.range n).map (fun k => pcrPacket 0x101 (90000 + k)) ++
    List.replicate (7 - n) nullPacket, ⟨1316, 0, 0⟩)

/-- The stamps of this frame at 38 Mbps. -/
def pcrStamps (n : ℕ) : List Stamp :=
  stampsOf (traceRun headerFuncs (sampleConfig 3) (traceStart (sampleConfig 3) false 0)
    [pcrFrame n]).log 0x101

private theorem whole_pcrFrame : ∀ n ≤ 7, ∀ x ∈ [pcrFrame n], x.1.length = 7 := by
  intro n le x member
  obtain rfl := List.mem_singleton.mp member
  simp only [pcrFrame, List.length_append, List.length_map, List.length_range,
    List.length_replicate]
  omega

end Mptsd.Writer.Drift
