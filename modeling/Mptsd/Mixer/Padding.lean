/- Unit: Mptsd/Mixer/Padding
   source: src/output_mix.c (output_handle_mix: null_per_data, data_per_null, SEND_PACKET)
   digest: How evenly the NULL packets are spread over a buffer, for every pattern of iterations
   without a packet to place. -/

import Mptsd.Mixer.Gate

set_option autoImplicit false
set_option relaxedAutoImplicit false

namespace Mptsd.Mixer.Padding

open Mptsd.TsPacket (TsFuncs nullPid headerFuncs)
open Mptsd.Conf (Config)
open Mptsd.Lib.Arith
open Mptsd.Sections (payloadPacket pcrPacket)
open Mptsd.Mixer.Model
open Mptsd.Mixer.Fill
open Mptsd.Mixer.Gate (slowConfig twoPcrs oneInput)

/-- A packet as it is placed: its iteration, and `nulls` before and after the step. -/
structure Placement where
  dataPackets : ℕ
  before : ℕ
  nulls : ℕ

/-- What the loop over the data packets keeps of the padding, and the packets placed so far. -/
structure Padded where
  nulls : ℕ
  dataPackets : ℕ
  placed : List Placement

variable (b : Budget)

/-- One iteration, with or without a packet to place. -/
def iterate (s : Padded) (places : Bool) : Padded :=
  if places then
    { nulls := mixNulls b s.nulls s.dataPackets
      dataPackets := s.dataPackets + 1
      placed := s.placed ++
        [⟨s.dataPackets, s.nulls, mixNulls b s.nulls s.dataPackets⟩] }
  else { s with dataPackets := s.dataPackets + 1 }

/-- The iterations of a buffer; `pattern` says in which of them there is a packet to place. -/
def padded (pattern : List Bool) : Padded := pattern.foldl (iterate b) ⟨0, 0, []⟩

/-- The NULL packets that belong to so many of the data packets. -/
def share (dataPackets : ℚ) : ℚ := dataPackets * (b.nullPackets / b.packets)

/-- The NULL packets inserted so far are those that belong to the data packets, up to one. -/
def EvenlySpread (x : Placement) : Prop := |(x.nulls : ℚ) - share b x.dataPackets| ≤ 1

/-- The iterations by which the placement is behind the last NULL packet. -/
def late (x : Placement) : ℤ :=
  x.dataPackets - roundAway (x.before * ((b.packets : ℚ) / b.nullPackets))

/-- There are more NULL packets than data packets, or the placement is not late, or not so late
that a NULL packet for each of those iterations is too much, or there is only one left to insert. -/
def Timely (x : Placement) : Prop :=
  b.packets < b.nullPackets ∨ late b x ≤ 0 ∨
    late b x * (1 - (b.nullPackets : ℚ) / b.packets) ≤
      1 - (x.before - share b (x.dataPackets - late b x)) ∨
    share b (b.packets - x.dataPackets) ≤ 1

instance (x : Placement) : Decidable (EvenlySpread b x) := by
  rw [EvenlySpread]
  infer_instance

section regimes

private theorem budget_regimes (maxPackets datasize : ℕ) :
    let b := budget maxPackets datasize
    b.nullPackets = 0 ∨
      b.packets < b.nullPackets ∧ b.dataPerNull = 1 ∧
        b.nullPerData = (b.nullPackets : ℚ) / b.packets ∨
      0 < b.nullPackets ∧ b.nullPackets ≤ b.packets ∧
        b.dataPerNull = (b.packets : ℚ) / b.nullPackets ∧ b.nullPerData = 1 := by
  have whole := (budget_packets_le maxPackets datasize).2.2
  have packets : (budget maxPackets datasize).packets =
      min (datasize / TsPacket.tsPacketSize) maxPackets := by
    unfold budget
    dsimp only
    split_ifs <;> rfl
  dsimp only
  rw [Budget.nullPackets, whole]
  rw [packets]
  unfold budget
  dsimp only
  generalize min (datasize / TsPacket.tsPacketSize) maxPackets = p
  by_cases free : maxPackets - p = 0
  · exact Or.inl free
  · right
    have positive : (0 : ℚ) < (maxPackets - p : ℕ) := by exact_mod_cast Nat.pos_of_ne_zero free
    rw [if_pos free]
    by_cases many : (p : ℚ) / (maxPackets - p : ℕ) < 1
    · left
      rw [if_pos many]
      rw [div_lt_one positive] at many
      exact ⟨by exact_mod_cast many, rfl, rfl⟩
    · right
      rw [if_neg many]
      rw [div_lt_one positive] at many
      exact ⟨Nat.pos_of_ne_zero free, by exact_mod_cast not_lt.mp many, rfl, rfl⟩

variable {b} {nulls dataPackets : ℕ}

variable (dataPackets) in
private theorem mixNulls_many (perNull : b.dataPerNull = 1)
    (perData : b.nullPerData = (b.nullPackets : ℚ) / b.packets) (le : nulls ≤ b.nullPackets) :
    (mixNulls b nulls dataPackets : ℤ) =
      max (nulls : ℤ) (min (b.nullPackets : ℤ) (roundAway (share b dataPackets))) := by
  rw [mixNulls, share]
  rw [perNull, perData, mul_one, roundAway_natCast]
  dsimp only
  generalize roundAway _ = wanted
  split_ifs <;> omega

variable (dataPackets) in
private theorem mixNulls_few (perNull : b.dataPerNull = (b.packets : ℚ) / b.nullPackets)
    (perData : b.nullPerData = 1) (le : nulls ≤ b.nullPackets) (n : ℕ) :
    (mixNulls b nulls dataPackets : ℤ) =
      min (b.nullPackets : ℤ) (nulls + max 0 (late b ⟨dataPackets, nulls, n⟩)) := by
  rw [mixNulls, late]
  rw [perNull, perData, mul_one, roundAway_natCast]
  dsimp only
  generalize roundAway _ = before
  split_ifs <;> omega

end regimes

section step

variable {b} {nulls dataPackets : ℕ}

variable (b dataPackets) in
private theorem share_nonneg : 0 ≤ share b dataPackets := by
  rw [share]
  positivity

private theorem share_le (some : 0 < b.packets) (le : dataPackets ≤ b.packets) :
    share b dataPackets ≤ b.nullPackets := by
  have positive : (0 : ℚ) < b.packets := by exact_mod_cast some
  have le' : (dataPackets : ℚ) ≤ b.packets := by exact_mod_cast le
  calc share b dataPackets ≤ b.packets * (b.nullPackets / b.packets) := by
        rw [share]
        gcongr
    _ = b.nullPackets := mul_div_cancel₀ _ positive.ne'

private theorem share_mono {d d' : ℚ} (le : d ≤ d') : share b d ≤ share b d' := by
  unfold share
  gcongr

private theorem evenlySpread_many (some : 0 < b.packets) (perNull : b.dataPerNull = 1)
    (perData : b.nullPerData = (b.nullPackets : ℚ) / b.packets) (le : nulls ≤ b.nullPackets)
    (inside : dataPackets ≤ b.packets) (ahead : (nulls : ℚ) ≤ share b dataPackets + 1) :
    EvenlySpread b ⟨dataPackets, nulls, mixNulls b nulls dataPackets⟩ := by
  have step := mixNulls_many dataPackets perNull perData le
  obtain ⟨above, below⟩ := roundAway_bounds (share_nonneg b dataPackets)
  have room := share_le some inside
  have cast : (mixNulls b nulls dataPackets : ℚ) = max (nulls : ℚ)
      (min (b.nullPackets : ℚ) (roundAway (share b dataPackets))) := by
    exact_mod_cast congrArg (fun z : ℤ => (z : ℚ)) step
  rw [EvenlySpread]
  dsimp only
  rw [cast, abs_le]
  constructor
  · have : share b dataPackets - 1 ≤
        min (b.nullPackets : ℚ) (roundAway (share b dataPackets)) := by
      apply le_min <;> linarith
    have := le_max_right (nulls : ℚ) (min (b.nullPackets : ℚ) (roundAway (share b dataPackets)))
    linarith
  · have : max (nulls : ℚ) (min (b.nullPackets : ℚ) (roundAway (share b dataPackets))) ≤
        share b dataPackets + 1 := by
      apply max_le ahead
      have := min_le_right (b.nullPackets : ℚ) (roundAway (share b dataPackets))
      linarith
    linarith

private theorem evenlySpread_few (free : 0 < b.nullPackets) (few : b.nullPackets ≤ b.packets)
    (perNull : b.dataPerNull = (b.packets : ℚ) / b.nullPackets) (perData : b.nullPerData = 1)
    (le : nulls ≤ b.nullPackets) (inside : dataPackets ≤ b.packets)
    (ahead : (nulls : ℚ) ≤ share b dataPackets + 1) (n : ℕ) :
    EvenlySpread b ⟨dataPackets, nulls, mixNulls b nulls dataPackets⟩ ↔
      Timely b ⟨dataPackets, nulls, n⟩ := by
  have step := mixNulls_few dataPackets perNull perData le n
  have room := share_le (by omega) inside
  have P : (0 : ℚ) < b.packets := by exact_mod_cast (show 0 < b.packets by omega)
  have N : (0 : ℚ) < b.nullPackets := by exact_mod_cast free
  have N_le : (b.nullPackets : ℚ) ≤ b.packets := by exact_mod_cast few
  generalize position : late b ⟨dataPackets, nulls, n⟩ = k at step
  have last : roundAway (nulls * ((b.packets : ℚ) / b.nullPackets)) = dataPackets - k := by
    rw [← position]
    simp only [late]
    omega
  -- the rounded product, brought back to NULL packets
  have bounds := roundAway_bounds (x := nulls * ((b.packets : ℚ) / b.nullPackets)) (by positivity)
  rw [last] at bounds
  push_cast at bounds
  have ratio_pos : 0 < (b.nullPackets : ℚ) / b.packets := div_pos N P
  have ratio_le : (b.nullPackets : ℚ) / b.packets ≤ 1 := (div_le_one P).mpr N_le
  have back : (nulls : ℚ) * ((b.packets : ℚ) / b.nullPackets) * (b.nullPackets / b.packets) =
      nulls := by
    field_simp
  have lower := mul_le_mul_of_nonneg_right bounds.2 ratio_pos.le
  rw [add_mul, back, sub_mul] at lower
  have rest : share b (b.packets - dataPackets) = b.nullPackets - share b dataPackets := by
    unfold share
    rw [sub_mul, mul_div_cancel₀ _ P.ne']
  have behind : share b (dataPackets - k) =
      share b dataPackets - k * (b.nullPackets / b.packets) := by
    unfold share
    rw [sub_mul]
  have split : share b dataPackets = dataPackets * (b.nullPackets / b.packets) := rfl
  rw [Timely, EvenlySpread]
  dsimp only
  rw [position, rest, behind, abs_le]
  have cast : (mixNulls b nulls dataPackets : ℚ) =
      min (b.nullPackets : ℚ) (nulls + max 0 (k : ℚ)) := by
    exact_mod_cast congrArg (fun z : ℤ => (z : ℚ)) step
  rw [cast]
  by_cases late : k ≤ 0
  · have late' : (k : ℚ) ≤ 0 := by exact_mod_cast late
    have le' : (nulls : ℚ) ≤ b.nullPackets := by exact_mod_cast le
    rw [max_eq_left late', add_zero, min_eq_right le']
    have product : (k : ℚ) * (b.nullPackets / b.packets) ≤ 0 :=
      mul_nonpos_of_nonpos_of_nonneg late' ratio_pos.le
    exact iff_of_true ⟨by linarith, by linarith⟩ (Or.inr (Or.inl late))
  · have late' : (1 : ℚ) ≤ k := by exact_mod_cast (show (1 : ℤ) ≤ k by omega)
    rw [max_eq_right (by linarith)]
    have low : -1 ≤ min (b.nullPackets : ℚ) (nulls + k) - share b dataPackets := by
      have : share b dataPackets - 1 ≤ min (b.nullPackets : ℚ) (nulls + k) := by
        have product : (k : ℚ) * (b.nullPackets / b.packets) ≤ k :=
          mul_le_of_le_one_right (by linarith) ratio_le
        apply le_min <;> linarith
      linarith
    constructor
    · rintro ⟨-, high⟩
      right
      right
      rcases min_choice (b.nullPackets : ℚ) (nulls + k) with all | some
      · right
        rw [all] at high
        exact high
      · left
        rw [some] at high
        linarith
    · rintro (many | early | fits | ending)
      · exact absurd many (by omega)
      · exact absurd early late
      · refine ⟨low, ?_⟩
        have := min_le_right (b.nullPackets : ℚ) (nulls + k)
        linarith
      · refine ⟨low, ?_⟩
        have := min_le_left (b.nullPackets : ℚ) (nulls + k)
        linarith

private theorem timely_of_late_le_one (free : 0 < b.nullPackets) (few : b.nullPackets ≤ b.packets)
    {x : Placement} (once : late b x ≤ 1) : Timely b x := by
  by_cases early : late b x ≤ 0
  · exact Or.inr (Or.inl early)
  · have one : late b x = 1 := by omega
    have P : (0 : ℚ) < b.packets := by exact_mod_cast (show 0 < b.packets by omega)
    have N : (0 : ℚ) < b.nullPackets := by exact_mod_cast free
    have ratio_pos : 0 < (b.nullPackets : ℚ) / b.packets := div_pos N P
    have last : roundAway (x.before * ((b.packets : ℚ) / b.nullPackets)) = x.dataPackets - 1 := by
      rw [← one]
      rw [late]
      ring
    have bounds := (roundAway_bounds
      (x := x.before * ((b.packets : ℚ) / b.nullPackets)) (by positivity)).1
    rw [last] at bounds
    push_cast at bounds
    have back : (x.before : ℚ) * ((b.packets : ℚ) / b.nullPackets) *
        (b.nullPackets / b.packets) = x.before := by
      field_simp
    have upper := mul_le_mul_of_nonneg_right bounds.le ratio_pos.le
    rw [sub_mul, back] at upper
    right
    right
    left
    rw [one]
    rw [share]
    push_cast
    linarith

end step

section pattern

variable {b}

@[simp] theorem padded_concat (pattern : List Bool) (places : Bool) :
    padded b (pattern ++ [places]) = iterate b (padded b pattern) places := by
  simp [padded]

@[simp] theorem dataPackets_padded (pattern : List Bool) :
    (padded b pattern).dataPackets = pattern.length := by
  induction pattern using List.reverseRecOn with
  | nil => rfl
  | append_singleton pattern places ih =>
      rw [padded_concat, iterate]
      split <;> simp [ih]

private theorem nulls_padded_le (pattern : List Bool) :
    (padded b pattern).nulls ≤ b.nullPackets := by
  induction pattern using List.reverseRecOn with
  | nil => exact Nat.zero_le _
  | append_singleton pattern places ih =>
      rw [padded_concat, iterate]
      split
      · exact mixNulls_le ih _
      · exact ih

end pattern

section spread

variable {maxPackets datasize : ℕ}

private theorem evenlySpread_placement {nulls dataPackets : ℕ}
    (le : nulls ≤ (budget maxPackets datasize).nullPackets)
    (inside : dataPackets < (budget maxPackets datasize).packets)
    (ahead : (nulls : ℚ) ≤ share (budget maxPackets datasize) dataPackets + 1) :
    let x : Placement :=
      ⟨dataPackets, nulls, mixNulls (budget maxPackets datasize) nulls dataPackets⟩
    EvenlySpread (budget maxPackets datasize) x ↔ Timely (budget maxPackets datasize) x := by
  have some : 0 < (budget maxPackets datasize).packets := by omega
  rcases budget_regimes maxPackets datasize with none | ⟨many, perNull, perData⟩ |
    ⟨free, few, perNull, perData⟩
  · have zero : nulls = 0 := by omega
    have step := mixNulls_le le dataPackets
    have stays : mixNulls (budget maxPackets datasize) nulls dataPackets = 0 := by omega
    refine iff_of_true ?_ (Or.inr (Or.inr (Or.inr ?_)))
    · simp [EvenlySpread, stays, share, none]
    · simp [share, none]
  · exact iff_of_true (evenlySpread_many some perNull perData le inside.le ahead) (Or.inl many)
  · exact evenlySpread_few free few perNull perData le inside.le ahead _

/-- In every buffer with data, whatever iterations have no packet to place: the NULL packets stay
evenly spread exactly when every placement is timely. -/
theorem evenly_spread_iff (maxPackets datasize : ℕ) (pattern : List Bool)
    (inside : pattern.length ≤ (budget maxPackets datasize).packets) :
    (∀ x ∈ (padded (budget maxPackets datasize) pattern).placed,
        EvenlySpread (budget maxPackets datasize) x) ↔
      ∀ x ∈ (padded (budget maxPackets datasize) pattern).placed,
        Timely (budget maxPackets datasize) x := by
  generalize same : budget maxPackets datasize = b at inside
  have both : ((∀ x ∈ (padded b pattern).placed, EvenlySpread b x) ↔
        ∀ x ∈ (padded b pattern).placed, Timely b x) ∧
      ((∀ x ∈ (padded b pattern).placed, EvenlySpread b x) →
        ((padded b pattern).nulls : ℚ) ≤ share b pattern.length + 1) := by
    induction pattern using List.reverseRecOn with
    | nil =>
        refine ⟨iff_of_true (by simp [padded]) (by simp [padded]), fun _ => ?_⟩
        simp [padded, share]
    | append_singleton pattern places ih =>
        rw [List.length_append, List.length_singleton] at inside
        obtain ⟨before, ahead⟩ := ih (by omega)
        have later : share b pattern.length ≤ share b ((pattern ++ [places]).length : ℕ) := by
          apply share_mono
          simp
        cases places with
        | false =>
            simp only [padded_concat, iterate, Bool.false_eq_true, if_false]
            exact ⟨before, fun even => (ahead even).trans (by linarith)⟩
        | true =>
            have step : (∀ x ∈ (padded b pattern).placed, EvenlySpread b x) →
                (EvenlySpread b ⟨pattern.length, (padded b pattern).nulls,
                    mixNulls b (padded b pattern).nulls pattern.length⟩ ↔
                  Timely b ⟨pattern.length, (padded b pattern).nulls,
                    mixNulls b (padded b pattern).nulls pattern.length⟩) := by
              intro even
              subst same
              exact evenlySpread_placement (nulls_padded_le pattern) (by omega) (ahead even)
            simp only [padded_concat, iterate, if_true, dataPackets_padded, List.forall_mem_append,
              List.forall_mem_singleton]
            refine ⟨?_, ?_⟩
            · rw [← before]
              exact and_congr_right step
            · rintro ⟨-, even⟩
              have := (abs_le.mp even).2
              dsimp only at this
              linarith
  exact both.1

/-- Without a held packet no placement is late by more than one iteration. -/
theorem evenly_spread_of_all_placed (maxPackets datasize n : ℕ)
    (inside : n ≤ (budget maxPackets datasize).packets) :
    ∀ x ∈ (padded (budget maxPackets datasize) (List.replicate n true)).placed,
      EvenlySpread (budget maxPackets datasize) x := by
  rw [evenly_spread_iff maxPackets datasize _ (by simpa using inside)]
  rcases budget_regimes maxPackets datasize with none | ⟨many, -, -⟩ |
    ⟨free, few, perNull, perData⟩
  · intro x _
    right
    right
    right
    simp [share, none]
  · exact fun x _ => Or.inl many
  · generalize budget maxPackets datasize = b at inside free few perNull perData
    have ratio_ge : (1 : ℚ) ≤ (b.packets : ℚ) / b.nullPackets := by
      rw [one_le_div (by exact_mod_cast free)]
      exact_mod_cast few
    have all : (∀ x ∈ (padded b (List.replicate n true)).placed, Timely b x) ∧
        (n : ℤ) ≤ roundAway ((padded b (List.replicate n true)).nulls *
          ((b.packets : ℚ) / b.nullPackets)) + 1 := by
      induction n with
      | zero =>
          refine ⟨by simp [padded], ?_⟩
          have := roundAway_natCast 0
          simp only [padded, List.replicate_zero, List.foldl_nil, Nat.cast_zero, zero_mul] at this ⊢
          omega
      | succ n ih =>
          obtain ⟨timely, once⟩ := ih (by omega)
          rw [List.replicate_succ']
          have le := nulls_padded_le (b := b) (List.replicate n true)
          simp only [padded_concat, iterate, if_true, dataPackets_padded, List.length_replicate,
            List.forall_mem_append, List.forall_mem_singleton]
          generalize (padded b (List.replicate n true)).nulls = nulls at timely once le ⊢
          have late_le : late b ⟨n, nulls, mixNulls b nulls n⟩ ≤ 1 := by
            simp only [late]
            omega
          refine ⟨⟨timely, timely_of_late_le_one free few late_le⟩, ?_⟩
          have step := mixNulls_few n perNull perData le (mixNulls b nulls n)
          by_cases whole : mixNulls b nulls n = b.nullPackets
          · have full : (b.nullPackets : ℚ) * ((b.packets : ℚ) / b.nullPackets) = b.packets :=
              mul_div_cancel₀ _ (by exact_mod_cast free.ne')
            rw [whole, full, roundAway_natCast]
            push_cast
            omega
          · by_cases early : late b ⟨n, nulls, mixNulls b nulls n⟩ ≤ 0
            · rw [max_eq_left early, add_zero] at step
              have same : mixNulls b nulls n = nulls := by omega
              rw [same]
              simp only [late] at early
              push_cast
              omega
            · have more : mixNulls b nulls n = nulls + 1 := by omega
              have grown : roundAway (nulls * ((b.packets : ℚ) / b.nullPackets) + (1 : ℕ)) ≤
                  roundAway ((nulls + 1 : ℕ) * ((b.packets : ℚ) / b.nullPackets)) := by
                apply roundAway_mono (by positivity)
                push_cast
                linarith
              rw [roundAway_add_natCast (by positivity)] at grown
              rw [more]
              push_cast at grown ⊢
              omega
    exact all.1

end spread

section fill

variable {ts : TsFuncs} {conf : Config} {s t : Mix} {n : ℕ}

/-- What a fill has done so far follows some pattern of iterations. -/
structure Patterned (t : Mix) (pattern : List Bool) : Prop where
  inside : pattern.length ≤ t.budget.packets
  nulls : t.nulls = (padded t.budget pattern).nulls
  copied : t.copied.map Prod.fst =
    (padded t.budget pattern).placed.map fun x => x.dataPackets + x.nulls
  going : t.pc ≠ .full → pattern.length = t.dataPackets

private theorem Patterned.scanInput {pattern : List Bool} (h : Patterned t pattern)
    (left readCount : ℕ)
    (unfinished : t.pc ≠ .full) : Patterned (scanInput ts conf t left readCount) pattern := by
  obtain ⟨-, data, nulls, -⟩ := scanInput_place ts conf t left readCount
  obtain ⟨budget, copied⟩ := scanInput_budget ts conf t left readCount
  refine ⟨?_, ?_, ?_, ?_⟩
  · rw [budget]
    exact h.inside
  · rw [budget, nulls]
    exact h.nulls
  · rw [budget, copied]
    exact h.copied
  · intro _
    rw [data]
    exact h.going unfinished

private theorem Patterned.mixTurn {s₀ : Mix} {pattern : List Bool} (h : Patterned t pattern)
    (filling : Filling ts s₀ t) (unfinished : t.pc ≠ .full) :
    ∃ pattern', Patterned (mixTurn ts conf t) pattern' := by
  have stands := filling.stands
  have overruns := (filling.mixTurn conf unfinished).overruns.trans filling.overruns.symm
  have length := h.going unfinished
  have step := mixTurn_step ts conf t
  generalize Model.mixTurn ts conf t = after at step overruns ⊢
  cases step with
  | start pc =>
      rw [pc] at stands
      exact stands.elim
  | done => exact ⟨pattern, h.inside, h.nulls, h.copied, fun going => absurd rfl going⟩
  | visit => exact ⟨pattern, h.scanInput _ _ unfinished⟩
  | skip pc =>
      rw [pc] at stands
      have more : t.dataPackets < t.budget.packets := stands
      refine ⟨pattern ++ [false], ?_, ?_, ?_, ?_⟩
      · show (pattern ++ [false]).length ≤ t.budget.packets
        rw [List.length_append, List.length_singleton]
        omega
      · simpa [countSlot, iterate] using h.nulls
      · simpa [countSlot, iterate] using h.copied
      · intro _
        simp [countSlot, length]
  | overrun => exact absurd overruns (Nat.succ_ne_self _)
  | place pc =>
      rw [pc] at stands
      have more : t.dataPackets < t.budget.packets := stands
      refine ⟨pattern ++ [true], ?_, ?_, ?_, ?_⟩
      · show (pattern ++ [true]).length ≤ t.budget.packets
        rw [List.length_append, List.length_singleton]
        omega
      · simp [countSlot, iterate, ← h.nulls, length]
      · simp [countSlot, iterate, ← h.nulls, length, h.copied]
      · intro _
        simp [countSlot, length]
  | wait pc => exact absurd pc unfinished
  | _ => exact ⟨pattern, h.inside, h.nulls, h.copied, fun _ => length⟩

/-- Every fill follows some pattern of iterations with and without a packet to place. -/
theorem fill_patterned (node : s.node ≤ s.inputs.length)
    (clean : ∀ r ∈ s.inputs, ∀ p ∈ r.buf.waiting, ts.getPid p ≠ nullPid)
    (run : FillRun ts conf s n t) : ∃ pattern, Patterned t pattern := by
  induction run with
  | start =>
      refine ⟨[], Nat.zero_le _, ?_, ?_, ?_⟩
      all_goals
        rw [startFill]
        dsimp only
        split
      all_goals simp [padded]
  | turn before unfinished ih =>
      obtain ⟨pattern, patterned⟩ := ih
      exact patterned.mixTurn (filling_run node clean before).1 unfinished
  | arrive before arrives ih =>
      obtain ⟨pattern, patterned⟩ := ih
      refine ⟨pattern, ?_⟩
      rw [arrives.rest]
      exact ⟨patterned.inside, patterned.nulls, patterned.copied, patterned.going⟩

end fill

/-- Two PCRs, 10 ms apart, and 128 packets behind them: 130 packets for a buffer of 133. -/
def heldMix : Mix :=
  (oneInput slowConfig (twoPcrs ++ List.replicate 128 (payloadPacket 0x21))).mix

/-- The second PCR is held back for eleven iterations; then all three NULL packets are inserted
before it at once. -/
theorem nulls_bunched :
    ∃ n t, FillRun headerFuncs slowConfig heldMix n t ∧
      t.pc = .send (some (pcrPacket 0x101 90900)) ∧
      t.budget.packets = 130 ∧ t.budget.nullPackets = 3 ∧ t.dataPackets = 12 ∧ t.nulls = 0 ∧
      mixNulls t.budget t.nulls t.dataPackets = 3 ∧
      ¬ EvenlySpread t.budget ⟨t.dataPackets, t.nulls, mixNulls t.budget t.nulls t.dataPackets⟩ :=
  ⟨49, _, fillRun_iterate 49 (by decide +kernel), by decide +kernel, by decide +kernel,
    by decide +kernel, by decide +kernel, by decide +kernel, by decide +kernel, by decide +kernel⟩

theorem evenly_spread_held_pcr :
    (∀ x ∈ (padded (budget 133 (188 * 130)) (true :: List.replicate 11 false ++ [true])).placed,
        EvenlySpread (budget 133 (188 * 130)) x) ↔
      ∀ x ∈ (padded (budget 133 (188 * 130)) (true :: List.replicate 11 false ++ [true])).placed,
        Timely (budget 133 (188 * 130)) x :=
  evenly_spread_iff 133 (188 * 130) (true :: List.replicate 11 false ++ [true]) (by decide +kernel)

end Mptsd.Mixer.Padding
