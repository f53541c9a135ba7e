/- Unit: Mptsd/Mixer/Spacing
   source: src/output_mix.c (output_handle_mix), src/data.h (INPUT.output_pcr_packets_needed)
   digest: How many packets lie between two PCR packets of an input, when no buffer holds NULL
   padding. -/

import Mptsd.Mixer.Gate

set_option autoImplicit false
set_option relaxedAutoImplicit false

namespace Mptsd.Mixer.Spacing

open Mptsd.TsPacket (Packet TsFuncs headerFuncs)
open Mptsd.Conf (Config)
open Mptsd.Lib.Arith (wrap32_of_range wrap32_lt)
open Mptsd.PsiTables (cbufPeek)
open Mptsd.Sections (payloadPacket)
open Mptsd.Intake.Model (Input)
open Mptsd.Mixer.Model
open Mptsd.Mixer.Fill
open Mptsd.Mixer.Observer
open Mptsd.Mixer.Gate

/-- Two successive PCR packets of an input as they went out: their slots over all buffers, and
`output_pcr_packets_needed` when the gate let the second one through. -/
structure Span where
  input : ℕ
  first : ℕ
  second : ℕ
  asked : ℤ
  deriving DecidableEq

/-- As many packets as were asked for lie strictly between the two. -/
def Span.Kept (x : Span) : Prop := 0 < x.asked → x.asked ≤ (x.second : ℤ) - x.first - 1

/-- The observer of the mixer, and the pairs of PCR packets it has seen. `asked` belongs to the
packet that is about to be copied. -/
structure Spaced where
  watch : Watch
  asked : ℤ
  spans : List Span

variable (ts : TsFuncs) (conf : Config)

/-- What the gate asks for at the input that is visited next. -/
def askedNext (s : Mix) : ℤ :=
  match s.inputs[stepNode s.inputs.length s.node - 1]? with
  | none => 0
  | some r =>
      match cbufPeek r.buf with
      | none => 0
      | some p => required ts conf s.maxPackets r p

/-- There is a span once the input has sent a PCR packet before. -/
def spanOf (input : ℕ) (asked : ℤ) : Option ℕ → Option ℕ → List Span
  | some first, some second => [⟨input, first, second, asked⟩]
  | _, _ => []

/-- One step of the mixer: the gate lets a PCR packet through, or this packet is copied, or none
of both. -/
def Spaced.turn (x : Spaced) : Spaced :=
  let next := x.watch.turn ts conf
  match x.watch.released, next.released with
  | none, some _ => { x with watch := next, asked := askedNext ts conf x.watch.mix }
  | some i, none =>
      { x with
        watch := next
        spans := x.spans ++ spanOf i x.asked (x.watch.pcrSlot i) (next.pcrSlot i) }
  | _, _ => { x with watch := next }

/-- A run of the mixer with this observer, latest state first. -/
inductive SpacedRun (x : Spaced) : List Spaced → Prop
  | start : SpacedRun x [x]
  | turn {v visited} : SpacedRun x (v :: visited) → SpacedRun x (v.turn ts conf :: v :: visited)
  | arrive {v visited s'} : SpacedRun x (v :: visited) → Arrives ts v.watch.mix s' →
      SpacedRun x ({ v with watch := { v.watch with mix := s' } } :: v :: visited)

/-- The buffer that is being filled has no NULL padding: `packets` is `o_maxpackets`. -/
def FullFill (s : Mix) : Prop := s.pc ≠ .waiting → s.budget.packets = s.maxPackets

/-- A PCR packet is at the gate in the very slot that is as many slots after the last one as
packets are asked for. -/
def OnTheDot (v : Watch) : Prop :=
  ∃ i r p first, AtGate ts conf v.mix i r p ∧ v.pcrSlot i = some first ∧
    0 < required ts conf v.mix.maxPackets r p ∧
    (v.position : ℤ) = first + required ts conf v.mix.maxPackets r p

/-- What a step does to the slots and to the packet that is about to be copied, while there is no
padding. -/
inductive Passage (w w' : Watch) : Prop
  | quiet (padding : w'.padding = w.padding) (slots : w'.pcrSlot = w.pcrSlot)
      (before : w.released = none) (after : w'.released = none)
  | release (i : ℕ) (r : Input) (p : Packet) (gate : AtGate ts conf w.mix i r p)
      (opens : 0 < required ts conf w.mix.maxPackets r p →
        required ts conf w.mix.maxPackets r p ≤ r.outputedPackets)
      (asked : askedNext ts conf w.mix = required ts conf w.mix.maxPackets r p)
      (padding : w'.padding = w.padding) (slots : w'.pcrSlot = w.pcrSlot)
      (before : w.released = none) (after : w'.released = some i)
      (position : w'.position = w.position)
  | place (i : ℕ) (padding : w'.padding = Function.update w.padding i 0)
      (slots : w'.pcrSlot = Function.update w.pcrSlot i (some w.position))
      (before : w.released = some i) (after : w'.released = none)

variable {ts conf} {w : Watch}

private theorem nulls_eq_zero (watched : Watched ts conf w) (full : FullFill w.mix)
    (going : w.mix.pc ≠ .waiting) : w.mix.nulls = 0 ∧ w.mix.budget.nullPackets = 0 := by
  obtain ⟨s₀, filling⟩ := watched.sound.filling going
  have packets := full going
  have nulls := filling.nulls
  have whole := filling.whole
  rw [Budget.nullPackets] at nulls ⊢
  omega

private theorem mixNulls_of_none {b : Budget} (none : b.nullPackets = 0) (nulls dataPackets : ℕ) :
    mixNulls b nulls dataPackets = nulls := by
  rw [mixNulls]
  rw [none, if_neg (Nat.not_lt_zero nulls)]

private theorem releases_eq_some {s : Mix} {i : ℕ} {r : Input} {p : Packet}
    (gate : AtGate ts conf s i r p) :
    releases ts conf s = some i ↔ (0 < required ts conf s.maxPackets r p →
      required ts conf s.maxPackets r p ≤ r.outputedPackets) := by
  have moving : (conf.pcrMode = 1 || conf.pcrMode = 3) = true := by simpa using gate.moving
  have held := gate.held_iff
  have opens : gateOpens ts conf s.maxPackets r = !(pcrGate ts conf s.maxPackets r p).1 := by
    rw [gateOpens]
    rw [moving, gate.oldest]
    simp [gate.pid, gate.pcr]
  rw [releases]
  rw [gate.next, gate.found]
  dsimp only
  rw [opens]
  cases held_ : (pcrGate ts conf s.maxPackets r p).1 with
  | false =>
      rw [held_] at held
      simpa using held
  | true =>
      rw [held_] at held
      simpa using held

private theorem exists_gate {s : Mix} {left readCount i : ℕ}
    (pc : s.pc = .scan (left + 1) readCount)
    (opens : releases ts conf s = some i) : ∃ r p, AtGate ts conf s i r p := by
  rw [releases] at opens
  split at opens
  · cases opens
  · rename_i r found
    split at opens
    · rename_i gate
      obtain rfl := Option.some.inj opens
      rw [gateOpens] at gate
      rw [Bool.and_eq_true] at gate
      obtain ⟨moving, gate⟩ := gate
      split at gate
      · cases gate
      · rename_i p oldest
        simp only [Bool.and_eq_true, decide_eq_true_eq] at gate
        exact ⟨r, p, by simpa using moving, ⟨left, readCount, pc⟩, rfl, found, oldest,
          gate.1.1, gate.1.2⟩
    · cases opens

private theorem askedNext_eq {s : Mix} {i : ℕ} {r : Input} {p : Packet}
    (gate : AtGate ts conf s i r p) :
    askedNext ts conf s = required ts conf s.maxPackets r p := by
  rw [askedNext]
  rw [gate.next, gate.found]
  dsimp only
  rw [gate.oldest]

private theorem passage_turn (watched : Watched ts conf w) (full : FullFill w.mix) :
    Passage ts conf w (w.turn ts conf) := by
  cases pc : w.mix.pc with
  | waiting =>
      have still := watched.released_none (by simp [pc])
      rw [Watch.turn]
      simp only [pc]
      split
      · exact .quiet rfl rfl still still
      · exact .quiet rfl rfl still still
  | psi =>
      have still := watched.released_none (by simp [pc])
      obtain ⟨nulls, none⟩ := nulls_eq_zero watched full (by simp [pc])
      rw [Watch.turn]
      simp only [pc]
      split
      · rename_i done
        refine .quiet ?_ rfl still still
        have past : ¬ w.mix.dataPackets < w.mix.budget.packets := by
          intro more
          simp only [mixTurn, pc, tryPsi, more, if_true] at done
          split at done <;> cases done
        have packets := full (by simp [pc])
        ext i
        show w.padding i + (w.mix.maxPackets - (w.mix.dataPackets + w.mix.nulls)) = _
        omega
      · exact .quiet rfl rfl still still
  | scan left readCount =>
      have still := watched.released_none (by simp [pc])
      cases left with
      | zero =>
          rw [Watch.turn]
          simp only [pc]
          exact .quiet rfl rfl still still
      | succ left =>
          cases opens : releases ts conf w.mix with
          | none =>
              rw [Watch.turn]
              simp only [pc, opens]
              exact .quiet rfl rfl still still
          | some i =>
              obtain ⟨r, p, gate⟩ := exists_gate pc opens
              have turned : w.turn ts conf =
                  ({ w with mix := scanInput ts conf w.mix left readCount } : Watch).release i := by
                rw [Watch.turn]
                simp only [pc, opens, mixTurn]
              obtain ⟨size, data, nulls, waiting, full⟩ :=
                scanInput_place ts conf w.mix left readCount
              rw [turned]
              refine .release i r p gate ((releases_eq_some gate).mp opens) (askedNext_eq gate) rfl
                rfl still rfl ?_
              rw [Watch.position_inside (w := w) (by simp [pc]) (by simp [pc]),
                Watch.position_inside waiting full]
              show w.done * (scanInput ts conf w.mix left readCount).maxPackets +
                ((scanInput ts conf w.mix left readCount).dataPackets +
                  (scanInput ts conf w.mix left readCount).nulls) = _
              rw [size, data, nulls]
  | send data =>
      cases data with
      | none =>
          have still := watched.released_none (by simp [pc])
          rw [Watch.turn]
          simp only [pc]
          exact .quiet rfl rfl still still
      | some p =>
          obtain ⟨nulls, none⟩ := nulls_eq_zero watched full (by simp [pc])
          have same : (mixTurn ts conf w.mix).nulls = 0 := by
            simp only [mixTurn, pc, copyPacket, mixNulls_of_none none, nulls]
            split <;> rfl
          rw [Watch.turn]
          simp only [pc, same, Nat.zero_sub]
          cases released : w.released with
          | none => exact .quiet rfl rfl released rfl
          | some i =>
              refine .place i rfl ?_ released rfl
              rw [Watch.position_inside (w := w) (by simp [pc]) (by simp [pc]), nulls]
              rfl
  | full =>
      have still := watched.released_none (by simp [pc])
      rw [Watch.turn]
      simp only [pc]
      exact .quiet rfl rfl still still

/-- The invariant of a run without padding, where every packet that the gate lets through is at
least `margin` packets later than asked for. -/
structure Tight (ts : TsFuncs) (conf : Config) (margin : ℤ) (x : Spaced) : Prop where
  watched : Watched ts conf x.watch
  dense : ∀ i first, x.watch.pcrSlot i = some first → x.watch.padding i = 0
  pending : ∀ i first, x.watch.released = some i → x.watch.pcrSlot i = some first →
    0 < x.asked → x.asked + margin ≤ (x.watch.position : ℤ) - first
  spans : ∀ s ∈ x.spans, 0 < s.asked → s.asked + margin ≤ (s.second : ℤ) - s.first

private theorem counter_at_gate (watched : Watched ts conf w)
    (dense : ∀ i first, w.pcrSlot i = some first → w.padding i = 0) {i : ℕ} {r : Input}
    {p : Packet} (gate : AtGate ts conf w.mix i r p) {first : ℕ}
    (slot : w.pcrSlot i = some first) :
    r.outputedPackets ≤ (w.position : ℤ) - first ∧
      ((w.position : ℤ) - first < 2 ^ 31 → r.outputedPackets = (w.position : ℤ) - first) := by
  obtain ⟨left, readCount, scanning⟩ := gate.scanning
  have still := watched.released_none (by simp [scanning])
  have elapsed := watched.elapsed i first slot (by simp [still])
  rw [dense i first slot] at elapsed
  have below := wrap32_lt (w.counted i)
  rw [watched.counts i r gate.found]
  by_cases small : w.counted i < 2 ^ 31
  · rw [wrap32_of_range (by omega) (by exact_mod_cast small)]
    omega
  · omega

private theorem Tight.turn {x : Spaced} {margin : ℤ} (h : Tight ts conf margin x)
    (full : FullFill x.watch.mix)
    (late : ∀ i r p first, AtGate ts conf x.watch.mix i r p → x.watch.pcrSlot i = some first →
      0 < required ts conf x.watch.mix.maxPackets r p →
      required ts conf x.watch.mix.maxPackets r p ≤ (x.watch.position : ℤ) - first →
      required ts conf x.watch.mix.maxPackets r p + margin ≤ (x.watch.position : ℤ) - first) :
    Tight ts conf margin (x.turn ts conf) := by
  have watched := h.watched.turn
  unfold Spaced.turn
  dsimp only
  cases passage_turn h.watched full with
  | quiet padding slots before after =>
      rw [before, after]
      refine ⟨watched, ?_, ?_, h.spans⟩
      · rw [slots, padding]
        exact h.dense
      · intro i first released
        rw [after] at released
        cases released
  | release i r p gate opens asked padding slots before after position =>
      rw [before, after]
      refine ⟨watched, ?_, ?_, h.spans⟩
      · rw [slots, padding]
        exact h.dense
      · intro i' first released slot
        dsimp only at released slot ⊢
        rw [after] at released
        obtain rfl := Option.some.inj released
        rw [slots] at slot
        rw [asked, position]
        intro positive
        have counter := (counter_at_gate h.watched h.dense gate slot).1
        exact late i r p first gate slot positive ((opens positive).trans counter)
  | place i padding slots before after =>
      rw [before, after]
      refine ⟨watched, ?_, ?_, ?_⟩
      · intro k first slot
        dsimp only at slot ⊢
        rw [slots] at slot
        rw [padding]
        by_cases own : k = i
        · rw [own, Function.update_self]
        · rw [Function.update_of_ne own] at slot ⊢
          exact h.dense k first slot
      · intro i first released
        rw [after] at released
        cases released
      · intro s member
        dsimp only at member
        rcases List.mem_append.mp member with old | new
        · exact h.spans s old
        · rw [slots, Function.update_self] at new
          cases slot : x.watch.pcrSlot i with
          | none =>
              rw [slot] at new
              cases new
          | some first =>
              rw [slot] at new
              obtain rfl := List.mem_singleton.mp new
              exact h.pending i first before slot

private theorem Tight.arrive {x : Spaced} {margin : ℤ} (h : Tight ts conf margin x) {s' : Mix}
    (arrives : Arrives ts x.watch.mix s') :
    Tight ts conf margin { x with watch := { x.watch with mix := s' } } := by
  have position : ({ x.watch with mix := s' } : Watch).position = x.watch.position := by
    unfold Watch.position
    rw [arrives.rest]
  refine ⟨h.watched.arrive arrives, h.dense, ?_, h.spans⟩
  intro i first
  rw [position]
  exact h.pending i first

private theorem turn_of_release {i : ℕ} {r : Input} {p : Packet} (gate : AtGate ts conf w.mix i r p)
    (opens : releases ts conf w.mix = some i) (full : FullFill w.mix) :
    (w.turn ts conf).released = some i ∧ FullFill (w.turn ts conf).mix := by
  obtain ⟨left, readCount, pc⟩ := gate.scanning
  have turned : w.turn ts conf =
      ({ w with mix := scanInput ts conf w.mix left readCount } : Watch).release i := by
    rw [Watch.turn]
    simp only [pc, opens, mixTurn]
  have size := (scanInput_place ts conf w.mix left readCount).1
  rw [turned]
  refine ⟨rfl, ?_⟩
  intro _
  show (scanInput ts conf w.mix left readCount).budget.packets =
    (scanInput ts conf w.mix left readCount).maxPackets
  rw [(scanInput_budget ts conf w.mix left readCount).1, size]
  exact full (by simp [pc])

private theorem Tight.early {x : Spaced} {margin : ℤ} (h : Tight ts conf margin x)
    (full : FullFill x.watch.mix) (dot : OnTheDot ts conf x.watch) :
    ∃ s ∈ ((x.turn ts conf).turn ts conf).spans, ¬ s.Kept := by
  obtain ⟨i, r, p, first, gate, slot, positive, position⟩ := dot
  have needed := required_le ts conf (h.watched.needs r (List.mem_of_getElem? gate.found)) p
  have size : x.watch.mix.maxPackets ≤ 4991 := by
    have := conf.rate.obufFrames_le
    rw [h.watched.sound.size, Config.obufPackets]
    omega
  have counter := (counter_at_gate h.watched h.dense gate slot).2 (by omega)
  have opens := (releases_eq_some gate).mpr fun _ => by omega
  obtain ⟨released, full'⟩ := turn_of_release gate opens full
  have before := h.watched.released_none (by
    obtain ⟨left, readCount, pc⟩ := gate.scanning
    simp [pc])
  have first' : x.turn ts conf = { x with
      watch := x.watch.turn ts conf
      asked := required ts conf x.watch.mix.maxPackets r p } := by
    unfold Spaced.turn
    dsimp only
    rw [before, released, askedNext_eq gate]
  have moved : (x.watch.turn ts conf).pcrSlot = x.watch.pcrSlot ∧
      (x.watch.turn ts conf).position = x.watch.position := by
    cases passage_turn h.watched full with
    | quiet padding slots before after => simp [released] at after
    | release i' r' p' gate' opens' asked padding slots before' after position' =>
        exact ⟨slots, position'⟩
    | place i' padding slots before' after => simp [released] at after
  obtain ⟨slots, still⟩ := moved
  rw [first', Spaced.turn]
  dsimp only
  cases passage_turn h.watched.turn full' with
  | quiet padding slots' before' after => simp [released] at before'
  | release i' r' p' gate' opens' asked padding slots' before' after position' =>
      simp [released] at before'
  | place i' padding slots' before' after =>
      obtain rfl : i = i' := by simpa [released] using before'
      rw [released, after]
      refine ⟨⟨i, first, x.watch.position, required ts conf x.watch.mix.maxPackets r p⟩, ?_, ?_⟩
      · dsimp only
        rw [slots', Function.update_self, slots, slot, still]
        simp [spanOf]
      · intro kept
        have := kept positive
        dsimp only at this
        omega

variable {x : Spaced} {visited : List Spaced}

private theorem tight_of_fresh (fresh : Fresh ts conf x.watch) (spans : x.spans = []) (margin : ℤ) :
    Tight ts conf margin x where
  watched := fresh.watched
  dense i first slot := by
    rw [fresh.pcrSlot] at slot
    cases slot
  pending i first released := by
    rw [fresh.released] at released
    cases released
  spans s member := by
    rw [spans] at member
    cases member

private theorem tight_run {margin : ℤ} (start : Tight ts conf margin x)
    (run : SpacedRun ts conf x visited) (full : ∀ v ∈ visited, FullFill v.watch.mix)
    (late : ∀ v ∈ visited, ∀ i r p first, AtGate ts conf v.watch.mix i r p →
      v.watch.pcrSlot i = some first → 0 < required ts conf v.watch.mix.maxPackets r p →
      required ts conf v.watch.mix.maxPackets r p ≤ (v.watch.position : ℤ) - first →
      required ts conf v.watch.mix.maxPackets r p + margin ≤ (v.watch.position : ℤ) - first) :
    ∀ v ∈ visited, Tight ts conf margin v := by
  induction run with
  | start => simpa using start
  | turn _ ih =>
      rw [List.forall_mem_cons] at full late ⊢
      have earlier := ih full.2 late.2
      exact ⟨(earlier _ (by simp)).turn (full.2 _ (by simp)) (late.2 _ (by simp)), earlier⟩
  | arrive _ arrives ih =>
      rw [List.forall_mem_cons] at full late ⊢
      have earlier := ih full.2 late.2
      exact ⟨(earlier _ (by simp)).arrive arrives, earlier⟩

/-- A run in which nothing arrives, the latest state first. -/
def spacedTrail (ts : TsFuncs) (conf : Config) (x : Spaced) : ℕ → List Spaced
  | 0 => [x]
  | n + 1 => (Spaced.turn ts conf)^[n + 1] x :: spacedTrail ts conf x n

private theorem spacedRun_trail (ts : TsFuncs) (conf : Config) (x : Spaced) (n : ℕ) :
    SpacedRun ts conf x (spacedTrail ts conf x n) ∧
      (spacedTrail ts conf x n).head? = some ((Spaced.turn ts conf)^[n] x) := by
  induction n with
  | zero => exact ⟨.start, rfl⟩
  | succ n ih =>
      refine ⟨?_, rfl⟩
      obtain ⟨run, head⟩ := ih
      cases rest : spacedTrail ts conf x n with
      | nil => simp [rest] at head
      | cons v visited =>
          rw [rest] at run head
          obtain rfl := Option.some.inj head
          rw [spacedTrail, rest, Function.iterate_succ_apply']
          exact run.turn

instance (s : Mix) : Decidable (FullFill s) :=
  inferInstanceAs (Decidable (s.pc ≠ .waiting → s.budget.packets = s.maxPackets))

/-- One input with two PCR packets and payload behind them, 133 packets for a buffer of 133. -/
def packed : Spaced :=
  ⟨oneInput slowConfig (twoPcrs ++ List.replicate 131 (payloadPacket 0x21)), 0, []⟩

private theorem fresh_packed : Fresh headerFuncs slowConfig packed.watch := by
  apply fresh_oneInput slowConfig
  intro p member
  rcases List.mem_append.mp member with pcr | payload
  · simp only [twoPcrs, List.mem_cons, List.not_mem_nil, or_false] at pcr
    rcases pcr with rfl | rfl <;> decide +kernel
  · obtain rfl := List.eq_of_mem_replicate payload
    decide +kernel

private theorem full_packed :
    ∀ v ∈ spacedTrail headerFuncs slowConfig packed 51, FullFill v.watch.mix := by
  decide +kernel

end Mptsd.Mixer.Spacing
