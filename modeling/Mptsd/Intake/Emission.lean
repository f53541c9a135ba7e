/- Unit: Mptsd/Intake/Emission
   source: src/input.c (process_pmt), src/data.c (input_stream_reset)
   digest: How often the rewritten PMT is handed on for the sections that arrive. -/

import Mptsd.Intake.Changes

set_option autoImplicit false
set_option relaxedAutoImplicit false

namespace Mptsd.Intake.Emission

open Mptsd.TsPacket (Packet)
open Mptsd.Conf (Config sampleConfig)
open Mptsd.Lib.Gathering
open Mptsd.PsiTables
open Mptsd.Sections (sectionLibs patPackets pmtPackets)
open Mptsd.Intake.Model
open Mptsd.Intake.Rewrite (pmtRewritten_inputRewritePmt)
open Mptsd.Intake.Effects (bufView bufView_inputRewritePmt filled_inputBufferAdd filled_congr)
open Mptsd.Intake.Guard
open Mptsd.Intake.Changes

section collect

variable {β : Type} (lib : Libs) (conf : Config) (f : Input → InputStep → List β)

/-- What the steps of a run contribute, one after the other. -/
def collect (r : Input) : List InputStep → List β
  | [] => []
  | step :: rest => f r step ++ collect (inputStep lib conf r step) rest

private theorem collect_concat (r : Input) (steps : List InputStep) (step : InputStep) :
    collect lib conf f r (steps ++ [step]) =
      collect lib conf f r steps ++ f (inputRun lib conf r steps) step := by
  induction steps generalizing r with
  | nil => simp [collect, inputRun]
  | cons first rest ih =>
      rw [List.cons_append, collect, collect, ih, List.append_assoc]
      rfl

end collect

variable (lib : Libs) (conf : Config)

/-- The input behind the call of `process_pmt`. -/
def afterPmt (r : Input) : InputStep → Input
  | .packet p => if r.dienow then r else (processPmt lib r (lib.getPid p) p).2
  | _ => r

/-- The data of the calls of `input_buffer_add` that `process_pmt` makes. -/
def pmtsHanded (r : Input) (steps : List InputStep) : List (List Packet) :=
  collect lib conf (fun r step => (afterPmt lib r step).fed.drop r.fed.length)
    (inputStreamReset lib r) steps

/-- The packets that these calls store. -/
def pmtsStored (r : Input) (steps : List InputStep) : List Packet :=
  collect lib conf (fun r step => (afterPmt lib r step).buf.filled.drop r.buf.filled.length)
    (inputStreamReset lib r) steps

/-- Every `k` of the packets make a section that is complete with the last of them. -/
def Spans (k : ℕ) (pmts : List Packet) : Prop :=
  ∀ j ≤ pmts.length, ((gatherer lib.pmt).gather (pmts.take j)).values.length = j / k

instance (k : ℕ) (pmts : List Packet) : Decidable (Spans lib k pmts) :=
  inferInstanceAs (Decidable (∀ j ≤ pmts.length, _))

section packet

variable {lib} {r r' : Input} {p : Packet}

variable (lib) in
private theorem exists_rewritten (complete : r.stream.pmt.initialized = true) :
    ∃ M, (if r.stream.pmtRewritten.any TsPmt.initialized then r
        else inputRewritePmt lib r).stream.pmtRewritten = some M ∧ M.initialized = true := by
  split
  · rename_i again
    cases rewritten : r.stream.pmtRewritten with
    | none => simp [rewritten] at again
    | some M => exact ⟨M, rfl, by simpa [rewritten] using again⟩
  · exact ⟨_, pmtRewritten_inputRewritePmt complete, by simp [complete]⟩

private theorem processPmt_hands (own : onPmtPid lib r p)
    (quiet : (processPmt lib r (lib.getPid p) p).1 ≠ -2) :
    ((lib.pmt.push r.stream.pmt p).initialized = true ∧
        HandsPmt lib r (processPmt lib r (lib.getPid p) p).2) ∨
      ((lib.pmt.push r.stream.pmt p).initialized = false ∧
        bufView (processPmt lib r (lib.getPid p) p).2 = bufView r) := by
  have called : ¬ (lib.getPid p = 0 ∨ lib.getPid p ≠ r.stream.pmtPid) := by
    rintro (zero | other)
    · exact own.1 zero
    · exact other own.2
  unfold processPmt at quiet ⊢
  dsimp only at quiet ⊢
  rw [if_neg called] at quiet ⊢
  by_cases complete : (lib.pmt.push r.stream.pmt p).initialized = true
  · left
    refine ⟨complete, ?_⟩
    rw [if_neg fun incomplete => incomplete.2 complete] at quiet ⊢
    by_cases changed : r.stream.lastPmt.initialized = true ∧
        ¬ lib.pmt.isSame (lib.pmt.push r.stream.pmt p) r.stream.lastPmt = true
    · rw [if_pos changed] at quiet
      exact absurd rfl quiet
    · rw [if_neg changed, if_pos complete]
      obtain ⟨M, rewritten, initialized⟩ := exists_rewritten lib
        (r := pushLastPmt lib (r.setPmt (lib.pmt.push r.stream.pmt p)) p) complete
      apply (hands_emitPmt rewritten initialized).of_view
      split
      · rfl
      · exact bufView_inputRewritePmt lib _
  · right
    refine ⟨by simpa using complete, ?_⟩
    split_ifs <;> rfl

private theorem records_of_hands (hands : HandsPmt lib r r') :
    ∃ data, r'.fed.drop r.fed.length = [data] ∧
      (r'.buf.filled.drop r.buf.filled.length).length ≤ data.length := by
  obtain ⟨M, -, -, view⟩ := hands
  refine ⟨M.packets, ?_, ?_⟩
  · have fed : r'.fed = (inputBufferAdd lib r M.packets).fed := congrArg Prod.fst view
    rw [fed, fed_inputBufferAdd, List.drop_left]
  · rw [filled_congr view, filled_inputBufferAdd]
    split <;> simp

private theorem records_of_view (view : bufView r' = bufView r) :
    r'.fed.drop r.fed.length = [] ∧ r'.buf.filled.drop r.buf.filled.length = [] := by
  constructor
  · have fed : r'.fed = r.fed := congrArg Prod.fst view
    rw [fed]
    exact List.drop_length
  · rw [filled_congr view]
    exact List.drop_length

end packet

section run

variable {lib conf} {r : Input} {k : ℕ}

/-- Each packet from the one on that completes the first section hands on the rewritten PMT. -/
structure Counted (k : ℕ) (pmts : List Packet) (handed : List (List Packet))
    (stored : List Packet) : Prop where
  emissions : handed.length = pmts.length + 1 - k
  room : stored.length ≤ (handed.map List.length).sum

private theorem Spans.init {pmts : List Packet} {p : Packet} (h : Spans lib k (pmts ++ [p])) :
    Spans lib k pmts := by
  intro j inside
  have one := h j (by rw [List.length_append]; omega)
  rwa [List.take_append_of_le_length inside] at one

private theorem Spans.values {pmts : List Packet} (h : Spans lib k pmts) :
    ((gatherer lib.pmt).gather pmts).values.length = pmts.length / k := by
  have all := h pmts.length le_rfl
  rwa [List.take_length] at all

private theorem complete_iff {w : Listener} (heard : Heard lib w) {p : Packet}
    (silent : (gatherer lib.pmt).Silent lib.pmt.isSame (w.pmts ++ [p])) (positive : 0 < k)
    (spans : Spans lib k (w.pmts ++ [p])) :
    (lib.pmt.push w.input.stream.pmt p).initialized = true ↔ k ≤ w.pmts.length + 1 := by
  have pair : pmtPair w.input.stream = (gatherer lib.pmt).pair w.pmts :=
    congrArg Prod.snd heard.pairs
  have first : lib.pmt.push w.input.stream.pmt p =
      ((gatherer lib.pmt).pair (w.pmts ++ [p])).first := by
    rw [Gatherer.pair_concat, ← pair]
    rfl
  have aligned := ((gatherer lib.pmt).aligned_pair lib.pmt.isSame _ silent).1
  have values := spans.values
  rw [List.length_append, List.length_singleton] at values
  calc (lib.pmt.push w.input.stream.pmt p).initialized = true
      ↔ ((gatherer lib.pmt).gather (w.pmts ++ [p])).values ≠ [] := by
        rw [first]
        exact aligned.complete_first
    _ ↔ 0 < (w.pmts.length + 1) / k := by rw [← values, List.length_pos_iff]
    _ ↔ k ≤ w.pmts.length + 1 := by
        rw [Nat.div_pos_iff]
        exact and_iff_right positive

section step

variable {w : Listener} {handed : List (List Packet)} {stored : List Packet} {step : InputStep}

private theorem Counted.idle (h : Counted k w.pmts handed stored)
    (same : (Changes.listen lib conf w step).pmts = w.pmts)
    (view : bufView (afterPmt lib w.input step) = bufView w.input) :
    Counted k (Changes.listen lib conf w step).pmts
      (handed ++ (afterPmt lib w.input step).fed.drop w.input.fed.length)
      (stored ++ (afterPmt lib w.input step).buf.filled.drop w.input.buf.filled.length) := by
  obtain ⟨fed, filled⟩ := records_of_view view
  rw [fed, filled, List.append_nil, List.append_nil, same]
  exact h

private theorem Counted.taken (h : Counted k w.pmts handed stored) (heard : Heard lib w)
    (positive : 0 < k) {p : Packet} (own : onPmtPid lib w.input p)
    (quiet : (processPmt lib w.input (lib.getPid p) p).1 ≠ -2)
    (silent : (gatherer lib.pmt).Silent lib.pmt.isSame (w.pmts ++ [p]))
    (spans : Spans lib k (w.pmts ++ [p])) :
    let r' := (processPmt lib w.input (lib.getPid p) p).2
    Counted k (w.pmts ++ [p]) (handed ++ r'.fed.drop w.input.fed.length)
      (stored ++ r'.buf.filled.drop w.input.buf.filled.length) := by
  intro r'
  have complete := complete_iff heard silent positive spans
  have emissions := h.emissions
  rcases processPmt_hands own quiet with ⟨whole, hands⟩ | ⟨pending, view⟩
  · obtain ⟨data, fed, filled⟩ := records_of_hands hands
    have reached := complete.mp whole
    rw [fed]
    refine ⟨?_, ?_⟩
    · rw [List.length_append, List.length_append, List.length_singleton, List.length_singleton]
      omega
    · rw [List.length_append, List.map_append, List.sum_append, List.map_singleton,
        List.sum_singleton]
      exact Nat.add_le_add h.room filled
  · obtain ⟨fed, filled⟩ := records_of_view view
    have early : ¬ k ≤ w.pmts.length + 1 := by
      rw [← complete, pending]
      decide
    rw [fed, filled, List.append_nil, List.append_nil]
    refine ⟨?_, h.room⟩
    rw [List.length_append, List.length_singleton]
    omega

private theorem Counted.listen (h : Counted k w.pmts handed stored) (heard : Heard lib w)
    (now : Heard lib (Changes.listen lib conf w step)) (positive : 0 < k)
    (on : ∀ p, step = .packet p → (inputPacket lib conf w.input p).1 ≠ .reconnect)
    (spans : Spans lib k (Changes.listen lib conf w step).pmts) :
    Counted k (Changes.listen lib conf w step).pmts
      (handed ++ (afterPmt lib w.input step).fed.drop w.input.fed.length)
      (stored ++ (afterPmt lib w.input step).buf.filled.drop w.input.buf.filled.length) := by
  cases step with
  | reconnect | take | stop => exact h.idle rfl rfl
  | packet p =>
      cases dead : w.input.dienow with
      | true => exact h.idle (by simp [Changes.listen, dead]) (by simp [afterPmt, dead])
      | false =>
          have after : afterPmt lib w.input (.packet p) =
              (processPmt lib w.input (lib.getPid p) p).2 := by simp [afterPmt, dead]
          by_cases own : onPmtPid lib w.input p
          · have taken : (Changes.listen lib conf w (.packet p)).pmts = w.pmts ++ [p] := by
              simp [Changes.listen, dead, own.1, own]
            have silent := now.pmts
            rw [taken] at spans silent ⊢
            rw [after]
            exact h.taken heard positive own
              (mt (inputPacket_pmt conf dead own.1).1.mpr (on p rfl)) silent spans
          · have other : lib.getPid p = 0 ∨ lib.getPid p ≠ w.input.stream.pmtPid := by
              by_contra both
              push Not at both
              exact own both
            refine h.idle ?_ ?_
            · simp only [Changes.listen, dead, own, Bool.false_eq_true, if_false]
              split <;> rfl
            · rw [after, processPmt_other other]

private theorem Spans.of_listen (spans : Spans lib k (Changes.listen lib conf w step).pmts) :
    Spans lib k w.pmts := by
  unfold Changes.listen at spans
  cases step with
  | reconnect | take | stop => exact spans
  | packet p =>
      dsimp only at spans
      split_ifs at spans
      · exact spans
      · exact spans
      · exact spans.init
      · exact spans

end step

private theorem counted_run (positive : 0 < k) {steps : List InputStep}
    (lasts : ∀ step ∈ steps, step ≠ .reconnect) (connected : Connected lib conf r steps)
    (spans : Spans lib k (listened lib conf r steps).pmts) :
    Counted k (listened lib conf r steps).pmts (pmtsHanded lib conf r steps)
      (pmtsStored lib conf r steps) := by
  induction steps using List.reverseRecOn with
  | nil =>
      have none : 0 = 0 + 1 - k := by omega
      exact ⟨none, le_rfl⟩
  | append_singleton steps step ih =>
      obtain ⟨earlier, last⟩ := (connected_concat_iff steps step).mp connected
      have before : ∀ s ∈ steps, s ≠ .reconnect :=
        fun s member => lasts s (List.mem_append_left _ member)
      have heard := heard_run before earlier
      have now := heard_run lasts connected
      rw [listened_concat] at spans now ⊢
      rw [← input_listened] at last
      have input : inputRun lib conf (inputStreamReset lib r) steps =
          (listened lib conf r steps).input := (input_listened steps).symm
      rw [pmtsHanded, pmtsStored] at ih ⊢
      rw [collect_concat, collect_concat, input]
      exact (ih before earlier spans.of_listen).listen heard now positive last spans

end run

private theorem emissions_eq_sections_iff {n k : ℕ} (positive : 0 < k) :
    n + 1 - k = n / k ↔ k = 1 ∨ n ≤ k := by
  constructor
  · intro same
    by_contra other
    push Not at other
    obtain ⟨more, later⟩ := other
    have fit : n / k * k ≤ n := Nat.div_mul_le_self n k
    have two : 2 ≤ k := by omega
    rw [← same] at fit
    have one : 2 ≤ n + 1 - k := by omega
    obtain ⟨e, emissions⟩ := Nat.exists_eq_add_of_le one
    have : n + 1 = k + 2 + e := by omega
    rw [emissions] at fit
    nlinarith
  · rintro (rfl | early)
    · simp
    · rcases Nat.lt_or_eq_of_le early with less | rfl
      · rw [Nat.div_eq_of_lt less]
        omega
      · rw [Nat.div_self positive]
        omega

private theorem stored_le {k : ℕ} {pmts : List Packet} {handed : List (List Packet)}
    {stored : List Packet} (h : Counted k pmts handed stored) (rare : k = 1 ∨ pmts.length ≤ k)
    (short : ∀ data ∈ handed, data.length ≤ k) : stored.length ≤ pmts.length := by
  have sum : (handed.map List.length).sum ≤ handed.length * k := by
    have := List.sum_le_card_nsmul (handed.map List.length) k (by simpa using short)
    simpa using this
  have room := h.room
  rw [h.emissions] at sum
  rcases rare with rfl | early
  · omega
  · rcases Nat.lt_or_eq_of_le early with less | same
    · rw [show pmts.length + 1 - k = 0 by omega] at sum
      omega
    · rw [show pmts.length + 1 - k = 1 by omega] at sum
      omega

/-- For the sections of `k` packets that a connection receives: the rewritten PMT is handed on once
for each, and no more packets of it are stored than were received as long as it takes up no more
than `k`, if and only if the sections are of one packet or no packet came after the first. -/
theorem once_per_section_iff (lib : Libs) (conf : Config) (r : Input) (k : ℕ) (positive : 0 < k)
    (steps : List InputStep) (lasts : ∀ step ∈ steps, step ≠ .reconnect)
    (connected : Connected lib conf r steps)
    (spans : Spans lib k (listened lib conf r steps).pmts) :
    ((pmtsHanded lib conf r steps).length =
          ((gatherer lib.pmt).gather (listened lib conf r steps).pmts).values.length ∧
        ((∀ data ∈ pmtsHanded lib conf r steps, data.length ≤ k) →
          (pmtsStored lib conf r steps).length ≤ (listened lib conf r steps).pmts.length)) ↔
      k = 1 ∨ (listened lib conf r steps).pmts.length ≤ k := by
  have counted := counted_run positive lasts connected spans
  rw [counted.emissions, spans.values, emissions_eq_sections_iff positive]
  exact and_iff_left_of_imp fun rare short => stored_le counted rare short

/-- A PAT, and a PMT of two packets that arrives twice. -/
def longPmt : List Packet := pmtPackets 0x100 1 0x101 ((List.range 40).map (0x101 + ·))

def longSteps : List InputStep :=
  (patPackets [⟨1, 0x100⟩] ++ longPmt ++ longPmt).map InputStep.packet

private theorem lasts_longSteps : ∀ step ∈ longSteps, step ≠ .reconnect := lasts_packets _

private theorem connected_longSteps :
    Connected sectionLibs (sampleConfig 0) newInput longSteps := by
  refine connected_of_unchanged lasts_longSteps ?_ ?_
  · rw [PatChanged]
    decide +kernel
  · rw [PmtChanged]
    decide +kernel

private theorem spans_longSteps :
    Spans sectionLibs 2 (listened sectionLibs (sampleConfig 0) newInput longSteps).pmts := by
  decide +kernel

private theorem received_longSteps :
    (listened sectionLibs (sampleConfig 0) newInput longSteps).pmts.length = 4 := by
  decide +kernel

theorem once_per_section_iff_long :
    ((pmtsHanded sectionLibs (sampleConfig 0) newInput longSteps).length =
          ((gatherer sectionLibs.pmt).gather
            (listened sectionLibs (sampleConfig 0) newInput longSteps).pmts).values.length ∧
        ((∀ data ∈ pmtsHanded sectionLibs (sampleConfig 0) newInput longSteps, data.length ≤ 2) →
          (pmtsStored sectionLibs (sampleConfig 0) newInput longSteps).length ≤
            (listened sectionLibs (sampleConfig 0) newInput longSteps).pmts.length)) ↔
      2 = 1 ∨ (listened sectionLibs (sampleConfig 0) newInput longSteps).pmts.length ≤ 2 :=
  once_per_section_iff sectionLibs (sampleConfig 0) newInput 2 (by decide) longSteps
    lasts_longSteps connected_longSteps spans_longSteps

/-- Two sections were received, and the rewritten PMT was handed on three times. -/
theorem handed_more_often :
    ((gatherer sectionLibs.pmt).gather
        (listened sectionLibs (sampleConfig 0) newInput longSteps).pmts).values.length = 2 ∧
      (pmtsHanded sectionLibs (sampleConfig 0) newInput longSteps).length = 3 := by
  have counted :=
    counted_run (by decide) lasts_longSteps connected_longSteps spans_longSteps
  rw [spans_longSteps.values, counted.emissions, received_longSteps]
  exact ⟨rfl, rfl⟩

end Mptsd.Intake.Emission
