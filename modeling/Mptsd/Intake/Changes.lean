/- Unit: Mptsd/Intake/Changes
   source: src/input.c (process_pat, process_pmt, the loop of input_stream)
   digest: When a connection is given up because its PAT or its PMT has changed. -/

import Mptsd.Intake.Guard
import Mptsd.Lib.Gathering

set_option autoImplicit false
set_option relaxedAutoImplicit false

namespace Mptsd.Intake.Changes

open Mptsd.TsPacket (Packet)
open Mptsd.Channels (sampleChannel)
open Mptsd.Conf (Config sampleConfig)
open Mptsd.Lib.Gathering
open Mptsd.PsiTables
open Mptsd.Sections (sectionLibs patPackets payloadPacket)
open Mptsd.Intake.Model
open Mptsd.Intake.Frames
open Mptsd.Intake.StreamInvariant (forwardPacket_stream)
open Mptsd.Intake.Guard (afterReset afterReset_concat)

/-- How the library gathers a table from packets. -/
def gatherer {T : Type} {initialized : T → Bool} (f : TableFuncs T initialized) :
    Gatherer T Packet where
  complete := initialized
  empty := f.alloc
  push := f.push
  complete_empty := f.alloc_initialized
  push_complete := f.push_initialized

def patPair (s : InputStream) : Pair TsPat := ⟨s.pat, s.lastPat⟩
def pmtPair (s : InputStream) : Pair TsPmt := ⟨s.pmt, s.lastPmt⟩

/-- The tables of a stream and those they are compared with. -/
def pairs (s : InputStream) : Pair TsPat × Pair TsPmt := (patPair s, pmtPair s)

section frame

variable (lib : Libs) (conf : Config) (r : Input)

@[simp] theorem pairs_parsePat : pairs (parsePat r).2.stream = pairs r.stream := by
  obtain ⟨_, _, same⟩ := parsePat_frame r
  rw [same]
  rfl

@[simp] theorem pairs_inputRewritePat : pairs (inputRewritePat lib r).stream = pairs r.stream := by
  obtain ⟨_, _, same⟩ := inputRewritePat_frame lib r
  rw [same]
  rfl

@[simp] theorem pairs_emitPat : pairs (emitPat lib r).stream = pairs r.stream := by
  obtain ⟨_, _, same, -⟩ := emitPat_frame lib r
  rw [same]
  rfl

@[simp] theorem pairs_inputRewritePmt : pairs (inputRewritePmt lib r).stream = pairs r.stream := by
  obtain ⟨_, _, _, _, same⟩ := inputRewritePmt_frame lib r
  rw [same]
  rfl

@[simp] theorem pairs_emitPmt : pairs (emitPmt lib r).stream = pairs r.stream := by
  rcases emitPmt_cases lib r with same | ⟨M, -, -, same⟩
  · rw [same]
  · rw [same, stream_inputBufferAdd]
    rfl

private theorem pairs_processEit (p : Packet) :
    pairs (processEit lib conf r p).2.stream = pairs r.stream := by
  obtain ⟨x, ⟨_, _, rfl⟩, same | ⟨P, same⟩⟩ := processEit_frame lib r conf p
  · rw [same]
    rfl
  · rw [same, Rewrite.stream_emitEit]
    rfl

private theorem pairs_forwardPacket (pid : ℕ) (p : Packet) :
    pairs (forwardPacket lib r pid p).stream = pairs r.stream := by
  obtain ⟨_, same⟩ := notePcr_frame lib r pid p
  rw [forwardPacket_stream, same]
  rfl

end frame

section handlers

variable {lib : Libs} {conf : Config} {r : Input}

private theorem processPat_reports (p : Packet)
    (aligned : r.stream.lastPat.initialized = true → r.stream.pat.initialized = true) :
    (gatherer lib.pat).reports lib.pat.isSame (patPair r.stream) p = true ∧
        (processPat lib r 0 p).1 = -2 ∨
      (gatherer lib.pat).reports lib.pat.isSame (patPair r.stream) p = false ∧
        (processPat lib r 0 p).1 ≠ -2 ∧ pairs (processPat lib r 0 p).2.1.stream =
          ((gatherer lib.pat).feed (patPair r.stream) p, pmtPair r.stream) := by
  have reports : (gatherer lib.pat).reports lib.pat.isSame (patPair r.stream) p =
      (r.stream.lastPat.initialized && !lib.pat.isSame (lib.pat.push r.stream.pat p)
        r.stream.lastPat) := rfl
  have fed : pairs (pushLastPat lib (r.setPat (lib.pat.push r.stream.pat p)) p).stream =
      ((gatherer lib.pat).feed (patPair r.stream) p, pmtPair r.stream) := rfl
  have parsed : (parsePat (pushLastPat lib (r.setPat (lib.pat.push r.stream.pat p)) p)).1 ≠ 0 := by
    rw [parsePat]
    split
    · simp [Rewrite.inputProcessPat_fst]
    · norm_num
  rw [processPat]
  rw [reports]
  dsimp only
  simp only [ne_eq, not_true_eq_false, if_false]
  generalize pushed : lib.pat.push r.stream.pat p = pat at fed parsed
  by_cases whole : r.stream.lastPat.initialized = true
  · have complete : pat.initialized = true := by
      rw [← pushed, lib.pat.push_initialized _ _ (aligned whole)]
      exact aligned whole
    cases same : lib.pat.isSame pat r.stream.lastPat with
    | false =>
        left
        simp [whole, complete]
    | true =>
        right
        simp only [whole, complete, not_true, and_false, if_false, if_true, parsed]
        refine ⟨rfl, by norm_num, ?_⟩
        rw [pairs_emitPat]
        split <;> simp [fed]
  · right
    simp only [whole, Bool.false_eq_true, false_and, if_false]
    split
    · refine ⟨rfl, by norm_num, ?_⟩
      rw [pairs_emitPat]
      split <;> simp [fed]
    · exact ⟨rfl, by norm_num, fed⟩

private theorem processPmt_reports {pid : ℕ} (own : pid ≠ 0 ∧ pid = r.stream.pmtPid) (p : Packet)
    (aligned : r.stream.lastPmt.initialized = true → r.stream.pmt.initialized = true) :
    (gatherer lib.pmt).reports lib.pmt.isSame (pmtPair r.stream) p = true ∧
        (processPmt lib r pid p).1 = -2 ∨
      (gatherer lib.pmt).reports lib.pmt.isSame (pmtPair r.stream) p = false ∧
        (processPmt lib r pid p).1 ≠ -2 ∧ pairs (processPmt lib r pid p).2.stream =
          (patPair r.stream, (gatherer lib.pmt).feed (pmtPair r.stream) p) := by
  have reports : (gatherer lib.pmt).reports lib.pmt.isSame (pmtPair r.stream) p =
      (r.stream.lastPmt.initialized && !lib.pmt.isSame (lib.pmt.push r.stream.pmt p)
        r.stream.lastPmt) := rfl
  have fed : pairs (pushLastPmt lib (r.setPmt (lib.pmt.push r.stream.pmt p)) p).stream =
      (patPair r.stream, (gatherer lib.pmt).feed (pmtPair r.stream) p) := rfl
  have called : ¬ (pid = 0 ∨ pid ≠ r.stream.pmtPid) := by
    rintro (zero | other)
    · exact own.1 zero
    · exact other own.2
  rw [processPmt]
  rw [reports]
  dsimp only
  simp only [called, if_false]
  generalize pushed : lib.pmt.push r.stream.pmt p = pmt at fed
  by_cases whole : r.stream.lastPmt.initialized = true
  · have complete : pmt.initialized = true := by
      rw [← pushed, lib.pmt.push_initialized _ _ (aligned whole)]
      exact aligned whole
    cases same : lib.pmt.isSame pmt r.stream.lastPmt with
    | false =>
        left
        simp [whole, complete]
    | true =>
        right
        simp only [whole, complete, not_true, and_false, if_false, if_true]
        refine ⟨rfl, by norm_num, ?_⟩
        rw [pairs_emitPmt]
        split <;> simp [fed]
  · right
    simp only [whole, Bool.false_eq_true, false_and, if_false]
    split
    · refine ⟨rfl, by norm_num, ?_⟩
      rw [pairs_emitPmt]
      split <;> simp [fed]
    · exact ⟨rfl, by norm_num, fed⟩

end handlers

section connection

variable (lib : Libs) (conf : Config)

/-- The packet belongs to the PMT that `input_process_pat` found. -/
def onPmtPid (r : Input) (p : Packet) : Prop :=
  lib.getPid p ≠ 0 ∧ lib.getPid p = r.stream.pmtPid

instance (r : Input) (p : Packet) : Decidable (onPmtPid lib r p) := by
  unfold onPmtPid
  infer_instance

/-- An input, with the packets that `process_pat` and `process_pmt` have taken since the reset. -/
structure Listener where
  input : Input
  pats : List Packet
  pmts : List Packet

def listen (w : Listener) (step : InputStep) : Listener :=
  let input := inputStep lib conf w.input step
  match step with
  | .packet p =>
      if w.input.dienow then { w with input }
      else if lib.getPid p = 0 then { w with input, pats := w.pats ++ [p] }
      else if onPmtPid lib w.input p then { w with input, pmts := w.pmts ++ [p] }
      else { w with input }
  | _ => { w with input }

/-- What has been taken since a reset. -/
def listened (r : Input) (steps : List InputStep) : Listener :=
  steps.foldl (listen lib conf) ⟨inputStreamReset lib r, [], []⟩

/-- The connection has not been given up: no packet of these steps led to a reconnect. -/
def Connected (r : Input) (steps : List InputStep) : Prop :=
  ∀ done p rest, steps = done ++ .packet p :: rest →
    (inputPacket lib conf (afterReset lib conf r done) p).1 ≠ .reconnect

/-- A PAT completed by these steps is not the same as the first one. -/
def PatChanged (r : Input) (steps : List InputStep) : Prop :=
  Changed lib.pat.isSame ((gatherer lib.pat).gather (listened lib conf r steps).pats).values

def PmtChanged (r : Input) (steps : List InputStep) : Prop :=
  Changed lib.pmt.isSame ((gatherer lib.pmt).gather (listened lib conf r steps).pmts).values

/-- The tables of the input are those gathered from what was taken, and no change was reported. -/
structure Heard (w : Listener) : Prop where
  pairs : pairs w.input.stream =
    ((gatherer lib.pat).pair w.pats, (gatherer lib.pmt).pair w.pmts)
  pats : (gatherer lib.pat).Silent lib.pat.isSame w.pats
  pmts : (gatherer lib.pmt).Silent lib.pmt.isSame w.pmts

variable {lib conf} {w : Listener} {r : Input}

@[simp] theorem listened_concat (steps : List InputStep) (step : InputStep) :
    listened lib conf r (steps ++ [step]) = listen lib conf (listened lib conf r steps) step := by
  simp [listened]

@[simp] theorem input_listen (step : InputStep) :
    (listen lib conf w step).input = inputStep lib conf w.input step := by
  unfold listen
  cases step with
  | packet p =>
      dsimp only
      split_ifs <;> rfl
  | reconnect | take | stop => rfl

theorem input_listened (steps : List InputStep) :
    (listened lib conf r steps).input = afterReset lib conf r steps := by
  induction steps using List.reverseRecOn with
  | nil => rfl
  | append_singleton steps step ih => simp [afterReset_concat, ih]

private theorem Heard.pat_aligned (h : Heard lib w)
    (last : w.input.stream.lastPat.initialized = true) :
    w.input.stream.pat.initialized = true := by
  obtain ⟨aligned, -⟩ := (gatherer lib.pat).aligned_pair _ _ h.pats
  have same : patPair w.input.stream = (gatherer lib.pat).pair w.pats := congrArg Prod.fst h.pairs
  rw [← same] at aligned
  obtain ⟨-, -, head, -⟩ := aligned.of_complete last
  exact aligned.complete _ (List.mem_of_head? head)

private theorem Heard.pmt_aligned (h : Heard lib w)
    (last : w.input.stream.lastPmt.initialized = true) :
    w.input.stream.pmt.initialized = true := by
  obtain ⟨aligned, -⟩ := (gatherer lib.pmt).aligned_pair _ _ h.pmts
  have same : pmtPair w.input.stream = (gatherer lib.pmt).pair w.pmts := congrArg Prod.snd h.pairs
  rw [← same] at aligned
  obtain ⟨-, -, head, -⟩ := aligned.of_complete last
  exact aligned.complete _ (List.mem_of_head? head)

private theorem Heard.pat_iff (h : Heard lib w) (p : Packet) :
    (processPat lib w.input 0 p).1 = -2 ↔
      Changed lib.pat.isSame ((gatherer lib.pat).gather w.pats).values := by
  have same : patPair w.input.stream = (gatherer lib.pat).pair w.pats := congrArg Prod.fst h.pairs
  rw [← (gatherer lib.pat).reports_iff lib.pat.isSame h.pats p, ← same]
  rcases processPat_reports p h.pat_aligned with ⟨reports, result⟩ | ⟨silent, result, -⟩
  · exact iff_of_true result reports
  · rw [silent]
    exact iff_of_false result (by simp)

private theorem Heard.pmt_iff (h : Heard lib w) {p : Packet} (own : onPmtPid lib w.input p) :
    (processPmt lib w.input (lib.getPid p) p).1 = -2 ↔
      Changed lib.pmt.isSame ((gatherer lib.pmt).gather w.pmts).values := by
  have same : pmtPair w.input.stream = (gatherer lib.pmt).pair w.pmts := congrArg Prod.snd h.pairs
  rw [← (gatherer lib.pmt).reports_iff lib.pmt.isSame h.pmts p, ← same]
  rcases processPmt_reports own p h.pmt_aligned with ⟨reports, result⟩ | ⟨silent, result, -⟩
  · exact iff_of_true result reports
  · rw [silent]
    exact iff_of_false result (by simp)

theorem connected_concat_iff (steps : List InputStep) (step : InputStep) :
    Connected lib conf r (steps ++ [step]) ↔ Connected lib conf r steps ∧
      ∀ p, step = .packet p →
        (inputPacket lib conf (afterReset lib conf r steps) p).1 ≠ .reconnect := by
  have split := forall_split_concat (l := steps) (a := step) fun done s => ∀ p, s = .packet p →
    (inputPacket lib conf (afterReset lib conf r done) p).1 ≠ .reconnect
  have unfolded : ∀ l : List InputStep, Connected lib conf r l ↔
      ∀ done s rest, l = done ++ s :: rest → ∀ p, s = .packet p →
        (inputPacket lib conf (afterReset lib conf r done) p).1 ≠ .reconnect := by
    intro l
    constructor
    · rintro h done _ rest split p rfl
      exact h done p rest split
    · intro h done p rest split
      exact h done _ rest split p rfl
  rw [unfolded, unfolded]
  exact split

variable (conf) in
theorem inputPacket_pmt {p : Packet} (alive : r.dienow = false) (pid : lib.getPid p ≠ 0) :
    ((inputPacket lib conf r p).1 = .reconnect ↔
        (processPmt lib r (lib.getPid p) p).1 = -2) ∧
      pairs (inputPacket lib conf r p).2.stream =
        pairs (processPmt lib r (lib.getPid p) p).2.stream := by
  rw [inputPacket_of_other alive pid]
  dsimp only
  split_ifs with reconnect early eit dropped
  · exact ⟨iff_of_true rfl reconnect, rfl⟩
  · exact ⟨iff_of_false (by simp) reconnect, rfl⟩
  · exact ⟨iff_of_false (by simp) reconnect, pairs_processEit lib conf _ p⟩
  · exact ⟨iff_of_false (by simp) reconnect, rfl⟩
  · exact ⟨iff_of_false (by simp) reconnect, pairs_forwardPacket lib _ _ p⟩

theorem Heard.packet (h : Heard lib w) (p : Packet)
    (on : (inputPacket lib conf w.input p).1 ≠ .reconnect) :
    Heard lib (listen lib conf w (.packet p)) := by
  cases dead : w.input.dienow with
  | true =>
      have idle : inputStep lib conf w.input (.packet p) = w.input := by
        simp [inputStep, inputPacket_of_dead dead]
      simp only [listen, dead, if_true, idle]
      exact h
  | false =>
      have next : inputStep lib conf w.input (.packet p) = (inputPacket lib conf w.input p).2 := rfl
      by_cases pat : lib.getPid p = 0
      · rw [inputPacket_of_pat dead pat] at on next
        have quiet : (processPat lib w.input 0 p).1 ≠ -2 := by
          intro reconnect
          exact on (if_pos reconnect)
        rcases processPat_reports p h.pat_aligned with ⟨-, reconnect⟩ | ⟨silent, -, fed⟩
        · exact absurd reconnect quiet
        · have same : patPair w.input.stream = (gatherer lib.pat).pair w.pats :=
            congrArg Prod.fst h.pairs
          have kept : pmtPair w.input.stream = (gatherer lib.pmt).pair w.pmts :=
            congrArg Prod.snd h.pairs
          rw [same] at silent
          simp only [listen, dead, pat, next, Bool.false_eq_true, if_false, if_true]
          refine ⟨?_, h.pats.concat silent, h.pmts⟩
          rw [fed, same, kept, Gatherer.pair_concat]
      · obtain ⟨reconnects, stays⟩ := inputPacket_pmt conf dead pat
        by_cases own : onPmtPid lib w.input p
        · rcases processPmt_reports own p h.pmt_aligned with ⟨-, reconnect⟩ | ⟨silent, -, fed⟩
          · exact absurd (reconnects.mpr reconnect) on
          · have same : patPair w.input.stream = (gatherer lib.pat).pair w.pats :=
              congrArg Prod.fst h.pairs
            have kept : pmtPair w.input.stream = (gatherer lib.pmt).pair w.pmts :=
              congrArg Prod.snd h.pairs
            rw [kept] at silent
            simp only [listen, dead, pat, own, next, Bool.false_eq_true, if_false, if_true]
            refine ⟨?_, h.pats, h.pmts.concat silent⟩
            rw [stays, fed, same, kept, Gatherer.pair_concat]
        · have idle : processPmt lib w.input (lib.getPid p) p = (0, w.input) := by
            unfold processPmt
            rw [if_pos]
            by_contra both
            push Not at both
            exact own both
          simp only [listen, dead, pat, own, next, Bool.false_eq_true, if_false]
          refine ⟨?_, h.pats, h.pmts⟩
          rw [stays, idle]
          exact h.pairs

theorem heard_run {steps : List InputStep} (lasts : ∀ step ∈ steps, step ≠ .reconnect)
    (connected : Connected lib conf r steps) : Heard lib (listened lib conf r steps) := by
  induction steps using List.reverseRecOn with
  | nil =>
      refine ⟨rfl, ?_, ?_⟩ <;>
      · intro done a rest split
        simp [listened] at split
  | append_singleton steps step ih =>
      obtain ⟨earlier, last⟩ := (connected_concat_iff steps step).mp connected
      have before := ih (fun s member => lasts s (List.mem_append_left _ member)) earlier
      rw [listened_concat]
      cases step with
      | packet p =>
          apply before.packet
          rw [input_listened]
          exact last p rfl
      | reconnect => exact absurd rfl (lasts .reconnect (by simp))
      | take => exact ⟨before.pairs, before.pats, before.pmts⟩
      | stop => exact ⟨before.pairs, before.pats, before.pmts⟩

variable (lib conf r) in
private theorem changed_concat (steps : List InputStep) (step : InputStep) :
    (PatChanged lib conf r steps → PatChanged lib conf r (steps ++ [step])) ∧
      (PmtChanged lib conf r steps → PmtChanged lib conf r (steps ++ [step])) := by
  unfold PatChanged PmtChanged
  rw [listened_concat]
  unfold listen
  cases step with
  | packet p =>
      dsimp only
      split_ifs
      · exact ⟨id, id⟩
      · exact ⟨(gatherer lib.pat).changed_concat lib.pat.isSame p, id⟩
      · exact ⟨id, (gatherer lib.pmt).changed_concat lib.pmt.isSame p⟩
      · exact ⟨id, id⟩
  | reconnect | take | stop => exact ⟨id, id⟩

private theorem reported_of_connected {steps : List InputStep}
    (lasts : ∀ step ∈ steps, step ≠ .reconnect) (connected : Connected lib conf r steps)
    (p : Packet) :
    ((processPat lib (afterReset lib conf r steps) (lib.getPid p) p).1 = -2 ↔
        lib.getPid p = 0 ∧ PatChanged lib conf r steps) ∧
      ((processPmt lib (afterReset lib conf r steps) (lib.getPid p) p).1 = -2 ↔
        onPmtPid lib (afterReset lib conf r steps) p ∧ PmtChanged lib conf r steps) := by
  have heard := heard_run lasts connected
  rw [← input_listened]
  constructor
  · by_cases pat : lib.getPid p = 0
    · rw [pat, heard.pat_iff p]
      exact (and_iff_right rfl).symm
    · have other : processPat lib (listened lib conf r steps).input (lib.getPid p) p =
          (0, (listened lib conf r steps).input, p) := by simp [processPat, pat]
      rw [other]
      exact iff_of_false (by norm_num) fun both => pat both.1
  · by_cases own : onPmtPid lib (listened lib conf r steps).input p
    · rw [heard.pmt_iff own]
      exact (and_iff_right own).symm
    · have other : processPmt lib (listened lib conf r steps).input (lib.getPid p) p =
          (0, (listened lib conf r steps).input) := by
        rw [processPmt]
        rw [if_pos]
        by_contra both
        push Not at both
        exact own both
      rw [other]
      exact iff_of_false (by norm_num) fun both => own both.1

theorem connected_of_unchanged {steps : List InputStep}
    (lasts : ∀ step ∈ steps, step ≠ .reconnect) (pat : ¬ PatChanged lib conf r steps)
    (pmt : ¬ PmtChanged lib conf r steps) : Connected lib conf r steps := by
  induction steps using List.reverseRecOn with
  | nil =>
      intro done p rest split
      simp at split
  | append_singleton steps step ih =>
      obtain ⟨patKept, pmtKept⟩ := changed_concat lib conf r steps step
      have before : ∀ s ∈ steps, s ≠ .reconnect := fun s member =>
        lasts s (List.mem_append_left _ member)
      have connected := ih before (fun changed => pat (patKept changed))
        (fun changed => pmt (pmtKept changed))
      refine (connected_concat_iff steps step).mpr ⟨connected, ?_⟩
      rintro p rfl reconnects
      obtain ⟨patIff, pmtIff⟩ := reported_of_connected before connected p
      cases alive : (afterReset lib conf r steps).dienow with
      | true =>
          rw [inputPacket_of_dead alive] at reconnects
          cases reconnects
      | false =>
          by_cases zero : lib.getPid p = 0
          · rw [inputPacket_of_pat alive zero] at reconnects
            rw [zero] at patIff
            have result : (processPat lib (afterReset lib conf r steps) 0 p).1 = -2 := by
              by_contra other
              simp [other] at reconnects
            exact pat (patKept (patIff.mp result).2)
          · have result := (inputPacket_pmt conf alive zero).1.mp reconnects
            exact pmt (pmtKept (pmtIff.mp result).2)

variable (lib conf r) in
/-- In every connection `process_pat` asks for a reconnect on exactly the packets of its PID that
come after a PAT other than the first one, and `process_pmt` likewise; a connection whose tables
stay the same is never given up for them. -/
theorem change_reported (steps : List InputStep) (lasts : ∀ step ∈ steps, step ≠ .reconnect) :
    (Connected lib conf r steps → ∀ p,
      ((processPat lib (afterReset lib conf r steps) (lib.getPid p) p).1 = -2 ↔
        lib.getPid p = 0 ∧ PatChanged lib conf r steps) ∧
      ((processPmt lib (afterReset lib conf r steps) (lib.getPid p) p).1 = -2 ↔
        onPmtPid lib (afterReset lib conf r steps) p ∧ PmtChanged lib conf r steps)) ∧
    (¬ PatChanged lib conf r steps → ¬ PmtChanged lib conf r steps →
      Connected lib conf r steps) :=
  ⟨reported_of_connected lasts, connected_of_unchanged lasts⟩

end connection

/-- Two PATs, of different programs. -/
def twoPats : List Packet := patPackets [⟨1, 0x100⟩] ++ patPackets [⟨2, 0x100⟩]

def newInput : Input := inputNew sectionLibs "tv" (sampleChannel 1 0) false

/-- After the second PAT the next packet of its PID ends the connection. -/
theorem change_reported_second_pat :
    (processPat sectionLibs
      (afterReset sectionLibs (sampleConfig 0) newInput (twoPats.map .packet))
      (sectionLibs.getPid (payloadPacket 0)) (payloadPacket 0)).1 = -2 := by
  have lasts := lasts_packets twoPats
  have connected : Connected sectionLibs (sampleConfig 0) newInput (twoPats.map .packet) := by
    have first : Connected sectionLibs (sampleConfig 0) newInput
        ([] ++ [.packet ((patPackets [⟨1, 0x100⟩]).headD (payloadPacket 0))]) := by
      refine (connected_concat_iff _ _).mpr ⟨?_, ?_⟩
      · intro done p rest split
        simp at split
      · rintro p same
        obtain rfl := InputStep.packet.inj same
        decide +kernel
    refine (connected_concat_iff _
      (.packet ((patPackets [⟨2, 0x100⟩]).headD (payloadPacket 0)))).mpr ⟨first, ?_⟩
    rintro p same
    obtain rfl := InputStep.packet.inj same
    decide +kernel
  exact ((change_reported sectionLibs (sampleConfig 0) newInput _ lasts).1 connected _).1.mpr
    ⟨by decide +kernel, by unfold PatChanged; decide +kernel⟩

end Mptsd.Intake.Changes
