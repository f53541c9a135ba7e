/- Unit: Mptsd/Psi/Refused
   source: src/output_psi.c (output_add_pat .. __output_add_eit), src/input.c (process_pmt,
   process_eit, input_buffer_add)
   digest: The continuity counters of what every generator gets into its buffer, over any order of
   generators, of the other work of the inputs, and of reads by the mixer. -/

import Mptsd.Intake.Effects
import Mptsd.Lib.Numbered
import Mptsd.Psi.Model

set_option autoImplicit false
set_option relaxedAutoImplicit false

namespace Mptsd.Psi.Refused

open Mptsd.TsPacket (Packet TsFuncs)
open Mptsd.Channels (chansrcNext sampleChannel)
open Mptsd.Conf (Config sampleConfig)
open Mptsd.Lib.Counter (Cyclic cyclicRun_mod)
open Mptsd.Lib.Numbered
open Mptsd.PsiTables
open Mptsd.Sections (sectionLibs payloadPacket)
open Mptsd.Intake.Model
open Mptsd.Intake.Frames
open Mptsd.Intake.EitForward (eitView_processPat eitView_processPmt eitView_forwardPacket)
open Mptsd.Intake.Effects
open Mptsd.Psi.Model

/-- What the thread of an input, the mixer and the shutdown do to an input, one call at a time. -/
inductive Handler
  | pat (pid : ℕ) (tsPacket : Packet)
  | pmt (pid : ℕ) (tsPacket : Packet)
  | eit (tsPacket : Packet)
  | forward (pid : ℕ) (tsPacket : Packet)
  | reconnect
  | take
  | stop

variable (lib : Libs) (conf : Config)

def handlerStep (r : Input) : Handler → Input
  | .pat pid p => (processPat lib r pid p).2.1
  | .pmt pid p => (processPmt lib r pid p).2
  | .eit p => (processEit lib conf r p).2
  | .forward pid p => forwardPacket lib r pid p
  | .reconnect => inputStreamReset lib { r with channel := chansrcNext r.channel }
  | .take => { r with buf := (cbufGet r.buf).2 }
  | .stop => { r with dienow := true }

/-- The packet loop is made of these calls. -/
theorem inputPacket_handlers (r : Input) (p : Packet) :
    ∃ handlers : List Handler,
      (inputPacket lib conf r p).2 = handlers.foldl (handlerStep lib conf) r := by
  cases alive : r.dienow with
  | true => exact ⟨[], by rw [inputPacket_of_dead alive]; rfl⟩
  | false =>
      by_cases pid : lib.getPid p = 0
      · exact ⟨[.pat 0 p], by rw [inputPacket_of_pat alive pid]; rfl⟩
      · rw [inputPacket_of_other alive pid]
        dsimp only
        split_ifs
        · exact ⟨[.pmt (lib.getPid p) p], rfl⟩
        · exact ⟨[.pmt (lib.getPid p) p], rfl⟩
        · exact ⟨[.pmt (lib.getPid p) p, .eit p], rfl⟩
        · exact ⟨[.pmt (lib.getPid p) p], rfl⟩
        · exact ⟨[.pmt (lib.getPid p) p, .forward (lib.getPid p) p], rfl⟩

/-- The PSI thread with its buffer, and any number of inputs. -/
structure Tables where
  psi : PsiOutput lib.toTsFuncs
  psibuf : Cbuf
  inputs : ℕ → Input

inductive TablesStep
  | psi (call : PsiCall lib.toTsFuncs)
  | takePsi
  | input (i : ℕ) (handler : Handler)

variable (tf : TimeFuncs lib.toTsFuncs)

def tablesStep (s : Tables lib) : TablesStep lib → Tables lib
  | .psi call =>
      { s with
        psi := (psiCall lib tf s.psi s.psibuf call).1
        psibuf := (psiCall lib tf s.psi s.psibuf call).2 }
  | .takePsi => { s with psibuf := (cbufGet s.psibuf).2 }
  | .input i handler =>
      { s with inputs := Function.update s.inputs i (handlerStep lib conf (s.inputs i) handler) }

/-- Everything that stamps packets with a continuity counter of its own. -/
inductive Producer
  | psi (g : Generator)
  | pmt (i : ℕ)
  | eit (i : ℕ)
  deriving DecidableEq

variable {lib}

/-- Whose step it is, if it is one of a producer. -/
def TablesStep.producer : TablesStep lib → Option Producer
  | .psi call => some (.psi call.generator)
  | .input i (.pmt _ _) => some (.pmt i)
  | .input i (.eit _) => some (.eit i)
  | _ => none

namespace Tables

/-- The counter of a producer. -/
def cont (s : Tables lib) : Producer → ℕ
  | .psi g => s.psi.cont g
  | .pmt i => (s.inputs i).stream.pidPmtCont
  | .eit i => (s.inputs i).stream.pidEitCont

/-- The data handed to the buffer of a producer so far. -/
def fed (s : Tables lib) : Producer → List (List Packet)
  | .psi _ => s.psi.fed
  | .pmt i | .eit i => (s.inputs i).fed

/-- The packets stored in the buffer of a producer so far. -/
def filled (s : Tables lib) : Producer → List Packet
  | .psi _ => s.psibuf.filled
  | .pmt i | .eit i => (s.inputs i).buf.filled

end Tables

/-- The state with the notes of an observer on every producer. -/
structure Observed (lib : Libs) where
  tables : Tables lib
  notes : Producer → Notes Packet

/-- A producer's step: what it hands to its buffer is numbered, what the buffer has gained is
kept. -/
def observedStep (s : Observed lib) (step : TablesStep lib) : Observed lib :=
  let after := tablesStep lib conf tf s.tables step
  { tables := after
    notes :=
      match step.producer with
      | none => s.notes
      | some P => Function.update s.notes P ((s.notes P).hand
          ((after.fed P).drop (s.tables.fed P).length).flatten
          ((after.filled P).drop (s.tables.filled P).length)) }

def observedRun (s : Tables lib) (steps : List (TablesStep lib)) : Observed lib :=
  steps.foldl (observedStep conf tf) ⟨s, fun _ => Notes.start⟩

private theorem observedRun_concat (s : Tables lib) (steps : List (TablesStep lib))
    (step : TablesStep lib) :
    observedRun conf tf s (steps ++ [step]) =
      observedStep conf tf (observedRun conf tf s steps) step := by
  simp [observedRun]

private theorem tables_observedRun (s : Tables lib) (steps : List (TablesStep lib)) :
    (observedRun conf tf s steps).tables = steps.foldl (tablesStep lib conf tf) s := by
  induction steps using List.reverseRecOn with
  | nil => rfl
  | append_singleton steps step ih =>
      rw [observedRun_concat, List.foldl_append]
      exact congrArg (fun s => tablesStep lib conf tf s step) ih

section effects

variable {r : Input}

/-- What a producer's step does to the data handed on, to the stored packets and to the counter. -/
inductive Hands (ts : TsFuncs) (fed : List (List Packet)) (filled : List Packet) (cont : ℕ)
    (fed' : List (List Packet)) (filled' : List Packet) (cont' : ℕ) : Prop
  | idle (fed : fed' = fed) (filled : filled' = filled) (cont : cont' = cont)
  | added (packets : List Packet) (fed : fed' = fed ++ [setConts ts cont packets])
      (filled : filled' = filled ++ setConts ts cont packets ∨ filled' = filled)
      (cont : cont' = (cont + packets.length) % 16)

private theorem prefix_of_stored {filled filled' : List Packet} (data : List Packet)
    (stored : filled' = filled ++ data ∨ filled' = filled) : filled <+: filled' := by
  rcases stored with rfl | rfl
  · exact List.prefix_append _ _
  · exact List.prefix_rfl

private theorem Hands.filled_grows {ts : TsFuncs} {fed fed' : List (List Packet)}
    {filled filled' : List Packet} {cont cont' : ℕ}
    (hands : Hands ts fed filled cont fed' filled' cont') : filled <+: filled' := by
  cases hands with
  | idle _ same _ => rw [same]
  | added packets _ stored _ => exact prefix_of_stored _ stored

variable (lib)

private theorem filled_handed (r : Input) (data : List Packet) :
    (inputBufferAdd lib r data).buf.filled = r.buf.filled ++ data ∨
      (inputBufferAdd lib r data).buf.filled = r.buf.filled := by
  rw [filled_inputBufferAdd]
  split
  · exact Or.inl rfl
  · exact Or.inr rfl

/-- The counter of the PMT. -/
def pmtCont (r : Input) : ℕ := r.stream.pidPmtCont

private theorem inputRewritePmt_keeps (r : Input) :
    pmtCont (inputRewritePmt lib r) = pmtCont r ∧ (inputRewritePmt lib r).fed = r.fed ∧
      (inputRewritePmt lib r).buf = r.buf := by
  obtain ⟨_, _, _, _, same⟩ := inputRewritePmt_frame lib r
  rw [same]
  exact ⟨rfl, rfl, rfl⟩

private theorem emitPmt_hands (r : Input) :
    Hands lib.toTsFuncs r.fed r.buf.filled (pmtCont r) (emitPmt lib r).fed
      (emitPmt lib r).buf.filled (pmtCont (emitPmt lib r)) := by
  rcases emitPmt_cases lib r with same | ⟨M, -, -, same⟩
  · rw [same]
    exact .idle rfl rfl rfl
  · rw [same]
    refine .added M.packets (fed_inputBufferAdd lib _ _) (filled_handed lib _ _) ?_
    rw [pmtCont]
    rw [stream_inputBufferAdd]
    rfl

private theorem processPmt_hands (pid : ℕ) (p : Packet) :
    Hands lib.toTsFuncs r.fed r.buf.filled (pmtCont r) (processPmt lib r pid p).2.fed
      (processPmt lib r pid p).2.buf.filled (pmtCont (processPmt lib r pid p).2) := by
  rw [processPmt]
  dsimp only
  split_ifs
  · exact .idle rfl rfl rfl
  · exact .idle rfl rfl rfl
  · exact .idle rfl rfl rfl
  · exact emitPmt_hands lib (pushLastPmt lib (r.setPmt (lib.pmt.push r.stream.pmt p)) p)
  · have emitted := emitPmt_hands lib
      (inputRewritePmt lib (pushLastPmt lib (r.setPmt (lib.pmt.push r.stream.pmt p)) p))
    obtain ⟨cont, fed, buf⟩ :=
      inputRewritePmt_keeps lib (pushLastPmt lib (r.setPmt (lib.pmt.push r.stream.pmt p)) p)
    rw [cont, fed, buf] at emitted
    exact emitted
  · exact .idle rfl rfl rfl

private theorem emitEit_hands (r : Input) (P : TsEit) :
    Hands lib.toTsFuncs r.fed r.buf.filled r.stream.pidEitCont (emitEit lib r P).fed
      (emitEit lib r P).buf.filled (emitEit lib r P).stream.pidEitCont := by
  refine .added P.packets (fed_inputBufferAdd lib _ _) (filled_handed lib _ _) ?_
  rw [Intake.Rewrite.stream_emitEit]

private theorem processEit_hands (conf : Config) (p : Packet) :
    Hands lib.toTsFuncs r.fed r.buf.filled r.stream.pidEitCont (processEit lib conf r p).2.fed
        (processEit lib conf r p).2.buf.filled (processEit lib conf r p).2.stream.pidEitCont ∧
      pmtCont (processEit lib conf r p).2 = pmtCont r := by
  obtain ⟨x, ⟨eit, eitRewritten, rfl⟩, same | ⟨P, same⟩⟩ := processEit_frame lib r conf p
  · rw [same]
    exact ⟨.idle rfl rfl rfl, rfl⟩
  · rw [same]
    refine ⟨emitEit_hands lib (r.onStream fun s => { s with eit, eitRewritten }) P, ?_⟩
    rw [pmtCont]
    rw [Intake.Rewrite.stream_emitEit]
    rfl

private theorem pmtCont_processPat (pid : ℕ) (p : Packet) :
    pmtCont (processPat lib r pid p).2.1 = pmtCont r := by
  obtain ⟨_, _, _, _, _, _, _, same⟩ := processPat_frame lib r pid p
  rw [same]
  rfl

private theorem pmtCont_forwardPacket (pid : ℕ) (p : Packet) :
    pmtCont (forwardPacket lib r pid p) = pmtCont r := by
  obtain ⟨inputPcr, same | ⟨data, inputReady, same⟩⟩ := forwardPacket_frame lib r pid p
  · rw [same]
    rfl
  · have stream := stream_inputBufferAdd lib (r.onStream fun s => { s with inputPcr }) data
    rw [same]
    exact (congrArg InputStream.pidPmtCont stream).trans rfl

private theorem filled_handlerStep (conf : Config) (r : Input) (handler : Handler) :
    r.buf.filled <+: (handlerStep lib conf r handler).buf.filled := by
  cases handler with
  | pat pid p =>
      exact prefix_of_stored [] (Or.inr (filled_congr (bufView_processPat lib r pid p)))
  | pmt pid p => exact (processPmt_hands lib pid p).filled_grows
  | eit p => exact (processEit_hands lib conf p).1.filled_grows
  | forward pid p =>
      have effect := forwardPacket_effect lib r pid p
      show r.buf.filled <+: (forwardPacket lib r pid p).buf.filled
      split_ifs at effect
      · rw [filled_congr effect]
        exact prefix_of_stored _ (filled_handed lib r _)
      · rw [filled_congr effect]
  | reconnect => exact List.prefix_rfl
  | take => exact prefix_of_stored [] (Or.inr (filled_cbufGet r.buf))
  | stop => exact List.prefix_rfl

end effects

section step

variable (s : Tables lib) (step : TablesStep lib)

private theorem tablesStep_hands {P : Producer} (own : step.producer = some P) :
    Hands lib.toTsFuncs (s.fed P) (s.filled P) (s.cont P) ((tablesStep lib conf tf s step).fed P)
      ((tablesStep lib conf tf s step).filled P) ((tablesStep lib conf tf s step).cont P) := by
  cases step with
  | psi call =>
      obtain rfl := Option.some.inj own
      cases psiCall_called lib tf s.psi s.psibuf call with
      | idle fed cont buf =>
          exact .idle fed (congrArg (fun b : Cbuf => b.filled) buf) (congrFun cont _)
      | added t fed cont buf =>
          refine .added t.packets fed ?_ ?_
          · show (psiCall lib tf s.psi s.psibuf call).2.filled = s.psibuf.filled ++ _ ∨
              (psiCall lib tf s.psi s.psibuf call).2.filled = s.psibuf.filled
            rw [buf]
            exact filled_cbufFill lib s.psibuf _
          · exact (congrFun cont _).trans (Function.update_self _ _ _)
  | takePsi => cases own
  | input i handler =>
      cases handler with
      | pmt pid p =>
          obtain rfl := Option.some.inj own
          have hands := @processPmt_hands lib (s.inputs i) pid p
          simpa only [Tables.fed, Tables.filled, Tables.cont, tablesStep, Function.update_self,
            handlerStep, pmtCont] using hands
      | eit p =>
          obtain rfl := Option.some.inj own
          have hands := (@processEit_hands lib (s.inputs i) conf p).1
          simpa only [Tables.fed, Tables.filled, Tables.cont, tablesStep, Function.update_self,
            handlerStep, pmtCont] using hands
      | pat pid p => cases own
      | forward pid p => cases own
      | reconnect => cases own
      | take => cases own
      | stop => cases own

private theorem handlerStep_conts (r : Input) (handler : Handler) :
    ((∀ pid p, handler ≠ .pmt pid p) → pmtCont (handlerStep lib conf r handler) = pmtCont r) ∧
      ((∀ p, handler ≠ .eit p) →
        (handlerStep lib conf r handler).stream.pidEitCont = r.stream.pidEitCont) := by
  cases handler with
  | pat pid p =>
      exact ⟨fun _ => pmtCont_processPat lib pid p,
        fun _ => congrArg (fun v => v.2.2.1) (eitView_processPat lib r pid p)⟩
  | pmt pid p =>
      exact ⟨fun other => absurd rfl (other pid p),
        fun _ => congrArg (fun v => v.2.2.1) (eitView_processPmt lib r pid p)⟩
  | eit p => exact ⟨fun _ => (processEit_hands lib conf p).2, fun other => absurd rfl (other p)⟩
  | forward pid p =>
      exact ⟨fun _ => pmtCont_forwardPacket lib pid p,
        fun _ => congrArg (fun v => v.2.2.1) (eitView_forwardPacket lib r pid p)⟩
  | reconnect => exact ⟨fun _ => rfl, fun _ => rfl⟩
  | take => exact ⟨fun _ => rfl, fun _ => rfl⟩
  | stop => exact ⟨fun _ => rfl, fun _ => rfl⟩

private theorem tablesStep_others {P : Producer} (other : step.producer ≠ some P) :
    (tablesStep lib conf tf s step).cont P = s.cont P := by
  cases step with
  | takePsi => cases P <;> rfl
  | psi call =>
      cases P with
      | pmt i => rfl
      | eit i => rfl
      | psi g =>
          have ne : g ≠ call.generator := by
            rintro rfl
            exact other rfl
          cases psiCall_called lib tf s.psi s.psibuf call with
          | idle _ cont _ => exact congrFun cont g
          | added _ _ cont _ => exact (congrFun cont g).trans (Function.update_of_ne ne _ _)
  | input i handler =>
      obtain ⟨pmt, eit⟩ := handlerStep_conts conf (s.inputs i) handler
      cases P with
      | psi g => rfl
      | pmt j =>
          by_cases same : j = i
          · subst same
            simp only [Tables.cont, tablesStep, Function.update_self]
            apply pmt
            rintro pid p rfl
            exact other rfl
          · simp only [Tables.cont, tablesStep, Function.update_of_ne same]
      | eit j =>
          by_cases same : j = i
          · subst same
            simp only [Tables.cont, tablesStep, Function.update_self]
            apply eit
            rintro p rfl
            exact other rfl
          · simp only [Tables.cont, tablesStep, Function.update_of_ne same]

private theorem filled_grows (P : Producer) :
    s.filled P <+: (tablesStep lib conf tf s step).filled P := by
  have inputs : ∀ i, (s.inputs i).buf.filled <+:
      ((tablesStep lib conf tf s step).inputs i).buf.filled := by
    intro i
    cases step with
    | psi call => exact List.prefix_rfl
    | takePsi => exact List.prefix_rfl
    | input j handler =>
        by_cases same : i = j
        · subst same
          simp only [tablesStep, Function.update_self]
          exact filled_handlerStep lib conf _ handler
        · simp only [tablesStep, Function.update_of_ne same]
          exact List.prefix_rfl
  cases P with
  | pmt i => exact inputs i
  | eit i => exact inputs i
  | psi g =>
      show s.psibuf.filled <+: (tablesStep lib conf tf s step).psibuf.filled
      cases step with
      | input j handler => exact List.prefix_rfl
      | takePsi => exact prefix_of_stored [] (Or.inr (filled_cbufGet s.psibuf))
      | psi call =>
          show s.psibuf.filled <+: (psiCall lib tf s.psi s.psibuf call).2.filled
          cases psiCall_called lib tf s.psi s.psibuf call with
          | idle _ _ buf => rw [buf]
          | added _ _ _ buf =>
              rw [buf]
              exact prefix_of_stored _ (filled_cbufFill lib s.psibuf _)

end step

/-- What holds of a producer in every run from `s`. -/
structure Noted (s : Tables lib) (o : Observed lib) (P : Producer) : Prop where
  shown : Shown lib.getCont 16 (s.cont P) (o.notes P)
  cont : o.tables.cont P % 16 = (s.cont P + (o.notes P).numbered) % 16
  stored : ((o.notes P).kept.map Prod.fst).Sublist (o.tables.filled P)

variable {s : Tables lib} {o : Observed lib}

theorem Noted.step {P : Producer} (h : Noted s o P) (step : TablesStep lib) :
    Noted s (observedStep conf tf o step) P := by
  by_cases own : step.producer = some P
  · have notes : (observedStep conf tf o step).notes P = (o.notes P).hand
        (((tablesStep lib conf tf o.tables step).fed P).drop (o.tables.fed P).length).flatten
        (((tablesStep lib conf tf o.tables step).filled P).drop
          (o.tables.filled P).length) := by
      simp [observedStep, own]
    refine ⟨?_, ?_, ?_⟩
    · rw [notes]
      cases tablesStep_hands conf tf o.tables step own with
      | idle fed filled _ =>
          rw [fed, filled, List.drop_length, List.drop_length]
          exact h.shown.hand (by simp) (Or.inl rfl)
      | added packets fed filled _ =>
          rw [fed, List.drop_left, List.flatten_singleton]
          refine h.shown.hand ?_ ?_
          · rw [conts_setConts, length_setConts, ← cyclicRun_mod, h.cont, cyclicRun_mod]
          · rcases filled with stored | refused
            · exact Or.inl (by rw [stored, List.drop_left])
            · exact Or.inr (by rw [refused, List.drop_length])
    · rw [notes]
      have before := h.cont
      show (tablesStep lib conf tf o.tables step).cont P % 16 = _
      cases tablesStep_hands conf tf o.tables step own with
      | idle fed filled cont =>
          rw [fed, cont, List.drop_length]
          exact before
      | added packets fed filled cont =>
          rw [fed, cont, List.drop_left, List.flatten_singleton, Notes.hand, length_setConts]
          dsimp only
          omega
    · obtain ⟨new, gained⟩ := filled_grows conf tf o.tables step P
      rw [notes, ← gained, List.drop_left, Notes.hand, List.map_append, List.zipIdx_map_fst]
      show List.Sublist _ ((tablesStep lib conf tf o.tables step).filled P)
      rw [← gained]
      exact h.stored.append (List.Sublist.refl _)
  · have notes : (observedStep conf tf o step).notes P = o.notes P := by
      rw [observedStep]
      dsimp only
      cases whose : step.producer with
      | none => rfl
      | some Q =>
          rw [whose] at own
          exact Function.update_of_ne (fun same => own (congrArg some same.symm)) _ _
    refine ⟨?_, ?_, ?_⟩
    · rw [notes]
      exact h.shown
    · rw [notes, ← h.cont]
      exact congrArg (· % 16) (tablesStep_others conf tf o.tables step own)
    · rw [notes]
      exact h.stored.trans (filled_grows conf tf o.tables step P).sublist

private theorem noted_run (s : Tables lib) (steps : List (TablesStep lib)) (P : Producer) :
    Noted s (observedRun conf tf s steps) P := by
  induction steps using List.reverseRecOn with
  | nil => exact ⟨shown_start, rfl, List.nil_sublist _⟩
  | append_singleton steps step ih =>
      rw [observedRun_concat]
      exact ih.step conf tf step

/-- The packets of a producer that were stored, each with its place among all the packets the
producer has handed on. -/
def storedOf (o : Observed lib) (P : Producer) : List (Packet × ℕ) := (o.notes P).kept

/-- How many packets of their producer were refused between two stored ones. -/
def refusedBetween (a b : Packet × ℕ) : ℕ := b.2 - a.2 - 1

/-- In every run, the stored packets of a producer are in its buffer, and their counters advance by
one exactly when the number of packets refused between two of them is always a multiple of
sixteen. -/
theorem stored_cyclic_iff (lib : Libs) (conf : Config) (tf : TimeFuncs lib.toTsFuncs)
    (s : Tables lib) (steps : List (TablesStep lib)) (P : Producer) :
    ((storedOf (observedRun conf tf s steps) P).map Prod.fst).Sublist
        ((steps.foldl (tablesStep lib conf tf) s).filled P) ∧
      (Cyclic 16 ((storedOf (observedRun conf tf s steps) P).map fun x => lib.getCont x.1) ↔
        (storedOf (observedRun conf tf s steps) P).IsChain fun a b => 16 ∣ refusedBetween a b) := by
  have noted := noted_run conf tf s steps P
  refine ⟨?_, noted.shown.cyclic_iff⟩
  rw [← tables_observedRun]
  exact noted.stored

private theorem pid_samplePat : sectionLibs.getPid (payloadPacket 0) = 0x00 := by decide +kernel
private theorem sync_samplePat : payloadPacket 0 0 = 0x47 := rfl

/-- A PSI thread with a PAT of one packet and nothing else. -/
def samplePsi : PsiOutput sectionLibs.toTsFuncs where
  programsNum := 1
  pat :=
    { packets := [payloadPacket 0]
      continuity := 0
      pids := List.forall_mem_singleton.mpr pid_samplePat
      sync := List.forall_mem_singleton.mpr sync_samplePat }
  nit := none
  sdt := none
  tdt := none
  tot := none
  pidPatCont := 0
  pidNitCont := 0
  pidSdtCont := 0
  pidEitCont := 0
  pidTdtCont := 0
  fed := []

/-- Time functions that leave a table as it is. -/
def sampleTimeFuncs : TimeFuncs sectionLibs.toTsFuncs := ⟨fun t _ => t, fun t _ => t⟩

/-- The PSI buffer has room for one more packet. -/
def crowdedTables : Tables sectionLibs where
  psi := samplePsi
  psibuf := (Cbuf.init 65800).append (List.replicate 349 (payloadPacket 0x12))
  inputs _ := inputNew sectionLibs "tv" (sampleChannel 1 0) false

/-- The second of three PATs finds the buffer full, the third one comes after a read. -/
theorem refused_pat_skips :
    ¬ Cyclic 16 ((storedOf (observedRun (sampleConfig 0) sampleTimeFuncs crowdedTables
      [.psi .pat, .psi .pat, .takePsi, .psi .pat]) (.psi .pat)).map
        fun x => sectionLibs.getCont x.1) := by
  rw [Cyclic]
  decide +kernel

end Mptsd.Psi.Refused
