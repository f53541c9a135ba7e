/- Unit: Mptsd/Pipeline/Supply
   source: src/input.c, src/output_mix.c (output_handle_mix), src/config.c (config_load_channels)
   digest: What holds of every input and of the PSI thread in all runs of all threads: a property
   their own steps keep is not disturbed by the mixer and the writer. -/

import Mptsd.Intake.Stored
import Mptsd.Pipeline.Flow

set_option autoImplicit false
set_option relaxedAutoImplicit false

namespace Mptsd.Pipeline.Supply

open Mptsd.TsPacket
open Mptsd.Channels (Channel Made)
open Mptsd.Conf (Config)
open Mptsd.Lib.Queue (Fifo)
open Mptsd.PsiTables
open Mptsd.Psi.Model
open Mptsd.Intake.Model
open Mptsd.Intake.Stored (Stocked stocked_inputNew)
open Mptsd.Mixer.Model
  (Mix Arrives Supplied mixTurn startFill countPackets visitInput pcrGate packetsNeeded readInput
    mixTurn_step scanInput_frame)
open Mptsd.Pipeline.Model
open Mptsd.Pipeline.Flow

/-- The channels as the configuration loads them: made by `channel_new` for the sections 1 to 31. -/
structure Lineup where
  channels : List Channel
  made : ∀ c ∈ channels, Made c
  low : ∀ c ∈ channels, c.index < 32

/-- The inputs of the channels, as they start. -/
def Lineup.inputs (lineup : Lineup) (lib : Libs) (ifd : Bool) : List Input :=
  lineup.channels.map fun c => inputNew lib c.name c ifd

/-- What a visit of the mixer leaves of an input. -/
structure Visited (r r' : Input) : Prop where
  stream : r'.stream = r.stream
  channel : r'.channel = r.channel
  filled : r'.buf.filled = r.buf.filled
  refused : r'.buf.refused = r.buf.refused
  disabled : r'.disabled = r.disabled

private theorem Visited.refl (r : Input) : Visited r r := ⟨rfl, rfl, rfl, rfl, rfl⟩

theorem Visited.trans {r r' r'' : Input} (h : Visited r r') (h' : Visited r' r'') :
    Visited r r'' :=
  ⟨h'.stream.trans h.stream, h'.channel.trans h.channel, h'.filled.trans h.filled,
    h'.refused.trans h.refused, h'.disabled.trans h.disabled⟩

/-- Every input is still there, and was visited at most. -/
structure AllVisited (l l' : List Input) : Prop where
  length : l'.length = l.length
  each : ∀ (i : ℕ) (r' : Input), l'[i]? = some r' → ∃ r, l[i]? = some r ∧ Visited r r'

private theorem AllVisited.refl (l : List Input) : AllVisited l l :=
  ⟨rfl, fun _ r' found => ⟨r', found, .refl r'⟩⟩

section mixer

variable (ts : TsFuncs) (conf : Config)

private theorem visited_countPackets (n : ℕ) (l : List Input) :
    AllVisited l (l.map (countPackets n)) := by
  refine ⟨List.length_map _, ?_⟩
  intro i r' found
  rw [List.getElem?_map] at found
  obtain ⟨r, before, rfl⟩ := Option.map_eq_some_iff.mp found
  exact ⟨r, before, rfl, rfl, rfl, rfl, rfl⟩

private theorem visited_set {l : List Input} {i : ℕ} {r r' : Input} (found : l[i]? = some r)
    (visited : Visited r r') : AllVisited l (l.set i r') := by
  have inside := (List.getElem?_eq_some_iff.mp found).1
  refine ⟨List.length_set, ?_⟩
  intro j r'' there
  by_cases own : i = j
  · subst own
    rw [List.getElem?_set_self inside] at there
    obtain rfl := Option.some.inj there
    exact ⟨r, found, visited⟩
  · rw [List.getElem?_set_ne own] at there
    exact ⟨r'', there, .refl r''⟩

private theorem visited_pcrGate (maxPackets : ℕ) (r : Input) (p : Packet) :
    Visited r (pcrGate ts conf maxPackets r p).2 := by
  rw [pcrGate]
  dsimp only
  by_cases pcr : ts.getPid p = r.outputPcrPid ∧ ts.hasPcr p = true
  · rw [if_pos pcr]
    generalize (if r.outputLastPcr ≠ 0 ∧ r.outputPcrPacketsNeeded ≤ 0 then
      packetsNeeded conf maxPackets (ts.getPcr p) r.outputLastPcr
      else r.outputPcrPacketsNeeded) = needed
    by_cases held : needed > 0 ∧ r.outputedPackets < needed
    · rw [if_pos held]
      exact ⟨rfl, rfl, rfl, rfl, rfl⟩
    · rw [if_neg held]
      exact ⟨rfl, rfl, rfl, rfl, rfl⟩
  · rw [if_neg pcr]
    exact .refl r

private theorem visited_readInput (r : Input) : Visited r (readInput ts r).2 := by
  rw [readInput]
  split
  · exact ⟨rfl, rfl, filled_cbufGet r.buf, rfl, rfl⟩
  · exact ⟨rfl, rfl, filled_cbufGet r.buf, rfl, rfl⟩

private theorem visited_visitInput (maxPackets : ℕ) (r : Input) :
    Visited r (visitInput ts conf maxPackets r).2 := by
  rw [visitInput]
  split
  · split
    · exact .refl r
    · dsimp only
      split
      · exact visited_pcrGate ts conf maxPackets r _
      · exact (visited_pcrGate ts conf maxPackets r _).trans (visited_readInput ts _)
  · exact visited_readInput ts r

theorem visited_mixTurn (m : Mix) :
    AllVisited m.inputs (mixTurn ts conf m).inputs ∧
      ((mixTurn ts conf m).psibuf = m.psibuf ∨
        (mixTurn ts conf m).psibuf = (cbufGet m.psibuf).2) := by
  have step := mixTurn_step ts conf m
  generalize mixTurn ts conf m = after at step ⊢
  cases step with
  | start =>
      rw [startFill]
      dsimp only
      split
      · exact ⟨visited_countPackets _ _, Or.inl rfl⟩
      · exact ⟨.refl _, Or.inl rfl⟩
  | takePsi => exact ⟨.refl _, Or.inr rfl⟩
  | toInputs => exact ⟨.refl _, Or.inr rfl⟩
  | @visit left readCount =>
      obtain ⟨inputs, pc, removed, same, rfl | ⟨i, r, found, rfl⟩, -⟩ :=
        scanInput_frame ts conf m left readCount
      · rw [same]
        exact ⟨.refl _, Or.inl rfl⟩
      · rw [same]
        exact ⟨visited_set found (visited_visitInput ts conf m.maxPackets r), Or.inl rfl⟩
  | skip => exact ⟨visited_countPackets 1 _, Or.inl rfl⟩
  | place => exact ⟨visited_countPackets 1 _, Or.inl rfl⟩
  | _ => exact ⟨.refl _, Or.inl rfl⟩

end mixer

variable (lib : Libs) (conf : Config) (tf : TimeFuncs lib.toTsFuncs)

/-- What happens to an input in a step, if anything. -/
def eventOf {lib : Libs} : WorldStep lib → Option (ℕ × InputStep)
  | .packet i tsPacket => some (i, .packet tsPacket)
  | .reconnect i => some (i, .reconnect)
  | .stop i => some (i, .stop)
  | _ => none

/-- A property of the inputs and their channels that an input keeps when what happens to it is
`allowed`. -/
structure InputLaw (allowed : ℕ → Input → InputStep → Prop) (P : ℕ → Channel → Input → Prop) :
    Prop where
  start : ∀ i c ifd, P i c (inputNew lib c.name c ifd)
  visited : ∀ {i c r r'}, P i c r → Visited r r' → P i c r'
  step : ∀ {i c r e}, Made c → c.index < 32 → P i c r → e ≠ .take → allowed i r e →
    P i c (inputStep lib conf r e)

/-- A property of the PSI thread and its buffer that a call keeps when it is `allowed`. -/
structure PsiLaw (allowed : PsiCall lib.toTsFuncs → Prop)
    (Q : PsiOutput lib.toTsFuncs → Cbuf → Prop) : Prop where
  read : ∀ {o b}, Q o b → Q o (cbufGet b).2
  call : ∀ {o b} call, Q o b → allowed call →
    Q (psiCall lib tf o b call).1 (psiCall lib tf o b call).2

/-- Every input has the property, together with its channel. -/
structure Each (P : ℕ → Channel → Input → Prop) (channels : List Channel) (inputs : List Input) :
    Prop where
  length : inputs.length = channels.length
  holds : ∀ i c r, channels[i]? = some c → inputs[i]? = some r → P i c r

variable {lib conf tf} {P : ℕ → Channel → Input → Prop} {channels : List Channel}
  {inputs inputs' : List Input}

theorem Each.modify (h : Each P channels inputs) {i : ℕ} {f : Input → Input}
    (keeps : ∀ c r, channels[i]? = some c → inputs[i]? = some r → P i c r → P i c (f r)) :
    Each P channels (inputs.modify i f) := by
  refine ⟨(List.length_modify _ _ _).trans h.length, ?_⟩
  intro j c r there found
  by_cases own : i = j
  · subst own
    rw [List.getElem?_modify_eq] at found
    obtain ⟨r₀, before, rfl⟩ := Option.map_eq_some_iff.mp found
    exact keeps c r₀ there before (h.holds i c r₀ there before)
  · rw [List.getElem?_modify_ne _ _ own] at found
    exact h.holds j c r there found

theorem Each.visited (h : Each P channels inputs) (visited : AllVisited inputs inputs')
    (respects : ∀ {i c r r'}, P i c r → Visited r r' → P i c r') : Each P channels inputs' := by
  refine ⟨visited.length.trans h.length, ?_⟩
  intro i c r' there found
  obtain ⟨r, before, one⟩ := visited.each i r' found
  exact respects (h.holds i c r there before) one

theorem Each.exists_channel (h : Each P channels inputs) {i : ℕ} {r : Input}
    (found : inputs[i]? = some r) : ∃ c, channels[i]? = some c ∧ P i c r := by
  have inside : i < channels.length := h.length ▸ (List.getElem?_eq_some_iff.mp found).1
  exact ⟨channels[i], List.getElem?_eq_getElem inside,
    h.holds i _ r (List.getElem?_eq_getElem inside) found⟩

section run

variable (conf tf) (lineup : Lineup) (psi : PsiOutput lib.toTsFuncs) (ifd ofd : Bool)
  (rtpSsrc : ℕ)

/-- All threads after these steps. -/
def worldAfter (steps : List (WorldStep lib)) : World lib :=
  worldRun conf tf (worldStart conf psi (lineup.inputs lib ifd) ofd rtpSsrc) steps

theorem worldAfter_concat (steps : List (WorldStep lib)) (step : WorldStep lib) :
    worldAfter conf tf lineup psi ifd ofd rtpSsrc (steps ++ [step]) =
      worldStep conf tf (worldAfter conf tf lineup psi ifd ofd rtpSsrc steps) step :=
  worldRun_concat conf tf _ steps step

/-- Every step of the run meets the condition, in the state before it. -/
def AllMeet (condition : World lib → WorldStep lib → Prop) (steps : List (WorldStep lib)) : Prop :=
  ∀ front step, front ++ [step] <+: steps →
    condition (worldAfter conf tf lineup psi ifd ofd rtpSsrc front) step

variable {conf tf lineup psi ifd ofd rtpSsrc}

private theorem after_of_step {I : World lib → Prop} {condition : World lib → WorldStep lib → Prop}
    (start : I (worldStart conf psi (lineup.inputs lib ifd) ofd rtpSsrc))
    (keeps : ∀ s step, I s → condition s step → I (worldStep conf tf s step))
    {steps : List (WorldStep lib)}
    (all : AllMeet conf tf lineup psi ifd ofd rtpSsrc condition steps) :
    I (worldAfter conf tf lineup psi ifd ofd rtpSsrc steps) := by
  induction steps using List.reverseRecOn with
  | nil => exact start
  | append_singleton steps step ih =>
      rw [worldAfter_concat]
      refine keeps _ step (ih fun front s part => ?_) (all steps step List.prefix_rfl)
      exact all front s (part.trans (List.prefix_append _ _))

/-- What is allowed to happen to the inputs. -/
def Permits (allowed : ℕ → Input → InputStep → Prop) (s : World lib) (step : WorldStep lib) :
    Prop :=
  ∀ i e r, eventOf step = some (i, e) → s.mix.inputs[i]? = some r → allowed i r e

private theorem each_step {allowed : ℕ → Input → InputStep → Prop}
    (law : InputLaw lib conf allowed P)
    {s : World lib} (h : Each P lineup.channels s.mix.inputs) {step : WorldStep lib}
    (permits : Permits allowed s step) :
    Each P lineup.channels (worldStep conf tf s step).mix.inputs := by
  have event : ∀ i e, eventOf step = some (i, e) → e ≠ .take →
      Each P lineup.channels (onInput conf s i e).mix.inputs := by
    intro i e same other
    refine h.modify fun c r there found holds => ?_
    have member := List.mem_of_getElem? there
    exact law.step (lineup.made c member) (lineup.low c member) holds other
      (permits i e r same found)
  cases step with
  | psi call => exact h
  | packet i p => exact event i _ rfl (by simp)
  | reconnect i => exact event i _ rfl (by simp)
  | stop i => exact event i _ rfl (by simp)
  | mix =>
      show Each P lineup.channels (if _ then mixTurn lib.toTsFuncs conf s.mix else s.mix).inputs
      split
      · exact h.visited (visited_mixTurn lib.toTsFuncs conf s.mix).1 law.visited
      · exact h
  | write stats io => exact h

theorem each_after {allowed : ℕ → Input → InputStep → Prop} (law : InputLaw lib conf allowed P)
    {steps : List (WorldStep lib)}
    (all : AllMeet conf tf lineup psi ifd ofd rtpSsrc (Permits allowed) steps) :
    Each P lineup.channels (worldAfter conf tf lineup psi ifd ofd rtpSsrc steps).mix.inputs := by
  apply after_of_step (I := fun s => Each P lineup.channels s.mix.inputs) _ _ all
  · refine ⟨List.length_map _, ?_⟩
    intro i c r there found
    have found' : (lineup.channels.map fun c => inputNew lib c.name c ifd)[i]? = some r := found
    rw [List.getElem?_map, there] at found'
    obtain rfl := Option.some.inj found'
    exact law.start i c ifd
  · intro s step holds permits
    exact each_step law holds permits

/-- What the PSI thread is allowed to call. -/
def PermitsCall (allowed : PsiCall lib.toTsFuncs → Prop) (_ : World lib) (step : WorldStep lib) :
    Prop :=
  ∀ call, step = .psi call → allowed call

theorem psi_after {allowed : PsiCall lib.toTsFuncs → Prop}
    {Q : PsiOutput lib.toTsFuncs → Cbuf → Prop} (law : PsiLaw lib tf allowed Q)
    (start : Q psi (Cbuf.init (50 * 1316))) {steps : List (WorldStep lib)}
    (all : AllMeet conf tf lineup psi ifd ofd rtpSsrc (PermitsCall allowed) steps) :
    Q (worldAfter conf tf lineup psi ifd ofd rtpSsrc steps).psi
      (worldAfter conf tf lineup psi ifd ofd rtpSsrc steps).mix.psibuf := by
  apply after_of_step (I := fun s => Q s.psi s.mix.psibuf) start _ all
  intro s step holds permits
  cases step with
  | psi call => exact law.call call holds (permits call rfl)
  | packet i p => exact holds
  | reconnect i => exact holds
  | stop i => exact holds
  | mix =>
      show Q s.psi (if _ then mixTurn lib.toTsFuncs conf s.mix else s.mix).psibuf
      split
      · rcases (visited_mixTurn lib.toTsFuncs conf s.mix).2 with same | read
        · rw [same]
          exact holds
        · rw [read]
          exact law.read holds
      · exact holds
  | write stats io => exact holds

variable (lib conf) in
theorem stocked_law : InputLaw lib conf (fun _ _ _ => True) (fun _ c r => Stocked lib c r) where
  start _ c ifd := stocked_inputNew lib c.name c ifd
  visited := by
    intro i c r r' h visited
    refine ⟨⟨?_, ?_, ?_, ?_⟩, ?_, ?_, ?_⟩
    · rw [visited.stream]
      exact h.sound.tracked
    · rw [visited.stream]
      exact h.sound.known
    · rw [visited.channel]
      exact h.sound.basePid
    · rw [visited.channel]
      exact h.sound.eitMode
    · rw [visited.channel]
      exact h.index
    · rw [visited.stream]
      exact h.small
    · rw [visited.filled]
      exact h.pids
  step := by
    intro i c r e made low h _ _
    exact h.inputStep made low e

/-- The PSI buffer holds packets of the generators only. -/
def Generated (lib : Libs) (b : Cbuf) : Prop :=
  ∀ q ∈ b.filled, ∃ g : Generator, lib.getPid q = g.pid

variable (lib tf) in
theorem generated_law : PsiLaw lib tf (fun _ => True) (fun _ b => Generated lib b) where
  read := by
    intro o b h q stored
    rw [filled_cbufGet] at stored
    exact h q stored
  call := by
    intro o b call h _ q stored
    cases psiCall_called lib tf o b call with
    | idle _ _ buf =>
        rw [buf] at stored
        exact h q stored
    | added t _ _ buf =>
        rw [buf] at stored
        rcases filled_cbufFill lib b (setConts lib.toTsFuncs (o.cont call.generator) t.packets) with
          pushed | same
        · rw [pushed] at stored
          rcases List.mem_append.mp stored with old | new
          · exact h q old
          · exact ⟨call.generator, pid_setConts lib.toTsFuncs t.pids q new⟩
        · rw [same] at stored
          exact h q stored

end run

section flow

variable {lineup : Lineup} {psi : PsiOutput lib.toTsFuncs} {ifd ofd : Bool} {rtpSsrc : ℕ}

private theorem fifo_cbufFill (lib : Libs) (b : Cbuf) (data : List Packet) :
    ∃ stored, (cbufFill lib b data).2.toFifo = b.toFifo.push stored := by
  rw [cbufFill]
  split
  · exact ⟨data, rfl⟩
  · exact ⟨[], (Fifo.push_nil _).symm⟩

private theorem arrives_event {s : World lib}
    (stocked : Each (fun _ c r => Stocked lib c r) lineup.channels s.mix.inputs) (i : ℕ)
    {e : InputStep} (other : e ≠ .take) :
    Arrives lib.toTsFuncs s.mix (onInput conf s i e).mix := by
  refine ⟨⟨[], (Fifo.push_nil _).symm⟩, ?_, rfl⟩
  have still : ∀ r : Input, Supplied lib.toTsFuncs r r := fun r =>
    ⟨⟨[], (Fifo.push_nil _).symm, fun _ member => nomatch member⟩, rfl, rfl, rfl⟩
  show List.Forall₂ (Supplied lib.toTsFuncs) s.mix.inputs
    (s.mix.inputs.modify i fun r => inputStep lib conf r e)
  apply List.forall₂_iff_get.mpr
  refine ⟨(List.length_modify _ _ _).symm, ?_⟩
  intro j inside inside'
  simp only [List.get_eq_getElem, List.getElem_modify]
  split
  · obtain ⟨c, there, one⟩ := stocked.exists_channel (List.getElem?_eq_getElem inside)
    have member := List.mem_of_getElem? there
    exact one.supplied (lineup.made c member) (lineup.low c member) other
  · exact still _

private theorem arrives_psi (s : World lib) (call : PsiCall lib.toTsFuncs) :
    Arrives lib.toTsFuncs s.mix (worldStep conf tf s (.psi call)).mix := by
  refine ⟨?_, List.forall₂_same.mpr fun r _ => ?_, rfl⟩
  · show ∃ data, (psiCall lib tf s.psi s.mix.psibuf call).2.toFifo = s.mix.psibuf.toFifo.push data
    cases psiCall_called lib tf s.psi s.mix.psibuf call with
    | idle _ _ buf =>
        rw [buf]
        exact ⟨[], (Fifo.push_nil _).symm⟩
    | added t _ _ buf =>
        rw [buf]
        exact fifo_cbufFill lib s.mix.psibuf _
  · exact ⟨⟨[], (Fifo.push_nil _).symm, fun _ member => nomatch member⟩, rfl, rfl, rfl⟩

theorem Flows.step {s : World lib} (h : Flows conf s)
    (stocked : Each (fun _ c r => Stocked lib c r) lineup.channels s.mix.inputs)
    (step : WorldStep lib) : Flows conf (worldStep conf tf s step) := by
  cases step with
  | psi call => exact h.arrive rfl rfl (arrives_psi s call)
  | packet i p => exact h.arrive rfl rfl (arrives_event stocked i (by simp))
  | reconnect i => exact h.arrive rfl rfl (arrives_event stocked i (by simp))
  | stop i => exact h.arrive rfl rfl (arrives_event stocked i (by simp))
  | mix => exact h.mixerStep
  | write stats io => exact h.writerStep stats io

theorem flows_after (steps : List (WorldStep lib)) :
    Flows conf (worldAfter conf tf lineup psi ifd ofd rtpSsrc steps) := by
  induction steps using List.reverseRecOn with
  | nil =>
      apply flows_start psi
      intro r member
      obtain ⟨c, -, rfl⟩ := List.mem_map.mp member
      exact ⟨rfl, rfl⟩
  | append_singleton steps step ih =>
      rw [worldAfter_concat]
      exact Flows.step ih (each_after (stocked_law lib conf) fun _ _ _ _ _ _ _ _ => trivial) step

end flow

end Mptsd.Pipeline.Supply
