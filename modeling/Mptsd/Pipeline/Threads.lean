/- Unit: Mptsd/Pipeline/Threads
   source: src/input.c (input_stream), src/output_psi.c, src/output_mix.c, src/output_write.c
   digest: The program with the whole threads of its inputs, as a run of the pipeline: of an input
   only the resets and the packets count there. -/

import Mptsd.Intake.Steps
import Mptsd.Mixer.Gate
import Mptsd.Pipeline.Supply
import Mptsd.Psi.Refused

set_option autoImplicit false
set_option relaxedAutoImplicit false

namespace Mptsd.Pipeline.Threads

open Mptsd.Channels (Channel channelNew_made)
open Mptsd.Conf (Config)
open Mptsd.Intake.Life (channelNew_rtpChannel emptyRead rtpChannel)
open Mptsd.Intake.Model
open Mptsd.Intake.Steps
open Mptsd.Intake.Thread
open Mptsd.Mixer.Gate (slowConfig)
open Mptsd.Mixer.Model
open Mptsd.Pipeline.Model
open Mptsd.Pipeline.Supply
open Mptsd.Psi.Model
open Mptsd.Psi.Refused (samplePsi sampleTimeFuncs)
open Mptsd.PsiTables (Libs cbufGet cbufPeek)
open Mptsd.Sections (patPackets payloadPacket pcrPacket pmtPackets sectionLibs)
open Mptsd.TsPacket (Packet TsFuncs)
open Mptsd.Writer.Model (FrameIo)

/-- The threads of the inputs beside the others. What input `i` is at any time is in
`world.mix.inputs`, which the mixer shares; its worker has it as the thread last left it. -/
structure Program (lib : Libs) where
  workers : List Worker
  world : World lib

/-- Whose turn it is. `input` is a step of the thread of an input, whose calls return what `e` says;
the flags of an input are set by `reconnect` and `stop`. -/
inductive Turn (lib : Libs)
  | input (i : ℕ) (e : Env)
  | reconnect (i : ℕ)
  | stop (i : ℕ)
  | psi (call : PsiCall lib.toTsFuncs)
  | mix
  | write (stats : Bool) (io : FrameIo)

variable {lib : Libs} (conf : Config) (tf : TimeFuncs lib.toTsFuncs)

/-- The world with other inputs. -/
def withInputs (s : World lib) (inputs : List Input) : World lib :=
  { s with mix := { s.mix with inputs } }

/-- A thread that has left its outer loop goes on with `proxy_close`, which takes its input out of
the list. The model ends here: the inputs of the pipeline stay. -/
def inputTurn (s : Program lib) (i : ℕ) (e : Env) : Option (Program lib) :=
  match s.workers[i]?, s.world.mix.inputs[i]? with
  | some worker, some input =>
      if worker.pc = .quit then none
      else
        let w := act lib conf { worker with input } e
        some
          { workers := s.workers.set i w
            world := withInputs s.world (s.world.mix.inputs.set i w.input) }
  | _, _ => some s

def programStep (s : Program lib) : Turn lib → Option (Program lib)
  | .input i e => inputTurn conf s i e
  | .reconnect i =>
      some { s with workers := s.workers.modify i fun w => { w with reconnect := true } }
  | .stop i => some { s with world := worldStep conf tf s.world (.stop i) }
  | .psi call => some { s with world := worldStep conf tf s.world (.psi call) }
  | .mix => some { s with world := worldStep conf tf s.world .mix }
  | .write stats io => some { s with world := worldStep conf tf s.world (.write stats io) }

variable (lineup : Lineup) (psi : PsiOutput lib.toTsFuncs) (ifd ofd : Bool) (rtpSsrc : ℕ)

/-- The threads as they start. -/
def programStart (inWorktime : Channel → Bool) : Program lib where
  workers := lineup.channels.map fun c => spawned (inputNew lib c.name c ifd) (inWorktime c)
  world := worldStart conf psi (lineup.inputs lib ifd) ofd rtpSsrc

/-- The state after these turns, if no input has ended. -/
def programAfter (inWorktime : Channel → Bool) (turns : List (Turn lib)) : Option (Program lib) :=
  turns.foldlM (programStep conf tf) (programStart conf lineup psi ifd ofd rtpSsrc inWorktime)

/-- The packets that lay in the buffer of thread `i` behind its reads. -/
def offeredTo (i : ℕ) (turns : List (Turn lib)) : List Packet :=
  turns.flatMap fun turn => match turn with
    | .input j e => if j = i then e.packets else []
    | _ => []

/-- The steps of the other threads are steps of the pipeline. -/
def shared : Turn lib → Option (WorldStep lib)
  | .input _ _ => none
  | .reconnect _ => none
  | .stop i => some (.stop i)
  | .psi call => some (.psi call)
  | .mix => some .mix
  | .write stats io => some (.write stats io)

/-- A step of the pipeline that an input's own thread does not take. -/
def isShared : WorldStep lib → Bool
  | .packet _ _ => false
  | .reconnect _ => false
  | _ => true

/-- The steps of one input in a run of the pipeline. -/
def stepsOf (i : ℕ) (steps : List (WorldStep lib)) : List InputStep :=
  steps.filterMap fun step => (eventOf step).bind fun x => if x.1 = i then some x.2 else none

section unsourced

variable {conf} (r : Input)

/-- An input without the source that is in use. -/
def unsourced (r : Input) : Input := sourced none 0 r

private theorem unsourced_of_sourced {r r' : Input}
    (same : ∃ source currSrc, r' = sourced source currSrc r) : unsourced r' = unsourced r := by
  obtain ⟨source, currSrc, rfl⟩ := same
  rfl

private theorem unsourced_inputStep {r r' : Input} (same : unsourced r = unsourced r')
    (step : InputStep) :
    unsourced (inputStep lib conf r step) = unsourced (inputStep lib conf r' step) := by
  have left := unsourced_of_sourced (inputStep_sourced lib conf none 0 r step)
  have right := unsourced_of_sourced (inputStep_sourced lib conf none 0 r' step)
  rw [← left, ← right]
  exact congrArg (fun x => unsourced (inputStep lib conf x step)) same

variable (ts : TsFuncs) (maxPackets : ℕ)

private theorem pcrGate_unsourced (data : Packet) :
    pcrGate ts conf maxPackets (unsourced r) data =
      Prod.map id unsourced (pcrGate ts conf maxPackets r data) := by
  rw [pcrGate, pcrGate]
  simp only [apply_ite (Prod.map id unsourced)]
  rfl

private theorem readInput_unsourced :
    readInput ts (unsourced r) = Prod.map id unsourced (readInput ts r) := by
  rw [readInput, readInput]
  dsimp only [unsourced, sourced]
  cases (cbufGet r.buf).1 <;> rfl

private theorem visitInput_unsourced : visitInput ts conf maxPackets (unsourced r) =
    Prod.map id unsourced (visitInput ts conf maxPackets r) := by
  have buf : (unsourced r).buf = r.buf := rfl
  rw [visitInput, visitInput, buf]
  split_ifs with gated
  · cases cbufPeek r.buf with
    | none => rfl
    | some data =>
        dsimp only
        rw [pcrGate_unsourced, Prod.map_fst, Prod.map_snd, readInput_unsourced, id]
        rw [apply_ite (Prod.map id unsourced)]
        rfl
  · exact readInput_unsourced r ts

/-- The mixer with inputs without sources. -/
def unsourcedMix (m : Mix) : Mix := { m with inputs := m.inputs.map unsourced }

private theorem map_countPackets (n : ℕ) (inputs : List Input) :
    (inputs.map unsourced).map (countPackets n) = (inputs.map (countPackets n)).map unsourced := by
  rw [List.map_map, List.map_map]
  rfl

private theorem scanInput_unsourced (m : Mix) (left readCount : ℕ) :
    scanInput ts conf (unsourcedMix m) left readCount =
      unsourcedMix (scanInput ts conf m left readCount) := by
  have length : (unsourcedMix m).inputs.length = m.inputs.length := List.length_map _
  have same : ∀ n, (unsourcedMix m).inputs[n]? = m.inputs[n]?.map unsourced :=
    fun _ => List.getElem?_map
  have node : (unsourcedMix m).node = m.node := rfl
  have size : (unsourcedMix m).maxPackets = m.maxPackets := rfl
  rw [scanInput, scanInput]
  simp only [length, same, node]
  cases m.inputs[stepNode m.inputs.length m.node - 1]? with
  | none => rfl
  | some r =>
      simp only [Option.map_some, size, visitInput_unsourced]
      obtain ⟨visit, r'⟩ := visitInput ts conf m.maxPackets r
      cases visit <;> simp only [Prod.map_apply, id, unsourcedMix, List.map_set]

private theorem startFill_unsourced (m : Mix) :
    startFill (unsourcedMix m) = unsourcedMix (startFill m) := by
  have sizes : dataSize (unsourcedMix m).psibuf (unsourcedMix m).inputs =
      dataSize m.psibuf m.inputs := by
    rw [dataSize, dataSize]
    change (m.psibuf.stored + ((m.inputs.map unsourced).map _).sum) % _ = _
    rw [List.map_map]
    rfl
  have counted : ∀ n, (unsourcedMix m).inputs.map (countPackets n) =
      (m.inputs.map (countPackets n)).map unsourced := fun n => map_countPackets n m.inputs
  rw [startFill, startFill]
  simp only [sizes, counted, apply_ite unsourcedMix]
  rfl

private theorem tryPsi_unsourced (m : Mix) : tryPsi (unsourcedMix m) = unsourcedMix (tryPsi m) := by
  have length : (unsourcedMix m).inputs.length = m.inputs.length := List.length_map _
  have psibuf : (unsourcedMix m).psibuf = m.psibuf := rfl
  rw [tryPsi, tryPsi, apply_ite unsourcedMix]
  simp only [length, psibuf]
  cases (cbufGet m.psibuf).1 <;> rfl

private theorem countSlot_unsourced (m : Mix) :
    countSlot (unsourcedMix m) = unsourcedMix (countSlot m) := by
  have inputs : (unsourcedMix m).inputs.map (countPackets 1) =
      (m.inputs.map (countPackets 1)).map unsourced := map_countPackets 1 m.inputs
  rw [countSlot, inputs]
  rfl

private theorem copyPacket_unsourced (m : Mix) (p : Packet) :
    copyPacket (unsourcedMix m) p = unsourcedMix (copyPacket m p) := by
  rw [copyPacket, copyPacket, apply_ite unsourcedMix, ← countSlot_unsourced]
  rfl

private theorem mixTurn_unsourced (m : Mix) :
    mixTurn ts conf (unsourcedMix m) = unsourcedMix (mixTurn ts conf m) := by
  have pc : (unsourcedMix m).pc = m.pc := rfl
  rw [mixTurn, mixTurn, pc]
  cases m.pc with
  | waiting => exact startFill_unsourced m
  | psi => exact tryPsi_unsourced m
  | scan left readCount =>
      cases left with
      | zero =>
          change endScan _ _ = unsourcedMix (endScan _ _)
          rw [endScan, endScan, apply_ite unsourcedMix]
          rfl
      | succ left => exact scanInput_unsourced ts m left readCount
  | send data =>
      cases data with
      | none => exact countSlot_unsourced m
      | some p => exact copyPacket_unsourced m p
  | full => rfl

private theorem unsourcedMix_unsourcedMix (m : Mix) :
    unsourcedMix (unsourcedMix m) = unsourcedMix m := by
  rw [unsourcedMix, unsourcedMix, List.map_map]
  rfl

private theorem map_modify_unsourced {f : Input → Input}
    (blind : ∀ r, unsourced (f (unsourced r)) = unsourced (f r)) (i : ℕ) (inputs : List Input) :
    ((inputs.map unsourced).modify i f).map unsourced = (inputs.modify i f).map unsourced := by
  refine List.ext_getElem? fun j => ?_
  simp only [List.getElem?_map, List.getElem?_modify]
  cases inputs[j]? with
  | none => rfl
  | some r =>
      by_cases here : i = j
      · simp only [if_pos here, Option.map_some]
        exact congrArg some (blind r)
      · simp only [if_neg here, Option.map_some]
        rfl

end unsourced

section world

variable {conf tf} {s t : World lib}

/-- The world with inputs without sources. -/
def unsourcedWorld (s : World lib) : World lib := withInputs s (s.mix.inputs.map unsourced)

@[simp] theorem sent_unsourcedWorld (s : World lib) : (unsourcedWorld s).sent = s.sent := rfl
@[simp] theorem psi_unsourcedWorld (s : World lib) : (unsourcedWorld s).psi = s.psi := rfl

private theorem onInput_unsourced (s : World lib) (i : ℕ) (step : InputStep) :
    unsourcedWorld (onInput conf (unsourcedWorld s) i step) =
      unsourcedWorld (onInput conf s i step) := by
  have blind : ∀ r : Input, unsourced (inputStep lib conf (unsourced r) step) =
      unsourced (inputStep lib conf r step) := by
    intro r
    have same : unsourced (unsourced r) = unsourced r := rfl
    exact unsourced_inputStep same step
  exact congrArg (withInputs s) (map_modify_unsourced blind i s.mix.inputs)

private theorem worldStep_unsourced (s : World lib) (step : WorldStep lib) :
    unsourcedWorld (worldStep conf tf (unsourcedWorld s) step) =
      unsourcedWorld (worldStep conf tf s step) := by
  have idle : ∀ x : World lib, unsourcedWorld (unsourcedWorld x) = unsourcedWorld x := fun x =>
    congrArg (fun mix => { x with mix }) (unsourcedMix_unsourcedMix x.mix)
  cases step with
  | psi call => exact idle (worldStep conf tf s (.psi call))
  | packet i tsPacket => exact onInput_unsourced s i _
  | reconnect i => exact onInput_unsourced s i _
  | stop i => exact onInput_unsourced s i _
  | mix =>
      have mixed : mixTurn lib.toTsFuncs conf (unsourcedWorld s).mix =
          unsourcedMix (mixTurn lib.toTsFuncs conf s.mix) := mixTurn_unsourced _ s.mix
      change unsourcedWorld (mixerStep conf (unsourcedWorld s)) =
        unsourcedWorld (mixerStep conf s)
      rw [← idle (mixerStep conf s), mixerStep, mixerStep, mixed]
      change unsourcedWorld { s with
        hand := handTurn s
        mix := if s.hand.mix.pc = .found ∨ s.hand.mix.pc = .filling then _ else
          unsourcedMix s.mix } = _
      rw [← apply_ite unsourcedMix]
      rfl
  | write stats io => exact idle (worldStep conf tf s (.write stats io))

private theorem worldStep_congr (same : unsourcedWorld s = unsourcedWorld t)
    (step : WorldStep lib) :
    unsourcedWorld (worldStep conf tf s step) = unsourcedWorld (worldStep conf tf t step) := by
  rw [← worldStep_unsourced s, same, worldStep_unsourced]

private theorem worldRun_congr (same : unsourcedWorld s = unsourcedWorld t)
    (steps : List (WorldStep lib)) :
    unsourcedWorld (worldRun conf tf s steps) = unsourcedWorld (worldRun conf tf t steps) := by
  induction steps generalizing s t with
  | nil => exact same
  | cons step steps ih => exact ih (worldStep_congr same step)

end world

section follows

variable {conf tf lineup psi ifd ofd rtpSsrc} {turns : List (Turn lib)} {s s' : Program lib}
  {steps more : List (WorldStep lib)} {turn : Turn lib}

/-- The run of the pipeline that these turns are. -/
structure Matches (conf : Config) (tf : TimeFuncs lib.toTsFuncs) (lineup : Lineup)
    (psi : PsiOutput lib.toTsFuncs) (ifd ofd : Bool) (rtpSsrc : ℕ) (turns : List (Turn lib))
    (s : Program lib) (steps : List (WorldStep lib)) : Prop where
  world : unsourcedWorld s.world =
    unsourcedWorld (worldAfter conf tf lineup psi ifd ofd rtpSsrc steps)
  others : steps.filter isShared = turns.filterMap shared
  length : s.workers.length = lineup.channels.length
  resets : ∀ i w, s.workers[i]? = some w →
    (stepsOf i steps).countP isReset = w.log.count .begun
  packets : ∀ i w, s.workers[i]? = some w →
    ((stepsOf i steps).filterMap packetOf ++ leftOver w.pc).Sublist (offeredTo i turns)

/-- What the steps `more` of the pipeline are for input `i`, between two states of its worker. -/
structure Counts (i : ℕ) (turn : Turn lib) (more : List (WorldStep lib)) (w w' : Worker) :
    Prop where
  resets : w'.log.count .begun = w.log.count .begun + (stepsOf i more).countP isReset
  packets : ((stepsOf i more).filterMap packetOf ++ leftOver w'.pc).Sublist
    (leftOver w.pc ++ offeredTo i [turn])

private theorem stepsOf_append (i : ℕ) :
    stepsOf i (steps ++ more) = stepsOf i steps ++ stepsOf i more := List.filterMap_append

private theorem offeredTo_append (i : ℕ) :
    offeredTo i (turns ++ [turn]) = offeredTo i turns ++ offeredTo i [turn] := List.flatMap_append

private theorem Matches.append (h : Matches conf tf lineup psi ifd ofd rtpSsrc turns s steps)
    (world : unsourcedWorld s'.world = unsourcedWorld (worldRun conf tf s.world more))
    (others : more.filter isShared = (shared turn).toList)
    (length : s'.workers.length = s.workers.length)
    (counts : ∀ i w', s'.workers[i]? = some w' →
      ∃ w, s.workers[i]? = some w ∧ Counts i turn more w w') :
    Matches conf tf lineup psi ifd ofd rtpSsrc (turns ++ [turn]) s' (steps ++ more) := by
  refine ⟨?_, ?_, length.trans h.length, ?_, ?_⟩
  · have apart : worldAfter conf tf lineup psi ifd ofd rtpSsrc (steps ++ more) =
        worldRun conf tf (worldAfter conf tf lineup psi ifd ofd rtpSsrc steps) more :=
      List.foldl_append
    rw [world, apart]
    exact worldRun_congr h.world more
  · rw [List.filter_append, h.others, others, List.filterMap_append]
    cases named : shared turn <;> simp [named]
  · intro i w' found
    obtain ⟨w, before, count⟩ := counts i w' found
    rw [stepsOf_append, List.countP_append, h.resets i w before, count.resets]
  · intro i w' found
    obtain ⟨w, before, count⟩ := counts i w' found
    rw [stepsOf_append, offeredTo_append, List.filterMap_append, List.append_assoc]
    refine (List.Sublist.append_left count.packets _).trans ?_
    rw [← List.append_assoc]
    exact List.Sublist.append_right (h.packets i w before) _

private theorem counts_apart {i : ℕ} {w w' : Worker} (log : w'.log = w.log) (pc : w'.pc = w.pc)
    (none : (stepsOf i more).countP isReset = 0 ∧ (stepsOf i more).filterMap packetOf = []) :
    Counts i turn more w w' := by
  refine ⟨?_, ?_⟩
  · rw [log, none.1]
    rfl
  · rw [pc, none.2, List.nil_append]
    exact List.sublist_append_left _ _

private theorem Matches.shared (h : Matches conf tf lineup psi ifd ofd rtpSsrc turns s steps)
    {step : WorldStep lib} (own : Threads.shared turn = some step) (shares : isShared step = true) :
    ∃ steps', Matches conf tf lineup psi ifd ofd rtpSsrc (turns ++ [turn])
      { s with world := worldStep conf tf s.world step } steps' := by
  refine ⟨steps ++ [step], h.append rfl ?_ rfl fun i w found => ⟨w, found, ?_⟩⟩
  · rw [own, List.filter_cons_of_pos shares]
    rfl
  · refine counts_apart rfl rfl ?_
    cases step with
    | packet _ _ => cases shares
    | reconnect _ => cases shares
    | psi _ => exact ⟨rfl, rfl⟩
    | mix => exact ⟨rfl, rfl⟩
    | write _ _ => exact ⟨rfl, rfl⟩
    | stop j =>
        have told : stepsOf i [(WorldStep.stop j : WorldStep lib)] =
            if j = i then [.stop] else [] := by
          simp only [stepsOf, eventOf]
          split_ifs with here <;> simp [here]
        rw [told]
        split_ifs <;> exact ⟨rfl, rfl⟩

private theorem exists_worldStep {one : InputStep} (kind : one = .reconnect ∨ ∃ p, one = .packet p)
    (i : ℕ) : ∃ step : WorldStep lib, eventOf step = some (i, one) ∧ isShared step = false ∧
      ∀ t, worldStep conf tf t step = onInput conf t i one := by
  obtain rfl | ⟨p, rfl⟩ := kind
  · exact ⟨.reconnect i, rfl, rfl, fun _ => rfl⟩
  · exact ⟨.packet i p, rfl, rfl, fun _ => rfl⟩

private theorem map_set_unsourced {f : Input → Input} {inputs : List Input} {i : ℕ} {r x : Input}
    (found : inputs[i]? = some r) (same : unsourced x = unsourced (f r)) :
    (inputs.set i x).map unsourced = (inputs.modify i f).map unsourced := by
  have modified : inputs.modify i f = inputs.set i (f r) := by
    rw [List.modify_eq_set_getElem?, found]
    rfl
  rw [modified, List.map_set, List.map_set, same]

private theorem counts_set {i : ℕ} {w₀ w : Worker} (found : s.workers[i]? = some w₀)
    (own : Counts i turn more w₀ w) (apart : ∀ j ≠ i, stepsOf j more = []) (j : ℕ) (w' : Worker)
    (later : (s.workers.set i w)[j]? = some w') :
    ∃ w₁, s.workers[j]? = some w₁ ∧ Counts j turn more w₁ w' := by
  obtain rfl | other := eq_or_ne i j
  · rw [List.getElem?_set_self (List.getElem?_eq_some_iff.mp found).1] at later
    obtain rfl := Option.some.inj later
    exact ⟨w₀, found, own⟩
  · rw [List.getElem?_set_ne other] at later
    refine ⟨w', later, counts_apart rfl rfl ?_⟩
    rw [apart j other.symm]
    exact ⟨rfl, rfl⟩

theorem Matches.input (h : Matches conf tf lineup psi ifd ofd rtpSsrc turns s steps) (i : ℕ)
    (e : Env) (run : inputTurn conf s i e = some s') :
    ∃ steps', Matches conf tf lineup psi ifd ofd rtpSsrc (turns ++ [.input i e]) s' steps' := by
  have quiet : ∃ steps', Matches conf tf lineup psi ifd ofd rtpSsrc (turns ++ [.input i e]) s
      steps' :=
    ⟨steps ++ [], h.append rfl rfl rfl fun _ w found =>
      ⟨w, found, counts_apart rfl rfl ⟨rfl, rfl⟩⟩⟩
  rw [inputTurn] at run
  cases found : s.workers[i]? with
  | none =>
      rw [found] at run
      obtain rfl := Option.some.inj run
      exact quiet
  | some worker =>
      cases shared : s.world.mix.inputs[i]? with
      | none =>
          rw [found, shared] at run
          obtain rfl := Option.some.inj run
          exact quiet
      | some input =>
          rw [found, shared] at run
          dsimp only at run
          split_ifs at run with left
          obtain rfl := Option.some.inj run
          have acted : ∃ one, Acts lib conf e.packets { worker with input }
            (act lib conf { worker with input } e) one := acts_act e
          obtain ⟨one, acts⟩ := acted
          have offered : offeredTo i [(Turn.input i e : Turn lib)] = e.packets := by
            simp [offeredTo]
          have seen := unsourced_of_sourced acts.input
          cases one with
          | none =>
              have idle : unsourcedWorld (withInputs s.world (s.world.mix.inputs.set i
                  (act lib conf { worker with input } e).input)) =
                    unsourcedWorld (worldRun conf tf s.world []) := by
                have same := map_set_unsourced (f := id) shared seen
                rw [List.modify_id] at same
                exact congrArg (withInputs s.world) same
              have own : Counts i (Turn.input i e) ([] : List (WorldStep lib)) worker
                (act lib conf { worker with input } e) := ⟨acts.resets, by
                  rw [offered]
                  exact acts.packets⟩
              exact ⟨_, h.append idle rfl List.length_set (counts_set found own fun _ _ => rfl)⟩
          | some one =>
              obtain ⟨step, event, alone, does⟩ : ∃ step : WorldStep lib,
                  eventOf step = some (i, one) ∧ isShared step = false ∧
                    ∀ t, worldStep conf tf t step = onInput conf t i one :=
                exists_worldStep (acts.kind one rfl) i
              have onlyOne : ∀ j, stepsOf j [step] = if i = j then [one] else [] := by
                intro j
                rw [stepsOf, List.filterMap_cons, event]
                dsimp only [Option.bind_some]
                split_ifs <;> rfl
              have taken : unsourcedWorld (withInputs s.world (s.world.mix.inputs.set i
                  (act lib conf { worker with input } e).input)) =
                    unsourcedWorld (worldRun conf tf s.world [step]) := by
                change _ = unsourcedWorld (worldStep conf tf s.world step)
                rw [does]
                exact congrArg (withInputs s.world) (map_set_unsourced shared seen)
              have own : Counts i (Turn.input i e) [step] worker
                  (act lib conf { worker with input } e) := by
                refine ⟨?_, ?_⟩
                · rw [onlyOne, if_pos rfl]
                  exact acts.resets
                · rw [onlyOne, if_pos rfl, offered]
                  exact acts.packets
              refine ⟨_, h.append taken ?_ List.length_set (counts_set found own fun j other => ?_)⟩
              · rw [List.filter_cons_of_neg (by rw [alone]; exact Bool.false_ne_true)]
                rfl
              · rw [onlyOne, if_neg other.symm]

theorem Matches.reconnect (h : Matches conf tf lineup psi ifd ofd rtpSsrc turns s steps) (i : ℕ) :
    Matches conf tf lineup psi ifd ofd rtpSsrc (turns ++ [.reconnect i])
      { s with workers := s.workers.modify i fun w => { w with reconnect := true } }
      (steps ++ []) := by
  refine h.append rfl rfl (List.length_modify _ _ _) fun j w' later => ?_
  rw [List.getElem?_modify] at later
  obtain ⟨w, found, same⟩ := Option.map_eq_some_iff.mp later
  refine ⟨w, found, ?_⟩
  split_ifs at same <;> subst same <;> exact counts_apart rfl rfl ⟨rfl, rfl⟩

theorem Matches.step (h : Matches conf tf lineup psi ifd ofd rtpSsrc turns s steps)
    (turn : Turn lib) (run : programStep conf tf s turn = some s') :
    ∃ steps', Matches conf tf lineup psi ifd ofd rtpSsrc (turns ++ [turn]) s' steps' := by
  cases turn with
  | input i e => exact h.input i e run
  | reconnect i =>
      obtain rfl := Option.some.inj run
      exact ⟨_, h.reconnect i⟩
  | stop i =>
      obtain rfl := Option.some.inj run
      exact h.shared rfl rfl
  | psi call =>
      obtain rfl := Option.some.inj run
      exact h.shared rfl rfl
  | mix =>
      obtain rfl := Option.some.inj run
      exact h.shared rfl rfl
  | write stats io =>
      obtain rfl := Option.some.inj run
      exact h.shared rfl rfl

theorem exists_matches (inWorktime : Channel → Bool) (turns : List (Turn lib))
    (run : programAfter conf tf lineup psi ifd ofd rtpSsrc inWorktime turns = some s) :
    ∃ steps, Matches conf tf lineup psi ifd ofd rtpSsrc turns s steps := by
  induction turns using List.reverseRecOn generalizing s with
  | nil =>
      obtain rfl := Option.some.inj run
      refine ⟨[], rfl, rfl, List.length_map _, fun i w found => ?_, fun i w found => ?_⟩
      all_goals
        obtain ⟨c, -, rfl⟩ := Option.map_eq_some_iff.mp (List.getElem?_map.symm.trans found)
      · rfl
      · exact List.nil_sublist _
  | append_singleton turns turn ih =>
      rw [programAfter, List.foldlM_append] at run
      obtain ⟨middle, reached, last⟩ := Option.bind_eq_some_iff.mp run
      obtain ⟨steps, before⟩ := ih reached
      exact before.step turn (by simpa using last)

end follows

/-- As long as no input has ended, in every interleaving the program with the whole threads of its
inputs is a run of the pipeline, which has the same buffers, tables and output, and in which all
other threads take the same steps. Of an input the run has a reset for each time reads begin on a
connection, and packets that lay behind the reads, in this order. -/
theorem program_follows (inWorktime : Channel → Bool) (turns : List (Turn lib)) (s : Program lib)
    (run : programAfter conf tf lineup psi ifd ofd rtpSsrc inWorktime turns = some s) :
    ∃ steps, unsourcedWorld s.world =
        unsourcedWorld (worldAfter conf tf lineup psi ifd ofd rtpSsrc steps) ∧
      steps.filter isShared = turns.filterMap shared ∧
      ∀ i w, s.workers[i]? = some w →
        (stepsOf i steps).countP isReset = w.log.count .begun ∧
          ((stepsOf i steps).filterMap packetOf).Sublist (offeredTo i turns) := by
  obtain ⟨steps, follows⟩ : ∃ steps, Matches conf tf lineup psi ifd ofd rtpSsrc turns s steps :=
    exists_matches inWorktime turns run
  refine ⟨steps, follows.world, follows.others, fun i w found => ⟨follows.resets i w found, ?_⟩⟩
  exact (List.sublist_append_left _ _).trans (follows.packets i w found)

/-- One channel, with a source whose packets come behind RTP headers. -/
def rtpLineup : Lineup where
  channels := [rtpChannel]
  made c member := by
    obtain rfl := List.mem_singleton.mp member
    exact (channelNew_made channelNew_rtpChannel).1
  low c member := by
    obtain rfl := List.mem_singleton.mp member
    decide

/-- What its source sends first. -/
def onAir : List Packet :=
  patPackets [⟨1, 0x100⟩] ++ pmtPackets 0x100 1 0x101 [0x101, 0x102] ++
    [pcrPacket 0x101 1, payloadPacket 0x102]

/-- The input connects, and reads and works on these packets; a PAT is handed on; a buffer is filled
and written. -/
def sampleTurns : List (Turn sectionLibs) :=
  List.replicate 3 (.input 0 emptyRead) ++
    .input 0 { emptyRead with readen := 752, packets := onAir } ::
    List.replicate 4 (.input 0 emptyRead) ++
    .psi .pat :: List.replicate 20 .mix ++ List.replicate 40 (.write false ⟨1316, 0, 0⟩)

/-- The program after these turns. -/
def sampleProgram : Program sectionLibs :=
  (programAfter slowConfig sampleTimeFuncs rtpLineup samplePsi false false 0 (fun _ => true)
    sampleTurns).get (by decide +kernel)

theorem program_follows_sample :
    ∃ steps, unsourcedWorld sampleProgram.world = unsourcedWorld
        (worldAfter slowConfig sampleTimeFuncs rtpLineup samplePsi false false 0 steps) ∧
      steps.filter isShared = sampleTurns.filterMap shared ∧
      ∀ i w, sampleProgram.workers[i]? = some w →
        (stepsOf i steps).countP isReset = w.log.count .begun ∧
          ((stepsOf i steps).filterMap packetOf).Sublist (offeredTo i sampleTurns) :=
  program_follows slowConfig sampleTimeFuncs rtpLineup samplePsi false false 0 (fun _ => true)
    sampleTurns sampleProgram (Option.some_get _).symm

end Mptsd.Pipeline.Threads
