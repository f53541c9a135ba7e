/- Unit: Mptsd/Intake/Steps
   source: src/input.c (input_stream), src/data.c (input_stream_reset, chansrc_next)
   digest: The life of a thread, as a run of its input: no packet looks at the source in use, so
   that only the resets and the packets count. -/

import Mptsd.Intake.Life

set_option autoImplicit false
set_option relaxedAutoImplicit false

namespace Mptsd.Intake.Steps

open Mptsd.Channels
open Mptsd.Conf (Config)
open Mptsd.Intake.Model
open Mptsd.Intake.Thread
open Mptsd.PsiTables
open Mptsd.TsPacket (Packet)

/-- The same input with another of its sources in use. -/
def sourced (source : Option String) (currSrc : ℕ) (r : Input) : Input :=
  { r with channel := { r.channel with source, currSrc } }

section sourced

variable (lib : Libs) (conf : Config) (source : Option String) (currSrc : ℕ) (r : Input)

@[simp] theorem dienow_sourced : (sourced source currSrc r).dienow = r.dienow := rfl
@[simp] theorem stream_sourced : (sourced source currSrc r).stream = r.stream := rfl
@[simp] theorem inputReady_sourced : (sourced source currSrc r).inputReady = r.inputReady := rfl
@[simp] theorem eitMode_sourced :
    (sourced source currSrc r).channel.eitMode = r.channel.eitMode := rfl
@[simp] theorem serviceId_sourced :
    (sourced source currSrc r).channel.serviceId = r.channel.serviceId := rfl

private theorem onStream_sourced (f : InputStream → InputStream) :
    (sourced source currSrc r).onStream f = sourced source currSrc (r.onStream f) := rfl

private theorem inputBufferAdd_sourced (data : List Packet) :
    inputBufferAdd lib (sourced source currSrc r) data =
      sourced source currSrc (inputBufferAdd lib r data) := by
  rw [inputBufferAdd, inputBufferAdd]
  simp only [apply_ite (sourced source currSrc)]
  rfl

private theorem inputRewritePat_sourced : inputRewritePat lib (sourced source currSrc r) =
    sourced source currSrc (inputRewritePat lib r) := by
  rw [inputRewritePat, inputRewritePat, stream_sourced]
  cases lib.pat.copy r.stream.pat <;> rfl

private theorem inputRewritePmt_sourced : inputRewritePmt lib (sourced source currSrc r) =
    sourced source currSrc (inputRewritePmt lib r) := by
  rw [inputRewritePmt, inputRewritePmt, stream_sourced]
  cases lib.pmt.copy r.stream.pmt <;> rfl

private theorem inputRewriteEit_sourced : inputRewriteEit lib conf (sourced source currSrc r) =
    sourced source currSrc (inputRewriteEit lib conf r) := by
  rw [inputRewriteEit, inputRewriteEit, stream_sourced]
  cases lib.eit.copy r.stream.eit <;> rfl

private theorem parsePat_sourced : parsePat (sourced source currSrc r) =
    Prod.map id (sourced source currSrc) (parsePat r) := by
  rw [parsePat, parsePat, stream_sourced]
  split_ifs <;> rfl

private theorem emitPat_sourced : emitPat lib (sourced source currSrc r) =
    sourced source currSrc (emitPat lib r) := by
  rw [emitPat, emitPat, stream_sourced]
  cases r.stream.patRewritten with
  | none => rfl
  | some P =>
      dsimp only
      rw [apply_ite (sourced source currSrc)]
      rfl

private theorem emitPmt_sourced : emitPmt lib (sourced source currSrc r) =
    sourced source currSrc (emitPmt lib r) := by
  rw [emitPmt, emitPmt, stream_sourced]
  cases r.stream.pmtRewritten with
  | none => rfl
  | some P =>
      dsimp only
      rw [apply_ite (sourced source currSrc), ← inputBufferAdd_sourced]
      rfl

private theorem emitEit_sourced (P : TsEit) : emitEit lib (sourced source currSrc r) P =
    sourced source currSrc (emitEit lib r P) := by
  rw [emitEit, emitEit, ← onStream_sourced, ← inputBufferAdd_sourced]
  rfl

private theorem processPat_sourced (pid : ℕ) (p : Packet) :
    processPat lib (sourced source currSrc r) pid p =
      Prod.map id (Prod.map (sourced source currSrc) id) (processPat lib r pid p) := by
  have set_ : ∀ pat, (sourced source currSrc r).setPat pat =
    sourced source currSrc (r.setPat pat) := fun _ => rfl
  have pushed : ∀ x : Input, pushLastPat lib (sourced source currSrc x) p =
    sourced source currSrc (pushLastPat lib x p) := fun _ => rfl
  rw [processPat, processPat]
  simp only [stream_sourced, set_, pushed, parsePat_sourced, Prod.map_fst, Prod.map_snd, id_eq]
  split_ifs <;> first | rfl | (simp only [inputRewritePat_sourced, emitPat_sourced]; rfl)

private theorem processPmt_sourced (pid : ℕ) (p : Packet) :
    processPmt lib (sourced source currSrc r) pid p =
      Prod.map id (sourced source currSrc) (processPmt lib r pid p) := by
  have set_ : ∀ pmt, (sourced source currSrc r).setPmt pmt =
    sourced source currSrc (r.setPmt pmt) := fun _ => rfl
  have pushed : ∀ x : Input, pushLastPmt lib (sourced source currSrc x) p =
    sourced source currSrc (pushLastPmt lib x p) := fun _ => rfl
  rw [processPmt, processPmt]
  simp only [stream_sourced, set_, pushed]
  split_ifs <;> first | rfl | (simp only [inputRewritePmt_sourced, emitPmt_sourced]; rfl)

private theorem handedEit_sourced :
    (match (sourced source currSrc r).stream.eitRewritten with
      | some P => if P.initialized then ((1 : ℤ), emitEit lib (sourced source currSrc r) P)
          else (-3, sourced source currSrc r)
      | none => (-3, sourced source currSrc r)) =
    Prod.map id (sourced source currSrc) (match r.stream.eitRewritten with
      | some P => if P.initialized then ((1 : ℤ), emitEit lib r P) else (-3, r)
      | none => (-3, r)) := by
  rw [stream_sourced]
  cases r.stream.eitRewritten with
  | none => rfl
  | some P =>
      dsimp only
      rw [emitEit_sourced, apply_ite (Prod.map id (sourced source currSrc))]
      rfl

private theorem processEit_sourced (p : Packet) : processEit lib conf (sourced source currSrc r) p =
    Prod.map id (sourced source currSrc) (processEit lib conf r p) := by
  have set_ : ∀ eit, (sourced source currSrc r).setEit eit =
    sourced source currSrc (r.setEit eit) := fun _ => rfl
  rw [processEit, processEit]
  simp only [eitMode_sourced, stream_sourced, serviceId_sourced, set_]
  split_ifs
  · rfl
  · rfl
  · exact handedEit_sourced lib source currSrc _
  · rw [inputRewriteEit_sourced]
    exact handedEit_sourced lib source currSrc _
  · rfl

private theorem forwardPacket_sourced (pid : ℕ) (p : Packet) :
    forwardPacket lib (sourced source currSrc r) pid p =
      sourced source currSrc (forwardPacket lib r pid p) := by
  have noted : notePcr lib (sourced source currSrc r) pid p =
      sourced source currSrc (notePcr lib r pid p) := by
    rw [notePcr, notePcr, stream_sourced, apply_ite (sourced source currSrc)]
    rfl
  rw [forwardPacket, forwardPacket, noted]
  simp only [stream_sourced, inputBufferAdd_sourced, inputReady_sourced,
    apply_ite (sourced source currSrc)]
  rfl

private theorem inputPacket_sourced (p : Packet) :
    inputPacket lib conf (sourced source currSrc r) p =
    Prod.map id (sourced source currSrc) (inputPacket lib conf r p) := by
  rw [inputPacket, inputPacket]
  simp only [dienow_sourced, processPat_sourced, processPmt_sourced, processEit_sourced,
    forwardPacket_sourced, stream_sourced, Prod.map_fst, Prod.map_snd, id_eq]
  split_ifs <;> rfl

private theorem reset_sourced :
    ∃ source' currSrc', inputStreamReset lib (sourced source currSrc r) =
    sourced source' currSrc' (inputStep lib conf r .reconnect) := by
  refine ⟨source, currSrc, ?_⟩
  rw [inputStep, chansrcNext]
  split_ifs <;> rfl

theorem inputStep_sourced (step : InputStep) : ∃ source' currSrc',
    inputStep lib conf (sourced source currSrc r) step =
      sourced source' currSrc' (inputStep lib conf r step) := by
  cases step with
  | packet tsPacket =>
      refine ⟨source, currSrc, ?_⟩
      rw [inputStep, inputPacket_sourced]
      rfl
  | reconnect =>
      have moved : ∃ source' currSrc', { sourced source currSrc r with
          channel := chansrcNext (sourced source currSrc r).channel } =
            sourced source' currSrc' r := by
        rw [chansrcNext]
        split_ifs
        · exact ⟨_, _, rfl⟩
        · exact ⟨_, _, rfl⟩
      obtain ⟨source', currSrc', same⟩ := moved
      rw [inputStep, same]
      exact reset_sourced lib conf source' currSrc' r
  | take => exact ⟨source, currSrc, rfl⟩
  | stop => exact ⟨source, currSrc, rfl⟩

end sourced

def isReset : InputStep → Bool
  | .reconnect => true
  | _ => false

def packetOf : InputStep → Option Packet
  | .packet tsPacket => some tsPacket
  | _ => none

/-- What is left of a read. -/
def leftOver : Pc → List Packet
  | .packet rest => rest
  | _ => []

/-- What a step of a thread is for its input: nothing, a reset, or a packet of those that it has
read or reads now. -/
structure Acts (lib : Libs) (conf : Config) (offered : List Packet) (w w' : Worker)
    (step : Option InputStep) : Prop where
  input : ∃ source currSrc,
    w'.input = sourced source currSrc (inputRun lib conf w.input step.toList)
  resets : w'.log.count .begun = w.log.count .begun + step.toList.countP isReset
  packets : (step.toList.filterMap packetOf ++ leftOver w'.pc).Sublist (leftOver w.pc ++ offered)
  kind : ∀ one ∈ step, one = .reconnect ∨ ∃ p, one = .packet p

section acts

variable {lib : Libs} {conf : Config} {offered : List Packet} {w w' : Worker}

private theorem acts_idle (input : ∃ source currSrc, w'.input = sourced source currSrc w.input)
    (begun : w'.log.count .begun = w.log.count .begun)
    (left : (leftOver w'.pc).Sublist (leftOver w.pc ++ offered)) :
    Acts lib conf offered w w' none :=
  ⟨input, begun, left, fun _ found => nomatch found⟩

private theorem acts_still (input : w'.input = w.input)
    (begun : w'.log.count .begun = w.log.count .begun) (left : leftOver w'.pc = []) :
    Acts lib conf offered w w' none := by
  refine acts_idle ⟨w.input.channel.source, w.input.channel.currSrc, ?_⟩ begun ?_
  · rw [input]
    rfl
  · rw [left]
    exact List.nil_sublist _

private theorem acts_begin {w₁ : Worker} (input : w₁.input = w.input)
    (begun : w₁.log.count .begun = w.log.count .begun) :
    Acts lib conf offered w (begin lib w₁) (some .reconnect) := by
  refine ⟨?_, ?_, List.nil_sublist _, fun _ found => .inl (Option.some.inj found).symm⟩
  · change ∃ source' currSrc', inputStreamReset lib w₁.input = _
    rw [input]
    exact reset_sourced lib conf w.input.channel.source w.input.channel.currSrc w.input
  · change (w₁.log ++ [Event.begun]).count .begun = _
    rw [List.count_append, begun]
    rfl

private theorem acts_packetStep {packets : List Packet} (here : w.pc = .packet packets) :
    ∃ step, Acts lib conf offered w (packetStep lib conf w packets) step := by
  cases packets with
  | nil => exact ⟨none, acts_still rfl rfl rfl⟩
  | cons p rest =>
      refine ⟨some (.packet p), ?_, ?_, ?_, fun _ found => .inr ⟨p, (Option.some.inj found).symm⟩⟩
      · refine ⟨(inputPacket lib conf w.input p).2.channel.source,
          (inputPacket lib conf w.input p).2.channel.currSrc, ?_⟩
        rw [packetStep]
        split <;> rfl
      · rw [packetStep]
        split <;> rfl
      · have left : (leftOver (packetStep lib conf w (p :: rest)).pc).Sublist rest := by
          rw [packetStep]
          split
          · exact List.Sublist.refl rest
          · exact List.nil_sublist rest
          · exact List.nil_sublist rest
        rw [here]
        exact (List.Sublist.cons_cons p left).trans (List.sublist_append_left _ _)

theorem acts_act (e : Env) : ∃ step, Acts lib conf e.packets w (act lib conf w e) step := by
  have begunShut : (w.shutdownFd lib).log.count .begun = w.log.count .begun := by
    have none : ∀ l : List ℤ, (l.map Event.closed).count .begun = 0 := by
      intro l
      rw [List.count_eq_zero]
      simp
    rw [Worker.shutdownFd, List.count_append, none, Nat.add_zero]
  have calm : ∀ w' : Worker, w'.input = w.input → w'.log.count .begun = w.log.count .begun →
      leftOver w'.pc = [] → ∃ step, Acts lib conf e.packets w w' step :=
    fun _ input begun left => ⟨none, acts_still input begun left⟩
  rw [act]
  cases here : w.pc with
  | head =>
      dsimp only
      split_ifs <;> exact calm _ rfl rfl rfl
  | waiting =>
      dsimp only
      split_ifs <;> exact calm _ rfl rfl rfl
  | connecting =>
      have tried : (attemptSource w e).log.count .begun = w.log.count .begun := by
        rw [attemptSource]
        dsimp only [Worker.note, Worker.setSock]
        split_ifs <;> simp
      have same : (attemptSource w e).input = w.input := (Life.attemptSource_events w e).1
      dsimp only [connectStep]
      split_ifs
      · exact calm _ same tried rfl
      · exact ⟨_, acts_begin same tried⟩
      · exact calm _ same tried rfl
  | syncing =>
      dsimp only
      split_ifs
      · exact ⟨_, acts_begin rfl rfl⟩
      · exact calm _ rfl rfl rfl
  | reading =>
      have noted : (w.log ++ [Event.read e.readen]).count .begun = w.log.count .begun := by simp
      have stays : leftOver w.pc = [] := by rw [here]; rfl
      dsimp only [readStep]
      split_ifs
      · exact calm _ rfl rfl rfl
      · exact calm _ rfl rfl rfl
      · exact calm _ rfl noted rfl
      · exact calm _ rfl noted rfl
      · exact calm _ rfl noted stays
      · refine ⟨none, acts_idle ⟨w.input.channel.source, w.input.channel.currSrc, rfl⟩ noted ?_⟩
        exact List.sublist_append_right _ _
      · exact calm _ rfl rfl rfl
  | packet packets => exact acts_packetStep here
  | reconnect =>
      have next : ∃ source currSrc, { w.input with channel := chansrcNext w.input.channel } =
          sourced source currSrc w.input := by
        rw [chansrcNext]
        split_ifs
        · exact ⟨_, _, rfl⟩
        · exact ⟨_, _, rfl⟩
      refine ⟨none, acts_idle next ?_ (List.nil_sublist _)⟩
      change ((w.shutdownFd lib).log ++ [Event.failover]).count .begun = _
      rw [List.count_append, begunShut]
      rfl
  | stop =>
      refine calm _ rfl ?_ rfl
      change ((w.shutdownFd lib).log ++ [Event.stopped]).count .begun = _
      rw [List.count_append, begunShut]
      rfl
  | quit =>
      have closed : (if w.sock > -1 then w.shutdownFd lib else w).log.count .begun =
          w.log.count .begun ∧ (if w.sock > -1 then w.shutdownFd lib else w).input = w.input := by
        split_ifs
        · exact ⟨begunShut, rfl⟩
        · exact ⟨rfl, rfl⟩
      refine calm _ closed.2 ?_ rfl
      change ((if w.sock > -1 then w.shutdownFd lib else w).log ++ [Event.freed]).count .begun = _
      rw [List.count_append, closed.1]
      rfl
  | ended => exact ⟨none, acts_still rfl rfl (by rw [here]; rfl)⟩

end acts

/-- The steps of an input that a thread has taken, where `offered` lay in its buffer. -/
structure Follows (lib : Libs) (conf : Config) (r : Input) (offered : List Packet) (w : Worker)
    (steps : List InputStep) : Prop where
  input : ∃ source currSrc, w.input = sourced source currSrc (inputRun lib conf r steps)
  resets : steps.countP isReset = w.log.count .begun
  packets : (steps.filterMap packetOf ++ leftOver w.pc).Sublist offered

section follows

variable {lib : Libs} {conf : Config} {r : Input} {offered : List Packet} {w : Worker}
  {steps : List InputStep}

private theorem Follows.meanwhile (h : Follows lib conf r offered w steps) (e : Env) :
    ∃ steps', Follows lib conf r offered (w.meanwhile e) steps' := by
  obtain ⟨source, currSrc, same⟩ := h.input
  have taken : ∀ n x, (fun x : Input => { x with buf := (cbufGet x.buf).2 })^[n]
      (sourced source currSrc x) =
        sourced source currSrc (inputRun lib conf x (List.replicate n .take)) := by
    intro n
    induction n with
    | zero => exact fun _ => rfl
    | succ n ih => exact fun x => ih { x with buf := (cbufGet x.buf).2 }
  let told : List InputStep := if e.dienow then [.stop] else []
  let taking : List InputStep := List.replicate e.takes .take
  have plain : (taking ++ told).filterMap packetOf = [] ∧ (taking ++ told).countP isReset = 0 := by
    have none : told.filterMap packetOf = [] ∧ told.countP isReset = 0 := by
      dsimp only [told]
      split_ifs <;> exact ⟨rfl, rfl⟩
    rw [List.filterMap_append, List.countP_append, none.1, none.2]
    simp [taking, packetOf, isReset]
  refine ⟨steps ++ (taking ++ told), ⟨source, currSrc, ?_⟩, ?_, ?_⟩
  · have apart : inputRun lib conf r (steps ++ (taking ++ told)) =
        inputRun lib conf (inputRun lib conf (inputRun lib conf r steps) taking) told := by
      rw [inputRun, List.foldl_append, List.foldl_append]
      rfl
    rw [apart, Worker.meanwhile]
    dsimp only
    rw [same, taken]
    change { sourced source currSrc (inputRun lib conf (inputRun lib conf r steps) taking) with
      dienow := (inputRun lib conf (inputRun lib conf r steps) taking).dienow || e.dienow } = _
    generalize inputRun lib conf (inputRun lib conf r steps) taking = x
    dsimp only [told]
    cases e.dienow
    · rw [Bool.or_false]
      rfl
    · rw [Bool.or_true]
      rfl
  · rw [List.countP_append, plain.2]
    exact h.resets
  · rw [List.filterMap_append, plain.1, List.append_nil]
    exact h.packets

theorem Follows.act (h : Follows lib conf r offered w steps) (e : Env) :
    ∃ steps', Follows lib conf r (offered ++ e.packets) (act lib conf w e) steps' := by
  obtain ⟨step, acts⟩ := acts_act e
  obtain ⟨source, currSrc, same⟩ := h.input
  obtain ⟨source', currSrc', moved⟩ := acts.input
  refine ⟨steps ++ step.toList, ?_, ?_, ?_⟩
  · have apart : inputRun lib conf r (steps ++ step.toList) =
        inputRun lib conf (inputRun lib conf r steps) step.toList := List.foldl_append
    rw [apart, moved, same]
    cases step with
    | none => exact ⟨source', currSrc', rfl⟩
    | some one =>
        obtain ⟨_, _, stepped⟩ := inputStep_sourced lib conf source currSrc
          (inputRun lib conf r steps) one
        refine ⟨source', currSrc', ?_⟩
        change sourced source' currSrc' (inputStep lib conf (sourced source currSrc _) one) = _
        rw [stepped]
        rfl
  · rw [List.countP_append, h.resets, acts.resets]
  · rw [List.filterMap_append, List.append_assoc]
    refine (List.Sublist.append_left acts.packets _).trans ?_
    rw [← List.append_assoc]
    exact List.Sublist.append_right h.packets _

/-- The life of a thread is a run of its input. Each time reads begin the run has a reset, and the
packets of the run lay in the thread's buffer, in this order. -/
theorem thread_follows (lib : Libs) (conf : Config) (r : Input) (inWorktime : Bool)
    (envs : List Env) : ∃ steps,
      (threadRun lib conf (spawned r inWorktime) envs).input =
          { inputRun lib conf r steps with
            channel := chansrcNext^[(threadRun lib conf (spawned r inWorktime) envs).log.count
              .failover] r.channel } ∧
        steps.countP isReset =
          (threadRun lib conf (spawned r inWorktime) envs).log.count .begun ∧
        (steps.filterMap packetOf).Sublist (envs.flatMap Env.packets) := by
  have followed : ∃ steps, Follows lib conf r (envs.flatMap Env.packets)
      (threadRun lib conf (spawned r inWorktime) envs) steps := by
    induction envs using List.reverseRecOn with
    | nil => exact ⟨[], ⟨_, _, rfl⟩, rfl, List.Sublist.refl []⟩
    | append_singleton envs e ih =>
        obtain ⟨steps, follows⟩ := ih
        obtain ⟨_, met⟩ := follows.meanwhile e
        obtain ⟨steps', acted⟩ := met.act e
        have offered : (envs ++ [e]).flatMap Env.packets =
            envs.flatMap Env.packets ++ e.packets := by
          simp
        rw [threadRun, List.foldl_concat, offered]
        exact ⟨steps', acted⟩
  obtain ⟨steps, follows⟩ := followed
  obtain ⟨source, currSrc, same⟩ := follows.input
  refine ⟨steps, ?_, follows.resets, (List.sublist_append_left _ _).trans follows.packets⟩
  rw [← (Life.alive_run lib conf r inWorktime envs).records.channel, same]
  rfl

end follows

end Mptsd.Intake.Steps
