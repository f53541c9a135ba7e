/- Unit: Mptsd/Intake/Stored
   source: src/input.c (input_stream, input_buffer_add), src/config.c (config_load_channels)
   digest: What the buffer of an input holds whatever the channel sends: the PIDs of the packets,
   the counters of the EIT, and what the mixer sees of all this. -/

import Mptsd.Intake.Window
import Mptsd.Mixer.Model

set_option autoImplicit false
set_option relaxedAutoImplicit false

namespace Mptsd.Intake.Stored

open Mptsd.TsPacket (Packet nullPid)
open Mptsd.Channels (Channel Made)
open Mptsd.Conf (Config)
open Mptsd.Lib.Counter (cyclicRun cyclicRun_add cyclicRun_mod)
open Mptsd.Lib.Queue (Fifo)
open Mptsd.PidTable
open Mptsd.PsiTables
open Mptsd.Intake.Model
open Mptsd.Intake.Rewrite
open Mptsd.Intake.Frames
open Mptsd.Intake.Announce (uint16_basePid)
open Mptsd.Intake.StreamInvariant
open Mptsd.Intake.EitForward (dispatched)
open Mptsd.Intake.Effects
open Mptsd.Intake.Window (index_inputStep)
open Mptsd.Mixer.Model (Supplied)

section frame

/-- The tables that are collected. -/
def tablesView (s : InputStream) : TsPat × TsPmt := (s.pat, s.pmt)

/-- The part of an input that belongs to the mixer. -/
def mixerView (r : Input) : ℕ × ℤ × ℤ :=
  (r.outputLastPcr, r.outputPcrPacketsNeeded, r.outputedPackets)

variable (lib : Libs) (conf : Config) (r : Input)

@[simp] theorem tablesView_parsePat :
    tablesView (parsePat r).2.stream = tablesView r.stream := by
  obtain ⟨_, _, same⟩ := parsePat_frame r
  rw [same]
  rfl

@[simp] theorem tablesView_inputRewritePat :
    tablesView (inputRewritePat lib r).stream = tablesView r.stream := by
  obtain ⟨_, _, same⟩ := inputRewritePat_frame lib r
  rw [same]
  rfl

@[simp] theorem tablesView_emitPat : tablesView (emitPat lib r).stream = tablesView r.stream := by
  obtain ⟨_, _, same, -⟩ := emitPat_frame lib r
  rw [same]
  rfl

@[simp] theorem tablesView_inputRewritePmt :
    tablesView (inputRewritePmt lib r).stream = tablesView r.stream := by
  obtain ⟨_, _, _, _, same⟩ := inputRewritePmt_frame lib r
  rw [same]
  rfl

@[simp] theorem tablesView_emitPmt : tablesView (emitPmt lib r).stream = tablesView r.stream := by
  rcases emitPmt_cases lib r with same | ⟨M, -, -, same⟩
  · rw [same]
  · rw [same, stream_inputBufferAdd]
    rfl

theorem tablesView_processPat (pid : ℕ) (p : Packet) :
    tablesView (processPat lib r pid p).2.1.stream = tablesView r.stream ∨
      tablesView (processPat lib r pid p).2.1.stream =
        (lib.pat.push r.stream.pat p, r.stream.pmt) := by
  rw [processPat]
  dsimp only
  split_ifs
  · exact Or.inl rfl
  · exact Or.inr rfl
  · exact Or.inr rfl
  · right
    simp only [tablesView_parsePat]
    rfl
  · right
    simp only [tablesView_emitPat, tablesView_parsePat]
    rfl
  · right
    simp only [tablesView_emitPat, tablesView_inputRewritePat, tablesView_parsePat]
    rfl
  · exact Or.inr rfl

theorem tablesView_processPmt (pid : ℕ) (p : Packet) :
    tablesView (processPmt lib r pid p).2.stream = tablesView r.stream ∨
      tablesView (processPmt lib r pid p).2.stream =
        (r.stream.pat, lib.pmt.push r.stream.pmt p) := by
  rw [processPmt]
  dsimp only
  split_ifs
  · exact Or.inl rfl
  · exact Or.inr rfl
  · exact Or.inr rfl
  · right
    simp only [tablesView_emitPmt]
    rfl
  · right
    simp only [tablesView_emitPmt, tablesView_inputRewritePmt]
    rfl
  · exact Or.inr rfl

variable {r} in
private theorem tablesView_processEit (p : Packet) (clean : r.stream.eitRewritten = none) :
    tablesView (processEit lib conf r p).2.stream = tablesView r.stream := by
  rcases processEit_cases conf p clean with same | same | ⟨-, same⟩
  · rw [same]
  · rw [same]
    rfl
  · rw [same, stream_emitEit]
    rfl

theorem tablesView_forwardPacket (pid : ℕ) (p : Packet) :
    tablesView (forwardPacket lib r pid p).stream = tablesView r.stream := by
  obtain ⟨inputPcr, same⟩ := notePcr_frame lib r pid p
  rw [forwardPacket_stream, same]
  rfl

@[simp] theorem mixerView_inputBufferAdd (data : List Packet) :
    mixerView (inputBufferAdd lib r data) = mixerView r := by
  rw [inputBufferAdd]
  dsimp only
  split_ifs <;> rfl

@[simp] theorem mixerView_processPat (pid : ℕ) (p : Packet) :
    mixerView (processPat lib r pid p).2.1 = mixerView r := by
  obtain ⟨_, _, _, _, _, _, _, same⟩ := processPat_frame lib r pid p
  rw [same]
  rfl

@[simp] theorem mixerView_processPmt (pid : ℕ) (p : Packet) :
    mixerView (processPmt lib r pid p).2 = mixerView r := by
  obtain ⟨x, ⟨_, _, _, _, _, _, _, rfl⟩, same | ⟨data, same⟩⟩ := processPmt_frame lib r pid p
  · rw [same]
    rfl
  · rw [same, mixerView_inputBufferAdd]
    rfl

@[simp] theorem mixerView_processEit (p : Packet) :
    mixerView (processEit lib conf r p).2 = mixerView r := by
  obtain ⟨x, ⟨_, _, rfl⟩, same | ⟨P, same⟩⟩ := processEit_frame lib r conf p
  · rw [same]
    rfl
  · rw [same]
    exact mixerView_inputBufferAdd lib _ _

@[simp] theorem mixerView_forwardPacket (pid : ℕ) (p : Packet) :
    mixerView (forwardPacket lib r pid p) = mixerView r := by
  obtain ⟨inputPcr, same | ⟨data, inputReady, same⟩⟩ := forwardPacket_frame lib r pid p
  · rw [same]
    rfl
  · rw [same]
    exact mixerView_inputBufferAdd lib _ data

private theorem mixerView_inputPacket (p : Packet) :
    mixerView (inputPacket lib conf r p).2 = mixerView r := by
  cases alive : r.dienow with
  | true => rw [inputPacket_of_dead alive]
  | false =>
      by_cases pid : lib.getPid p = 0
      · rw [inputPacket_of_pat alive pid]
        exact mixerView_processPat lib r 0 p
      · rw [inputPacket_of_other alive pid]
        dsimp only
        split_ifs <;> simp

end frame

/-- A complete table has no more entries than a section can hold. -/
structure Small (s : InputStream) : Prop where
  pat : s.pat.initialized = true → s.pat.programs.length ≤ 1024
  pmt : s.pmt.initialized = true → s.pmt.streams.length ≤ 1024

variable {lib : Libs} {conf : Config} {r r' : Input} {s s' : InputStream}

theorem Small.congr (h : Small s) (same : tablesView s' = tablesView s) : Small s' := by
  simp only [tablesView, Prod.mk.injEq] at same
  constructor
  · rw [same.1]
    exact h.pat
  · rw [same.2]
    exact h.pmt

variable (lib) in
private theorem small_alloc (same : tablesView s = (lib.pat.alloc, lib.pmt.alloc)) : Small s := by
  simp only [tablesView, Prod.mk.injEq] at same
  constructor
  · rw [same.1, lib.pat.alloc_initialized]
    exact fun e => nomatch e
  · rw [same.2, lib.pmt.alloc_initialized]
    exact fun e => nomatch e

private theorem Small.push_pat (h : Small s) (p : Packet)
    (same : tablesView s' = (lib.pat.push s.pat p, s.pmt)) : Small s' := by
  simp only [tablesView, Prod.mk.injEq] at same
  constructor
  · rw [same.1]
    cases complete : s.pat.initialized with
    | true =>
        rw [lib.pat.push_initialized _ _ complete]
        exact h.pat
    | false => exact lib.pat_programs_le _ _ complete
  · rw [same.2]
    exact h.pmt

private theorem Small.push_pmt (h : Small s) (p : Packet)
    (same : tablesView s' = (s.pat, lib.pmt.push s.pmt p)) : Small s' := by
  simp only [tablesView, Prod.mk.injEq] at same
  constructor
  · rw [same.1]
    exact h.pat
  · rw [same.2]
    cases complete : s.pmt.initialized with
    | true =>
        rw [lib.pmt.push_initialized _ _ complete]
        exact h.pmt
    | false => exact lib.pmt_streams_le _ _ complete

theorem Small.inputPacket (h : Small r.stream) (clean : r.stream.eitRewritten = none) (p : Packet) :
    Small (inputPacket lib conf r p).2.stream := by
  cases alive : r.dienow with
  | true =>
      rw [inputPacket_of_dead alive]
      exact h
  | false =>
      by_cases pid : lib.getPid p = 0
      · rw [inputPacket_of_pat alive pid]
        rcases tablesView_processPat lib r 0 p with same | pushed
        · exact h.congr same
        · exact h.push_pat p pushed
      · have after : Small (processPmt lib r (lib.getPid p) p).2.stream := by
          rcases tablesView_processPmt lib r (lib.getPid p) p with same | pushed
          · exact h.congr same
          · exact h.push_pmt p pushed
        have still : (processPmt lib r (lib.getPid p) p).2.stream.eitRewritten = none :=
          (congrArg (fun v => v.2.1) (EitForward.eitView_processPmt lib r (lib.getPid p) p)).trans
            clean
        rw [inputPacket_of_other alive pid]
        dsimp only
        split_ifs
        · exact after
        · exact after
        · exact after.congr (tablesView_processEit lib conf p still)
        · exact after
        · exact after.congr (tablesView_forwardPacket lib _ _ p)

theorem Small.length_orgsDone (h : Small s) {base : ℕ} (tracked : Tracked lib base s) :
    (orgsDone s).length ≤ 2049 := by
  have pat : (if s.patRewritten.isSome then patOrgs s.pat.programs else []).length ≤ 1024 := by
    split
    · rename_i rewritten
      obtain ⟨P, rewritten⟩ := Option.isSome_iff_exists.mp rewritten
      have programs := h.pat (tracked.pat P rewritten).2
      have fewer : (patOrgs s.pat.programs).length ≤ s.pat.programs.length := by
        rw [patOrgs]
        rw [List.length_map]
        exact List.length_filter_le _ _
      exact fewer.trans programs
    · exact Nat.zero_le _
  have pmt : (if s.pmtRewritten.isSome then pmtOrgs s.pmt else []).length ≤ 1025 := by
    split
    · rename_i rewritten
      obtain ⟨M, rewritten⟩ := Option.isSome_iff_exists.mp rewritten
      have streams := h.pmt (tracked.pmt M rewritten).2.1
      have fewer : (s.pmt.streams.filter (fun pid => pid ≠ s.pmt.pcrPid)).length ≤
          s.pmt.streams.length := List.length_filter_le _ _
      rw [pmtOrgs]
      rw [List.length_cons]
      omega
    · exact Nat.zero_le _
  rw [orgsDone]
  rw [List.length_append]
  omega

/-- A PID on which the program generates nothing itself, unless it is that of the EIT. -/
def Carried (pid : ℕ) : Prop :=
  pid ≠ 0x00 ∧ pid ≠ 0x10 ∧ pid ≠ 0x11 ∧ pid ≠ 0x14 ∧ pid < nullPid

private theorem carried_eit : Carried 0x12 := by
  rw [Carried, nullPid]
  decide

private theorem carried_run {i n pid : ℕ} (positive : 0 < i) (low : i < 32) (fits : n ≤ 2049)
    (member : pid ∈ cyclicRun (2 ^ 16) (32 * i) n) :
    Carried pid ∧ pid ≠ 0x12 ∧ pid < 0x2000 := by
  obtain ⟨j, below, rfl⟩ := List.mem_map.mp member
  rw [List.mem_range] at below
  rw [Carried, nullPid]
  omega

/-- What is known of an input of channel `c` and of the packets in its buffer. -/
structure Stocked (lib : Libs) (c : Channel) (r : Input) : Prop where
  sound : Sound lib c r
  index : r.channel.index = c.index
  small : Small r.stream
  pids : ∀ q ∈ r.buf.filled, Carried (lib.getPid q)

variable {c : Channel} {p : Packet}

variable (lib) in
theorem stocked_inputNew (name : String) (c : Channel) (ifd : Bool) :
    Stocked lib c (inputNew lib name c ifd) :=
  ⟨sound_inputNew name c ifd, rfl, small_alloc lib rfl, fun _ stored => nomatch stored⟩

private theorem Stocked.carried_forward (h : Stocked lib c r) (made : Made c) (low : c.index < 32)
    (on : forwards lib r p) :
    Carried (lib.getPid (pidrefChangePacketPid lib.toTsFuncs p (lib.getPid p)
        r.stream.pidref).2) ∧
      lib.getPid (pidrefChangePacketPid lib.toTsFuncs p (lib.getPid p) r.stream.pidref).2 ≠
        0x12 := by
  have base := uint16_basePid made
  unfold pidrefChangePacketPid
  dsimp only
  split
  · rename_i found
    rw [h.sound.tracked.pidref, base] at found ⊢
    obtain ⟨carried, other, small⟩ := carried_run made.index_pos low
      (h.small.length_orgsDone h.sound.tracked)
      (lookup_assigned (by have := made.index_lt; omega) found)
    rw [lib.getPid_setPid, Nat.mod_eq_of_lt small]
    exact ⟨carried, other⟩
  · obtain ⟨-, pat, -, eit, kept, -⟩ := on
    simp only [killed, Bool.or_eq_false_iff, decide_eq_false_iff_not] at kept
    show Carried (lib.getPid p) ∧ lib.getPid p ≠ 0x12
    rw [Carried, nullPid]
    omega

/-- The packet completes an EIT of the channel's own service, which is handed on. -/
def HandsEit (lib : Libs) (r : Input) (p : Packet) : Prop :=
  dispatched lib r p ∧ r.channel.eitMode ≠ 0 ∧
    (lib.eit.push r.stream.eit p).initialized = true ∧
    ((lib.eit.push r.stream.eit p).tsIdNumber : ℤ) = r.channel.serviceId

/-- What one packet can put into the buffer, with the PIDs of it. -/
inductive Stores (lib : Libs) (conf : Config) (r : Input) (p : Packet) (r' : Input) : Prop
  | quiet (buf : bufView r' = bufView r) (cont : r'.stream.pidEitCont = r.stream.pidEitCont)
  | other (data : List Packet) (alive : r.dienow = false)
      (buf : bufView r' = bufView (inputBufferAdd lib r data))
      (pids : ∀ q ∈ data, Carried (lib.getPid q) ∧ lib.getPid q ≠ 0x12)
      (cont : r'.stream.pidEitCont = r.stream.pidEitCont)
  | eit (t : TsEit) (own : HandsEit lib r p)
      (buf : bufView r' = bufView (inputBufferAdd lib r
        (setConts lib.toTsFuncs r.stream.pidEitCont (rewrittenEit lib conf t).packets)))
      (cont : r'.stream.pidEitCont =
        (r.stream.pidEitCont + (rewrittenEit lib conf t).packets.length) % 16)

private theorem stores_dispatched (clean : r.stream.eitRewritten = none) (on : dispatched lib r p) :
    Stores lib conf r p (inputPacket lib conf r p).2 := by
  obtain ⟨-, same⟩ := pidref_processPmt on.2.2
  have view := EitForward.eitView_processPmt lib r 0x12 p
  simp only [EitForward.eitView, Prod.mk.injEq] at view
  obtain ⟨eit, rewritten, cont, channel⟩ := view
  rw [EitForward.inputPacket_dispatched lib conf on]
  rcases processEit_effect lib conf p (rewritten.trans clean) with
    ⟨buf, still⟩ | ⟨t, mode, buf, next⟩
  · exact .quiet (buf.trans same) (still.trans cont)
  · by_cases complete : (lib.eit.push r.stream.eit p).initialized = true
    · by_cases own : ((lib.eit.push r.stream.eit p).tsIdNumber : ℤ) = r.channel.serviceId
      · rw [channel] at mode
        rw [cont] at buf next
        exact .eit t ⟨on, mode, complete, own⟩
          (buf.trans (bufView_inputBufferAdd_congr lib same _)) next
      · rw [← eit] at complete own
        rw [← channel] at own
        rw [processEit_other mode complete own]
        exact .quiet same cont
    · rw [← eit] at complete
      rw [processEit_pending mode complete]
      exact .quiet same cont

theorem Stocked.stores (h : Stocked lib c r) (made : Made c) (low : c.index < 32) (p : Packet) :
    Stores lib conf r p (inputPacket lib conf r p).2 := by
  have base := uint16_basePid made
  have clean := h.sound.tracked.eit
  by_cases on : dispatched lib r p
  · exact stores_dispatched clean on
  · have cont : (inputPacket lib conf r p).2.stream.pidEitCont = r.stream.pidEitCont :=
      congrArg (fun v => v.2.2.1) (EitForward.eitView_inputPacket lib conf on)
    cases alive : r.dienow with
    | true =>
        rw [inputPacket_of_dead alive]
        exact .quiet rfl rfl
    | false =>
        by_cases forwarded : forwards lib r p
        · refine .other _ alive (inputPacket_forwards forwarded) ?_ cont
          intro q member
          obtain rfl := List.mem_singleton.mp member
          exact h.carried_forward made low forwarded
        · by_cases pid : lib.getPid p = 0
          · refine .quiet ?_ cont
            rw [inputPacket_of_pat alive pid]
            exact bufView_processPat lib r 0 p
          · -- what is left is the work of `process_pmt`
            have last : bufView (inputPacket lib conf r p).2 =
                bufView (processPmt lib r (lib.getPid p) p).2 := by
              rw [inputPacket_of_other alive pid]
              dsimp only
              split_ifs with reconnect early eit dropped
              · rfl
              · rfl
              · exact absurd ⟨alive, eit, by rw [← eit]; omega⟩ on
              · rfl
              · refine (forwardPacket_effect lib _ _ _).trans (if_neg ?_)
                intro seen
                exact forwarded ⟨alive, pid, by omega, eit, by simpa using dropped, seen⟩
            rcases processPmt_effect h.sound.tracked h.sound.known
              (by have := made.index_lt; omega) (lib.getPid p) with
              same | ⟨-, header, data, assigned, pids, buf⟩
            · exact .quiet (last.trans same) cont
            · rw [base] at assigned
              obtain ⟨carried, other, small⟩ := carried_run made.index_pos low
                (h.small.length_orgsDone h.sound.tracked) assigned
              refine .other data alive (last.trans buf) ?_ cont
              intro q member
              rw [pids small q member]
              exact ⟨carried, other⟩

private theorem pid_eit (t : TsEit) (cont : ℕ) :
    ∀ q ∈ setConts lib.toTsFuncs cont (rewrittenEit lib conf t).packets, lib.getPid q = 0x12 :=
  pid_setConts lib.toTsFuncs (lib.eit_packets_pid _)

private theorem fifo_inputBufferAdd (lib : Libs) (r : Input) (data : List Packet) :
    (inputBufferAdd lib r data).buf.toFifo = r.buf.toFifo.push data ∨
      (inputBufferAdd lib r data).buf.toFifo = r.buf.toFifo := by
  rw [inputBufferAdd, cbufFill]
  dsimp only
  by_cases accepted : lib.cbufAccepts r.buf.size r.buf.stored
      (TsPacket.tsPacketSize * data.length) = true
  · split_ifs
    · exact Or.inr rfl
    · exact Or.inr rfl
    · exact Or.inl rfl
    · exact Or.inl rfl
  · split_ifs <;> exact Or.inr rfl

theorem fifo_of_view {data : List Packet} (buf : bufView r' = bufView (inputBufferAdd lib r data)) :
    r'.buf.toFifo = r.buf.toFifo.push data ∨ r'.buf.toFifo = r.buf.toFifo := by
  have same : r'.buf = (inputBufferAdd lib r data).buf := congrArg (fun v => v.2.1) buf
  rw [same]
  exact fifo_inputBufferAdd lib r data

variable (conf) in
theorem Stocked.fifo_inputPacket (h : Stocked lib c r) (made : Made c) (low : c.index < 32)
    (p : Packet) :
    ∃ data, (inputPacket lib conf r p).2.buf.toFifo = r.buf.toFifo.push data ∧
      ∀ q ∈ data, Carried (lib.getPid q) := by
  have nothing : ∀ {b : Cbuf}, b.toFifo = r.buf.toFifo →
      ∃ data, b.toFifo = r.buf.toFifo.push data ∧ ∀ q ∈ data, Carried (lib.getPid q) := by
    intro b same
    exact ⟨[], by rw [Fifo.push_nil, same], fun _ member => nomatch member⟩
  have stores : Stores lib conf r p (inputPacket lib conf r p).2 := h.stores made low p
  cases stores with
  | quiet buf => exact nothing (congrArg (fun v => v.2.1.toFifo) buf)
  | other data _ buf pids =>
      rcases fifo_of_view buf with pushed | same
      · exact ⟨data, pushed, fun q member => (pids q member).1⟩
      · exact nothing same
  | eit t _ buf =>
      rcases fifo_of_view buf with pushed | same
      · exact ⟨_, pushed, fun q member => (pid_eit t _ q member).symm ▸ carried_eit⟩
      · exact nothing same

theorem Stocked.inputStep (h : Stocked lib c r) (made : Made c) (low : c.index < 32)
    (step : InputStep) : Stocked lib c (inputStep lib conf r step) := by
  refine ⟨h.sound.inputStep step, (index_inputStep h.sound step).trans h.index, ?_, ?_⟩
  · cases step with
    | packet p => exact h.small.inputPacket h.sound.tracked.eit p
    | reconnect => exact small_alloc lib rfl
    | take => exact h.small
    | stop => exact h.small
  · cases step with
    | packet p =>
        obtain ⟨data, pushed, pids⟩ := h.fifo_inputPacket conf made low p
        intro q stored
        have split : q ∈ (r.buf.toFifo.push data).filled := by
          rw [← pushed]
          exact stored
        rw [Fifo.filled_push] at split
        rcases List.mem_append.mp split with old | new
        · exact h.pids q old
        · exact pids q new
    | reconnect => exact h.pids
    | take =>
        intro q stored
        rw [show (Model.inputStep lib conf r .take).buf.filled = r.buf.filled from
          filled_cbufGet r.buf] at stored
        exact h.pids q stored
    | stop => exact h.pids

theorem Stocked.supplied (h : Stocked lib c r) (made : Made c) (low : c.index < 32)
    {step : InputStep} (other : step ≠ .take) :
    Supplied lib.toTsFuncs r (Model.inputStep lib conf r step) := by
  have nothing : ∃ data, r.buf.toFifo = r.buf.toFifo.push data ∧
      ∀ q ∈ data, lib.getPid q ≠ nullPid :=
    ⟨[], (Fifo.push_nil _).symm, fun _ member => nomatch member⟩
  cases step with
  | packet p =>
      obtain ⟨data, pushed, pids⟩ := h.fifo_inputPacket conf made low p
      have view := mixerView_inputPacket lib conf r p
      simp only [mixerView, Prod.mk.injEq] at view
      refine ⟨⟨data, pushed, fun q member => ?_⟩, view.1, view.2.1, view.2.2⟩
      have := (pids q member).2.2.2.2
      omega
  | reconnect => exact ⟨nothing, rfl, rfl, rfl⟩
  | take => exact absurd rfl other
  | stop => exact ⟨nothing, rfl, rfl, rfl⟩

section eit

/-- As long as nothing has been refused, the EIT packets in the buffer are numbered in a row. -/
structure Numbered (lib : Libs) (r : Input) : Prop where
  accepting : r.buf.refused = 0 → r.disabled = false
  conts : r.buf.refused = 0 → ∃ n,
    (r.buf.filled.filter (fun q => lib.getPid q = 0x12)).map lib.getCont = cyclicRun 16 0 n ∧
      r.stream.pidEitCont % 16 = n % 16

variable (lib) in
theorem numbered_inputNew (name : String) (c : Channel) (ifd : Bool) :
    Numbered lib (inputNew lib name c ifd) :=
  ⟨fun _ => rfl, fun _ => ⟨0, rfl, rfl⟩⟩

private theorem inputBufferAdd_accepted {data : List Packet} (alive : r.dienow = false)
    (accepting : r.buf.refused = 0 → r.disabled = false)
    (none : (inputBufferAdd lib r data).buf.refused = 0) :
    r.buf.refused = 0 ∧ (inputBufferAdd lib r data).disabled = false ∧
      (inputBufferAdd lib r data).buf.filled = r.buf.filled ++ data := by
  by_cases before : r.buf.refused = 0
  · have open_ := accepting before
    rw [inputBufferAdd] at none ⊢
    simp only [alive, open_, Bool.false_eq_true, if_false, false_and] at none ⊢
    by_cases accepted : lib.cbufAccepts r.buf.size r.buf.stored
        (TsPacket.tsPacketSize * data.length) = true
    · refine ⟨before, ?_, ?_⟩
      · simp [cbufFill, accepted]
      · simp [cbufFill, accepted]
    · simp [cbufFill, accepted] at none
  · exfalso
    rw [inputBufferAdd, cbufFill] at none
    dsimp only at none
    split_ifs at none <;> simp_all

theorem Numbered.inputPacket (h : Numbered lib r) (stocked : Stocked lib c r) (made : Made c)
    (low : c.index < 32) (p : Packet) : Numbered lib (inputPacket lib conf r p).2 := by
  have stores : Stores lib conf r p (Model.inputPacket lib conf r p).2 := stocked.stores made low p
  revert stores
  generalize (Model.inputPacket lib conf r p).2 = r'
  intro stores
  have fields : ∀ {q : Input}, bufView r' = bufView q →
      r'.buf = q.buf ∧ r'.disabled = q.disabled := by
    intro q same
    exact ⟨congrArg (fun v => v.2.1) same, congrArg (fun v => v.2.2.1) same⟩
  cases stores with
  | quiet buf cont =>
      obtain ⟨buf, disabled⟩ := fields buf
      constructor
      · rw [buf, disabled]
        exact h.accepting
      · rw [buf, cont]
        exact h.conts
  | other data alive buf pids cont =>
      obtain ⟨buf, disabled⟩ := fields buf
      constructor
      · rw [buf, disabled]
        exact fun none => (inputBufferAdd_accepted alive h.accepting none).2.1
      · rw [buf, cont]
        intro none
        obtain ⟨before, -, filled⟩ := inputBufferAdd_accepted alive h.accepting none
        have absent : data.filter (fun q => lib.getPid q = 0x12) = [] := by
          apply List.filter_eq_nil_iff.mpr
          intro q member
          simpa using (pids q member).2
        rw [filled, List.filter_append, absent, List.append_nil]
        exact h.conts before
  | eit t own buf cont =>
      have alive := own.1.1
      obtain ⟨buf, disabled⟩ := fields buf
      constructor
      · rw [buf, disabled]
        exact fun none => (inputBufferAdd_accepted alive h.accepting none).2.1
      · rw [buf, cont]
        intro none
        obtain ⟨before, -, filled⟩ := inputBufferAdd_accepted alive h.accepting none
        obtain ⟨n, conts, next⟩ := h.conts before
        have all : (setConts lib.toTsFuncs r.stream.pidEitCont
            (rewrittenEit lib conf t).packets).filter (fun q => lib.getPid q = 0x12) =
            setConts lib.toTsFuncs r.stream.pidEitCont (rewrittenEit lib conf t).packets := by
          apply List.filter_eq_self.mpr
          intro q member
          simpa using pid_eit t _ q member
        refine ⟨n + (rewrittenEit lib conf t).packets.length, ?_, by omega⟩
        rw [filled, List.filter_append, List.map_append, all, conts, conts_setConts, cyclicRun_add,
          ← cyclicRun_mod 16 r.stream.pidEitCont, next, cyclicRun_mod, Nat.zero_add]

theorem Numbered.inputStep (h : Numbered lib r) (stocked : Stocked lib c r) (made : Made c)
    (low : c.index < 32) (step : InputStep) : Numbered lib (inputStep lib conf r step) := by
  cases step with
  | packet p => exact h.inputPacket stocked made low p
  | reconnect => exact ⟨h.accepting, h.conts⟩
  | take =>
      refine ⟨h.accepting, ?_⟩
      show (cbufGet r.buf).2.refused = 0 → _
      rw [refused_cbufGet]
      intro none
      rw [show (Model.inputStep lib conf r .take).buf.filled = r.buf.filled from
        filled_cbufGet r.buf]
      exact h.conts none
  | stop => exact ⟨h.accepting, h.conts⟩

end eit

end Mptsd.Intake.Stored
