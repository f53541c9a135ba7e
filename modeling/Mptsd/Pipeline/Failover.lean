/- Unit: Mptsd/Pipeline/Failover
   source: src/output_write.c (ts_frame_process), src/input.c (input_stream, RECONNECT),
   src/data.c (input_stream_free, input_stream_reset)
   digest: The PCRs stamped in the runs of all threads, and which of them are those of a source an
   input has reconnected to: the writer re-anchors only when it sees a PCR that goes back. -/

import Mptsd.Mixer.Gate
import Mptsd.Pipeline.Supply
import Mptsd.Psi.Refused

set_option autoImplicit false
set_option relaxedAutoImplicit false

namespace Mptsd.Pipeline.Failover

open Mptsd.TsPacket
open Mptsd.Channels (chansrcAdd sampleChannel sampleChannel_made)
open Mptsd.Conf (Config)
open Mptsd.Lib.Queue (Fifo)
open Mptsd.PsiTables
open Mptsd.Psi.Model
open Mptsd.Psi.Refused (samplePsi sampleTimeFuncs)
open Mptsd.Intake.Model
open Mptsd.Intake.Stored (Stocked)
open Mptsd.Mixer.Model (mixTurn)
open Mptsd.Mixer.Fill (source pending)
open Mptsd.Mixer.Gate (slowConfig)
open Mptsd.Mixer.Merge (current)
open Mptsd.Writer.Model
open Mptsd.Writer.Restamp
open Mptsd.Handoff.Model (mixStep writeStep)
open Mptsd.Handoff.Safety (slots framesOf length_frameAt)
open Mptsd.Handoff.Sending (mixStep_frame flatten_flatMap_framesOf)
open Mptsd.Sections
open Mptsd.Pipeline.Model
open Mptsd.Pipeline.Flow
open Mptsd.Pipeline.Supply

section stamps

variable {ts : TsFuncs} {conf : Config}

/-- The packet leaves with its own PCR, which is also kept for the next one. -/
def Reanchored (ts : TsFuncs) (b : Stamp) : Prop :=
  b.kept = b.orgPcr ∧ (b.sent = b.received ∨ b.sent = ts.setPcr b.received b.orgPcr)

/-- What the writer needs to see to start from the PCR of `b` when it has seen `a` before: nothing
was kept, or the PCR has not grown, or it is the one that is due. -/
def Anchors (ts : TsFuncs) (conf : Config) (a b : Stamp) : Prop :=
  a.kept = 0 ∨ b.orgPcr ≤ a.orgPcr ∨ advanced ts conf a b a.kept % 2 ^ 64 = b.orgPcr

private theorem reanchored_of_follows {a b : Stamp} (h : Follows ts conf a b)
    (rewriting : conf.pcrMode = 2 ∨ conf.pcrMode = 3) : Reanchored ts b ↔ Anchors ts conf a b := by
  by_cases first : a.kept = 0 ∨ b.orgPcr ≤ a.orgPcr
  · obtain ⟨kept, sent⟩ := h.reset first
    refine iff_of_true ⟨kept, Or.inl sent⟩ ?_
    rcases first with zero | back
    · exact Or.inl zero
    · exact Or.inr (Or.inl back)
  · push Not at first
    obtain ⟨nonzero, later⟩ := first
    have kept := h.kept nonzero later
    have sent := h.sent nonzero later rewriting
    constructor
    · rintro ⟨own, -⟩
      exact Or.inr (Or.inr (kept.symm.trans own))
    · rintro (zero | back | due)
      · exact absurd zero nonzero
      · exact absurd later (not_lt.mpr back)
      · have own : b.kept = b.orgPcr := kept.trans due
        exact ⟨own, Or.inr (own ▸ sent)⟩

private theorem exists_latest {log : List Stamp} {pid : ℕ} {a : Stamp}
    (last : latest log pid = some a) :
    a.pid = pid ∧ ∃ before between, log = before ++ a :: between ∧ ∀ s ∈ between, s.pid ≠ pid := by
  induction log using List.reverseRecOn with
  | nil => cases last
  | append_singleton log s ih =>
      rw [latest_append_singleton] at last
      split_ifs at last with same
      · obtain rfl := Option.some.inj last
        exact ⟨same, log, [], rfl, fun _ member => nomatch member⟩
      · obtain ⟨own, before, between, rfl, others⟩ := ih last
        refine ⟨own, before, between ++ [s], by simp, ?_⟩
        intro x member
        rcases List.mem_append.mp member with old | new
        · exact others x old
        · rw [List.mem_singleton.mp new]
          exact same

private theorem reanchored_of_logged {t : Traced} (h : Logged ts conf t)
    (rewriting : conf.pcrMode = 2 ∨ conf.pcrMode = 3) {before after : List Stamp} {b : Stamp}
    (log : t.log = before ++ b :: after) :
    Reanchored ts b ↔ ∀ a, latest before b.pid = some a → Anchors ts conf a b := by
  cases last : latest before b.pid with
  | none =>
      have absent : ∀ s ∈ before, s.pid ≠ b.pid := by
        intro s member same
        have none := List.getLast?_eq_none_iff.mp last
        exact List.not_mem_nil (none ▸ List.mem_filter.mpr ⟨member, by simpa using same⟩)
      obtain ⟨kept, sent⟩ := h.firsts before b after log absent
      exact iff_of_true ⟨kept, Or.inl sent⟩ fun _ none => nomatch none
  | some a =>
      obtain ⟨own, front, between, rfl, others⟩ := exists_latest last
      have follows : Follows ts conf a b :=
        h.pairs front a between b after (by rw [log, List.append_assoc]) own
          fun s member => own ▸ others s member
      rw [reanchored_of_follows follows rewriting]
      constructor
      · intro anchors x same
        obtain rfl := Option.some.inj same
        exact anchors
      · exact fun all => all a rfl

end stamps

section writer

variable {lib : Libs} {conf : Config}

/-- What the observer of the writer has noted, and about which packets. -/
structure Watched (conf : Config) (s : World lib) : Prop where
  logged : Logged lib.toTsFuncs conf s.traced
  notes : s.log.map (fun b => (b.pid, b.received)) =
    (s.hand.handed.flatten.filter fun p => lib.hasPcr (markNull lib.toTsFuncs p)).map
      fun p => (lib.getPid p, markNull lib.toTsFuncs p)

private theorem notes_traceFrame (ts : TsFuncs) (conf : Config) (t : Traced) (i : ℕ)
    (frame : Frame) :
    (traceFrame ts conf t i frame).log.map (fun b => (b.pid, b.received)) =
      t.log.map (fun b => (b.pid, b.received)) ++
        (frame.filter fun p => ts.hasPcr (markNull ts p)).map
          fun p => (ts.getPid p, markNull ts p) := by
  induction frame generalizing t i with
  | nil => simp [traceFrame]
  | cons p rest ih =>
      rw [traceFrame, ih]
      cases pcr : ts.hasPcr (markNull ts p) with
      | false => simp [tracePacket, pcr]
      | true => simp [tracePacket, pcr, stampOf]

private theorem counted_frameWrite {o : Output} (small : o.traffic < 2 ^ 64) (frame : Frame)
    (io : FrameIo) :
    Counted o (frameWrite o frame io).output (frameWrite o frame io).counted := by
  rw [frameWrite]
  split
  · exact counted_tsFrameWriteRtp small frame io
  · exact counted_tsFrameWrite small frame io

private theorem counted_show {o : Output} (small : o.traffic < 2 ^ 64) (stats : Bool) :
    Counted o (o.show stats) 0 := by
  have still : o.traffic = (o.traffic + 0) % 2 ^ 64 := (Nat.mod_eq_of_lt small).symm
  rw [Output.show]
  split
  · exact ⟨rfl, still, rfl, rfl, rfl⟩
  · exact ⟨rfl, still, rfl, rfl, rfl⟩

private theorem Watched.congr {s s' : World lib} (h : Watched conf s)
    (output : s'.hand.write.output = s.hand.write.output) (total : s'.total = s.total)
    (log : s'.log = s.log) (handed : s'.hand.handed = s.hand.handed) : Watched conf s' := by
  refine ⟨?_, ?_⟩
  · rw [show s'.traced = s.traced by rw [World.traced, World.traced, output, total, log]]
    exact h.logged
  · rw [log, handed]
    exact h.notes

private theorem Watched.counted {s s' : World lib} (h : Watched conf s) {n : ℕ}
    (counted : Counted s.hand.write.output s'.hand.write.output n) (total : s'.total = s.total + n)
    (log : s'.log = s.log) (handed : s'.hand.handed = s.hand.handed) : Watched conf s' := by
  refine ⟨?_, ?_⟩
  · rw [show s'.traced = ⟨s'.hand.write.output, s.total + n, s.log⟩ by
      rw [World.traced, total, log]]
    exact Logged.counted _ conf h.logged counted
  · rw [log, handed]
    exact h.notes

private theorem Watched.process {s : World lib} (h : Watched conf s) (flows : Flows conf s)
    (now : s.processes) (stats : Bool) (io : FrameIo) :
    Watched conf (writerStep conf s stats io) := by
  obtain ⟨pc, more⟩ := now
  have hand : (writerStep conf s stats io).hand = s.hand.processFrame lib.toTsFuncs conf := by
    show writeStep lib.toTsFuncs conf s.hand stats io = _
    rw [writeStep, pc]
    exact if_pos more
  have log : (writerStep conf s stats io).log =
      (traceFrame lib.toTsFuncs conf s.traced 0 s.frame).log := if_pos ⟨pc, more⟩
  have total : (writerStep conf s stats io).total = s.total := if_neg (by simp [pc])
  have seven : s.frame.length = 7 := by
    have whole := flows.kept.whole s.hand.write.bufInUse
    have progress := flows.kept.progress
    rw [pc] at progress
    obtain ⟨k, -, at_k⟩ : ∃ k ≤ conf.rate.obufFrames,
      s.hand.writeBuf.written = framePacketSize * k := progress
    have size : s.hand.writeBuf.size = 7 * conf.rate.obufFrames * tsPacketSize :=
      congrArg (· * tsPacketSize) whole
    have inside : k < conf.rate.obufFrames := by
      rw [at_k, size] at more
      rw [framePacketSize, tsPacketSize] at more
      omega
    rw [World.frame, at_k]
    exact length_frameAt whole inside
  have traced : (writerStep conf s stats io).traced =
      traceFrame lib.toTsFuncs conf s.traced 0 s.frame := by
    have output : (writerStep conf s stats io).hand.write.output =
        (traceFrame lib.toTsFuncs conf s.traced 0 s.frame).output := by
      rw [hand, output_traceFrame]
      rfl
    rw [World.traced, output, log, total]
    have same := total_traceFrame lib.toTsFuncs conf s.traced 0 s.frame
    rw [show s.total = (traceFrame lib.toTsFuncs conf s.traced 0 s.frame).total from same.symm]
  refine ⟨?_, ?_⟩
  · rw [traced]
    apply Logged.traceFrame _ conf h.logged
    rw [seven]
    rfl
  · have handed : (writerStep conf s stats io).hand.handed = s.hand.handed ++ [s.frame] := by
      rw [hand]
      rfl
    rw [log, handed, notes_traceFrame, List.flatten_append, List.flatten_singleton,
      List.filter_append, List.map_append]
    exact congrArg (· ++ _) h.notes

private theorem Watched.writerStep {s : World lib} (h : Watched conf s) (flows : Flows conf s)
    (stats : Bool) (io : FrameIo) : Watched conf (writerStep conf s stats io) := by
  have small : s.hand.write.output.traffic < 2 ^ 64 := by
    rw [show s.hand.write.output.traffic = _ from h.logged.traffic]
    exact Nat.mod_lt _ (by norm_num)
  by_cases now : s.processes
  · exact h.process flows now stats io
  · have log : (Model.writerStep conf s stats io).log = s.log := if_neg now
    have total : s.hand.write.pc ≠ .sending → (Model.writerStep conf s stats io).total = s.total :=
      fun other => if_neg other
    have hand : (Model.writerStep conf s stats io).hand =
        writeStep lib.toTsFuncs conf s.hand stats io := rfl
    cases pc : s.hand.write.pc with
    | found =>
        refine h.counted (n := 0) ?_ (total (by simp [pc])) log ?_
        · rw [hand, writeStep, pc]
          exact counted_show small stats
        · rw [hand, writeStep, pc]
          rfl
    | sending =>
        refine h.counted (n := (frameWrite s.hand.write.output s.frame io).counted) ?_
          (if_pos pc) log ?_
        · rw [hand, writeStep, pc]
          exact counted_frameWrite small s.frame io
        · rw [hand, writeStep, pc]
          rfl
    | draining =>
        have reset : writeStep lib.toTsFuncs conf s.hand stats io = s.hand.resetBytes := by
          rw [writeStep, pc]
          exact if_neg fun more => now ⟨pc, more⟩
        refine h.congr ?_ (total (by simp [pc])) log ?_ <;>
        · rw [hand, reset]
          rfl
    | waiting =>
        refine h.congr ?_ (total (by simp [pc])) log ?_ <;>
        · rw [hand, writeStep, pc]
          dsimp only
          split <;> rfl
    | headers i =>
        refine h.congr ?_ (total (by simp [pc])) log ?_ <;>
        · rw [hand, writeStep, pc]
          dsimp only
          split <;> rfl
    | releasing =>
        refine h.congr ?_ (total (by simp [pc])) log ?_ <;>
        · rw [hand, writeStep, pc]
          rfl
    | switching =>
        refine h.congr ?_ (total (by simp [pc])) log ?_ <;>
        · rw [hand, writeStep, pc]
          rfl

private theorem Watched.mixerStep {s : World lib} (h : Watched conf s) (flows : Flows conf s) :
    Watched conf (mixerStep conf s) := by
  have same : (handTurn s).write = s.hand.write ∧ (handTurn s).handed = s.hand.handed := by
    have step : ∀ put, (mixStep s.hand put).write = s.hand.write ∧
        (mixStep s.hand put).handed = s.hand.handed := by
      intro put
      obtain ⟨write, handed, -⟩ := mixStep_frame flows.kept put
      exact ⟨write, handed⟩
    rw [handTurn]
    split
    · split
      · exact step _
      · exact ⟨rfl, rfl⟩
    · exact step _
  exact h.congr (congrArg (·.output) same.1) rfl rfl same.2

variable {tf : TimeFuncs lib.toTsFuncs} {lineup : Lineup} {psi : PsiOutput lib.toTsFuncs}
  {ifd ofd : Bool} {rtpSsrc : ℕ}

private theorem watched_after (steps : List (WorldStep lib)) :
    Watched conf (worldAfter conf tf lineup psi ifd ofd rtpSsrc steps) := by
  induction steps using List.reverseRecOn with
  | nil => exact ⟨logged_traceStart lib.toTsFuncs conf ofd rtpSsrc, rfl⟩
  | append_singleton steps step ih =>
      have flows : Flows conf (worldAfter conf tf lineup psi ifd ofd rtpSsrc steps) :=
        flows_after steps
      rw [worldAfter_concat]
      cases step with
      | psi call => exact ih.congr rfl rfl rfl rfl
      | packet i p => exact ih.congr rfl rfl rfl rfl
      | reconnect i => exact ih.congr rfl rfl rfl rfl
      | stop i => exact ih.congr rfl rfl rfl rfl
      | mix => exact ih.mixerStep flows
      | write stats io => exact ih.writerStep flows stats io

end writer

section source

variable {lib : Libs} {conf : Config}

/-- The packets of a PID that carry a PCR. -/
def pcrsOn (ts : TsFuncs) (pid : ℕ) (packets : List Packet) : List Packet :=
  packets.filter fun p => ts.getPid p = pid ∧ ts.hasPcr p = true

/-- The stamps of a PID, in the order the writer handled the packets. -/
def stampsOn (s : World lib) (pid : ℕ) : List Stamp := s.log.filter fun b => b.pid = pid

/-- No other buffer than that of input `i` has held a PCR packet of the PID. -/
def Alone (s : World lib) (i : ℕ) (pid : ℕ) : Prop :=
  ∀ o b, o ≠ .input i → source s.mix o = some b → pcrsOn lib.toTsFuncs pid b.filled = []

private theorem handed_published {s : World lib} (h : Flows conf s) :
    s.hand.handed.flatten <+: s.hand.published.flatten := by
  have stream : s.hand.handed ++ (slots s.hand).queue = s.hand.published.flatMap framesOf :=
    h.kept.stream
  rw [← flatten_flatMap_framesOf h.sizes, ← stream, List.flatten_append]
  exact List.prefix_append _ _

private theorem map_received {s : World lib} (watched : Watched conf s) {pid : ℕ}
    (data : pid ≠ nullPid) :
    (stampsOn s pid).map Stamp.received = pcrsOn lib.toTsFuncs pid s.hand.handed.flatten := by
  have unmarked : ∀ p, lib.getPid p = pid → markNull lib.toTsFuncs p = p := by
    intro p own
    exact if_neg (own ▸ data)
  have notes := congrArg (fun l => (l.filter fun x => x.1 = pid).map Prod.snd) watched.notes
  simp only [List.filter_map, List.map_map, List.filter_filter] at notes
  rw [stampsOn, pcrsOn]
  apply notes.trans
  have same : (s.hand.handed.flatten.filter fun p => (lib.getPid p = pid) &&
      lib.hasPcr (markNull lib.toTsFuncs p)) =
      s.hand.handed.flatten.filter fun p => lib.getPid p = pid ∧ lib.hasPcr p = true := by
    apply List.filter_congr
    intro p _
    by_cases own : lib.getPid p = pid
    · rw [unmarked p own]
      simp [own]
    · simp [own]
  refine Eq.trans (List.map_congr_left fun p member => ?_) ((List.map_id _).trans same)
  have own := List.of_mem_filter member
  simp only [Function.comp_apply, Bool.and_eq_true, decide_eq_true_eq] at own
  exact unmarked p own.1

private theorem received_prefix {s : World lib} (watched : Watched conf s) (flows : Flows conf s)
    {i : ℕ}
    {r : Input} (found : s.mix.inputs[i]? = some r) {pid : ℕ} (data : pid ≠ nullPid)
    (alone : Alone s i pid) :
    (stampsOn s pid).map Stamp.received <+: pcrsOn lib.toTsFuncs pid r.buf.filled := by
  obtain ⟨moved, merged⟩ := flows.merged
  have from_input : source s.mix (.input i) = some r.buf.toFifo := by
    rw [source, found]
    rfl
  have whole := merged.filter_of_origin
    (fun p => lib.getPid p = pid ∧ lib.hasPcr p = true) from_input
    (by simp [Ne.symm data]) fun o b other found' p taken => by
      have none := List.filter_eq_nil_iff.mp (alone o b other found') p
        (List.mem_append_left _ taken)
      simpa using none
  rw [map_received watched data]
  apply ((handed_published flows).filter _).trans
  have part : s.hand.published.flatten <+:
      s.hand.published.flatten ++ current s.mix ++ pending s.mix.pc := by
    rw [List.append_assoc]
    exact List.prefix_append _ _
  apply (part.filter _).trans
  rw [whole]
  exact (List.prefix_append r.buf.taken r.buf.waiting).filter _

variable {tf : TimeFuncs lib.toTsFuncs} {lineup : Lineup} {psi : PsiOutput lib.toTsFuncs}
  {ifd ofd : Bool} {rtpSsrc : ℕ}

variable (conf tf) in
private theorem filled_step {s : World lib}
    (stocked : Each (fun _ c r => Stocked lib c r) lineup.channels s.mix.inputs)
    (step : WorldStep lib) {i : ℕ} {r : Input} (found : s.mix.inputs[i]? = some r) :
    ∃ r', (worldStep conf tf s step).mix.inputs[i]? = some r' ∧ r.buf.filled <+: r'.buf.filled := by
  have event : ∀ j e, e ≠ .take → ∃ r', (onInput conf s j e).mix.inputs[i]? = some r' ∧
      r.buf.filled <+: r'.buf.filled := by
    intro j e other
    show ∃ r', (s.mix.inputs.modify j fun r => inputStep lib conf r e)[i]? = some r' ∧ _
    by_cases own : j = i
    · subst own
      obtain ⟨c, there, one⟩ := stocked.exists_channel found
      have member := List.mem_of_getElem? there
      refine ⟨inputStep lib conf r e, by rw [List.getElem?_modify_eq, found]; rfl, ?_⟩
      cases e with
      | packet p =>
          obtain ⟨data, pushed, -⟩ :=
            one.fifo_inputPacket conf (lineup.made c member) (lineup.low c member) p
          show r.buf.filled <+: (inputPacket lib conf r p).2.buf.toFifo.filled
          rw [pushed, Fifo.filled_push]
          exact List.prefix_append _ _
      | reconnect => exact List.prefix_rfl
      | take => exact absurd rfl other
      | stop => exact List.prefix_rfl
    · exact ⟨r, by rw [List.getElem?_modify_ne _ _ own, found], List.prefix_rfl⟩
  cases step with
  | psi call => exact ⟨r, found, List.prefix_rfl⟩
  | packet j p => exact event j _ (by simp)
  | reconnect j => exact event j _ (by simp)
  | stop j => exact event j _ (by simp)
  | mix =>
      show ∃ r', (if s.hand.mix.pc = .found ∨ s.hand.mix.pc = .filling then
        mixTurn lib.toTsFuncs conf s.mix else s.mix).inputs[i]? = some r' ∧ _
      split
      · have visited := (visited_mixTurn lib.toTsFuncs conf s.mix).1
        have inside : i < (mixTurn lib.toTsFuncs conf s.mix).inputs.length := by
          rw [visited.length]
          exact (List.getElem?_eq_some_iff.mp found).1
        obtain ⟨r₀, before, one⟩ := visited.each i _ (List.getElem?_eq_getElem inside)
        obtain rfl := Option.some.inj (found.symm.trans before)
        exact ⟨_, List.getElem?_eq_getElem inside, one.filled ▸ List.prefix_rfl⟩
      · exact ⟨r, found, List.prefix_rfl⟩
  | write stats io => exact ⟨r, found, List.prefix_rfl⟩

private theorem filled_run (front rest : List (WorldStep lib)) {i : ℕ} {r : Input}
    (found : (worldAfter conf tf lineup psi ifd ofd rtpSsrc front).mix.inputs[i]? = some r) :
    ∃ r', (worldAfter conf tf lineup psi ifd ofd rtpSsrc (front ++ rest)).mix.inputs[i]? = some r' ∧
      r.buf.filled <+: r'.buf.filled := by
  induction rest using List.reverseRecOn with
  | nil => exact ⟨r, by rwa [List.append_nil], List.prefix_rfl⟩
  | append_singleton rest step ih =>
      obtain ⟨r', found', grown⟩ := ih
      have stocked : Each (fun _ c r => Stocked lib c r) lineup.channels
          (worldAfter conf tf lineup psi ifd ofd rtpSsrc (front ++ rest)).mix.inputs :=
        each_after (stocked_law lib conf) fun _ _ _ _ _ _ _ _ => trivial
      obtain ⟨r'', found'', more⟩ := filled_step conf tf stocked step found'
      rw [← List.append_assoc, worldAfter_concat]
      exact ⟨r'', found'', grown.trans more⟩

end source

/-- In every run of all threads in a mode that rewrites PCRs, a PCR packet leaves with its own PCR
exactly when the PCR stamped before on its PID, if any, `Anchors` it. This holds of all stamps; the
first one of the source an input has reconnected to is the one that follows, on its PID, the stamps
of the PCR packets its buffer had held by then. -/
theorem reanchored_iff (lib : Libs) (conf : Config) (tf : TimeFuncs lib.toTsFuncs)
    (lineup : Lineup) (psi : PsiOutput lib.toTsFuncs) (ifd ofd : Bool) (rtpSsrc : ℕ)
    (rewriting : conf.pcrMode = 2 ∨ conf.pcrMode = 3) (steps : List (WorldStep lib)) :
    (∀ before b after,
      (worldAfter conf tf lineup psi ifd ofd rtpSsrc steps).log = before ++ b :: after →
      (Reanchored lib.toTsFuncs b ↔ ∀ a, latest before b.pid = some a →
        Anchors lib.toTsFuncs conf a b)) ∧
    ∀ front rest i r₀ r pid, steps = front ++ .reconnect i :: rest →
      (worldAfter conf tf lineup psi ifd ofd rtpSsrc front).mix.inputs[i]? = some r₀ →
      (worldAfter conf tf lineup psi ifd ofd rtpSsrc steps).mix.inputs[i]? = some r →
      pid ≠ nullPid → Alone (worldAfter conf tf lineup psi ifd ofd rtpSsrc steps) i pid →
      ∀ b, (stampsOn (worldAfter conf tf lineup psi ifd ofd rtpSsrc steps) pid)[
          (pcrsOn lib.toTsFuncs pid r₀.buf.filled).length]? = some b →
        (pcrsOn lib.toTsFuncs pid (r.buf.filled.drop r₀.buf.filled.length)).head? =
          some b.received := by
  have watched : Watched conf (worldAfter conf tf lineup psi ifd ofd rtpSsrc steps) :=
    watched_after steps
  have flows : Flows conf (worldAfter conf tf lineup psi ifd ofd rtpSsrc steps) := flows_after steps
  refine ⟨?_, ?_⟩
  · intro before b after log
    exact reanchored_of_logged watched.logged rewriting log
  · intro front rest i r₀ r pid same found₀ found data alone b stamp
    obtain ⟨r', found', rest', whole⟩ := filled_run front (.reconnect i :: rest) found₀
    rw [← same] at found'
    obtain rfl := Option.some.inj (found.symm.trans found')
    have part := received_prefix watched flows found data alone
    rw [← whole, List.drop_left]
    rw [← whole, pcrsOn, List.filter_append] at part
    have there : ((stampsOn (worldAfter conf tf lineup psi ifd ofd rtpSsrc steps) pid).map
        Stamp.received)[(pcrsOn lib.toTsFuncs pid r₀.buf.filled).length]? = some b.received := by
      rw [List.getElem?_map, stamp]
      rfl
    obtain ⟨inside, stamped⟩ := List.getElem?_eq_some_iff.mp there
    have next := List.prefix_iff_getElem?.mp part _ inside
    rw [stamped] at next
    rw [pcrsOn] at next ⊢
    rw [List.getElem?_append_right le_rfl, Nat.sub_self] at next
    rw [List.head?_eq_getElem?]
    exact next

/-- A channel with a second source. -/
def twoSources : Lineup where
  channels := [chansrcAdd (sampleChannel 1 0) "udp://239.0.0.2:5000/"]
  made c member := by
    obtain rfl := List.mem_singleton.mp member
    obtain ⟨positive, small, base, pmt⟩ :=
      sampleChannel_made (by norm_num) (by norm_num : 1 < 256) 0
    exact ⟨positive, small, base, pmt⟩
  low c member := by
    obtain rfl := List.mem_singleton.mp member
    show 1 < 32
    norm_num

/-- Two megabits, in a mode that rewrites PCRs. -/
def restampConfig : Config := { slowConfig with pcrMode := 2 }

/-- What a source sends up to its first PCR. -/
def sourcePackets (base : ℕ) : List (WorldStep sectionLibs) :=
  (patPackets [⟨1, 0x100⟩] ++ pmtPackets 0x100 1 0x101 [0x101, 0x102] ++
    [pcrPacket 0x101 base]).map (.packet 0)

/-- The first PCR of one source, and after a failover that of the other. -/
def failoverSteps (base : ℕ) : List (WorldStep sectionLibs) :=
  sourcePackets 90000 ++ .reconnect 0 :: sourcePackets base ++ List.replicate 16 .mix ++
    List.replicate 36 (.write false ⟨1316, 0, 0⟩)

/-- All threads after these steps. -/
def failoverWorld (base : ℕ) : World sectionLibs :=
  worldAfter restampConfig sampleTimeFuncs twoSources samplePsi false false 0 (failoverSteps base)

/-- After a jump back the new source's PCR is stamped. -/
theorem back_jump_reanchored :
    ∃ a b, (failoverWorld 900).log = [a, b] ∧ b.orgPcr < a.orgPcr ∧
      Reanchored sectionLibs.toTsFuncs b := by
  have orgs : (failoverWorld 900).log.map Stamp.orgPcr = [27000000, 270000] := by decide +kernel
  obtain ⟨a, l, log, first, rest⟩ := List.map_eq_cons_iff.mp orgs
  obtain ⟨b, l', rfl, second, none⟩ := List.map_eq_cons_iff.mp rest
  obtain rfl := List.map_eq_nil_iff.mp none
  refine ⟨a, b, log, by omega, ?_⟩
  refine ((reanchored_iff sectionLibs restampConfig sampleTimeFuncs twoSources samplePsi false
    false 0 (Or.inl rfl) (failoverSteps 900)).1 [a] b [] log).mpr fun x last => ?_
  obtain rfl := List.mem_singleton.mp (mem_of_latest last)
  exact Or.inr (Or.inl (by omega))

/-- After a jump ahead the new source's first PCR is replaced: the old clock runs on. -/
theorem ahead_jump_not_reanchored :
    (restampConfig.pcrMode = 2 ∨ restampConfig.pcrMode = 3) ∧
      ∃ r₀ b, (worldAfter restampConfig sampleTimeFuncs twoSources samplePsi false false 0
          (sourcePackets 90000)).mix.inputs[0]? = some r₀ ∧
        (stampsOn (failoverWorld 900000) 33)[
          (pcrsOn sectionLibs.toTsFuncs 33 r₀.buf.filled).length]? = some b ∧
        b.orgPcr = 900000 * 300 ∧ ¬ Reanchored sectionLibs.toTsFuncs b := by
  have held : ((worldAfter restampConfig sampleTimeFuncs twoSources samplePsi false false 0
      (sourcePackets 90000)).mix.inputs[0]?).map (fun r =>
        (pcrsOn sectionLibs.toTsFuncs 33 r.buf.filled).length) = some 1 := by decide +kernel
  have stamp : ((stampsOn (failoverWorld 900000) 33)[1]?).map (fun b => (b.orgPcr, b.kept)) =
      some (270000000, 28360150) := by decide +kernel
  obtain ⟨r₀, found, one⟩ := Option.map_eq_some_iff.mp held
  obtain ⟨b, second, values⟩ := Option.map_eq_some_iff.mp stamp
  obtain ⟨org, kept⟩ := Prod.mk.inj values
  refine ⟨Or.inl rfl, r₀, b, found, one ▸ second, org, ?_⟩
  rintro ⟨own, -⟩
  omega

end Mptsd.Pipeline.Failover
