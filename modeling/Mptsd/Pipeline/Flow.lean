/- Unit: Mptsd/Pipeline/Flow
   source: src/output_mix.c (output_handle_mix), src/output_write.c (output_handle_write)
   digest: What the network is given comes, packet for packet and in order, from what was taken out
   of the PSI buffer and the buffers of the inputs. -/

import Mptsd.Handoff.Sending
import Mptsd.Mixer.Merge
import Mptsd.Pipeline.Model

set_option autoImplicit false
set_option relaxedAutoImplicit false

namespace Mptsd.Pipeline.Flow

open Mptsd.TsPacket
open Mptsd.Conf (Config)
open Mptsd.Lib.Queue (Fifo)
open Mptsd.PsiTables
open Mptsd.Psi.Model
open Mptsd.Intake.Model (Input)
open Mptsd.Mixer.Model (Mix Origin Arrives mixTurn mixTurn_step scanInput_frame startFill)
open Mptsd.Mixer.Fill (source pending scanInput_place)
open Mptsd.Mixer.Observer (Sound)
open Mptsd.Mixer.Merge (Merged current merged_nil)
open Mptsd.Writer.Model (FrameIo)
open Mptsd.Handoff.Model (State mixStep writeStep)
open Mptsd.Handoff.Safety (Kept kept_start)
open Mptsd.Handoff.Sending (Kin SentOf writeStep_frame sent_start)
open Mptsd.Pipeline.Model

variable {lib : Libs} (conf : Config) {tf : TimeFuncs lib.toTsFuncs}

/-- The invariant of all threads: the buffer the mixer fills is the one the two output threads see,
and what is published or being filled is what has been taken from the buffers. -/
structure Flows (s : World lib) : Prop where
  kept : Kept conf.rate.obufFrames s.hand
  sound : Sound lib.toTsFuncs conf s.mix
  filling : s.hand.mix.pc = .filling → s.mix.pc ≠ .waiting ∧ s.hand.mixBuf.buf = s.mix.buf
  idle : s.hand.mix.pc ≠ .filling → s.mix.pc = .waiting
  sizes : ∀ buf ∈ s.hand.published, buf.length = 7 * conf.rate.obufFrames
  merged : ∃ moved, Merged s.hand.published.flatten s.mix moved
  sent : SentOf lib.toTsFuncs s.hand s.sent

variable {conf} {s s' : World lib}

variable (conf) in
private theorem buf_mixTurn (ts : TsFuncs) {m : Mix} (started : m.pc ≠ .waiting)
    (unfinished : m.pc ≠ .full) :
    (mixTurn ts conf m).pc ≠ .waiting ∧ (mixTurn ts conf m).buf =
      match putOf m with
      | some x => m.buf.set x.1 x.2
      | none => m.buf := by
  have step := mixTurn_step ts conf m
  generalize mixTurn ts conf m = after at step ⊢
  rw [putOf]
  cases step with
  | start pc => exact absurd pc started
  | @visit left readCount pc =>
      rw [pc]
      refine ⟨(scanInput_place ts conf m left readCount).2.2.2.1, ?_⟩
      obtain ⟨inputs, pc, removed, same, -⟩ := scanInput_frame ts conf m left readCount
      rw [same]
  | overrun pc outside =>
      simp only [pc]
      rw [if_pos outside]
      exact ⟨by simp, rfl⟩
  | place pc inside =>
      simp only [pc]
      rw [if_neg inside]
      exact ⟨by simp [Mixer.Model.countSlot], rfl⟩
  | wait pc => exact absurd pc unfinished
  | takePsi pc | toInputs pc | done pc | again pc | nothing pc | skip pc =>
      rw [pc]
      exact ⟨by simp [Mixer.Model.countSlot], rfl⟩

private theorem startFill_clean (m : Mix) :
    (startFill m).pc ≠ .waiting ∧ (startFill m).buf = List.replicate m.maxPackets nullPacket := by
  rw [startFill]
  dsimp only
  split
  · exact ⟨by simp, rfl⟩
  · exact ⟨by simp, rfl⟩

theorem Flows.arrive (h : Flows conf s) (hand : s'.hand = s.hand) (sent : s'.sent = s.sent)
    (arrives : Arrives lib.toTsFuncs s.mix s'.mix) : Flows conf s' := by
  have pc : s'.mix.pc = s.mix.pc := by rw [arrives.rest]
  have buf : s'.mix.buf = s.mix.buf := by rw [arrives.rest]
  obtain ⟨moved, merged⟩ := h.merged
  refine ⟨?_, h.sound.arrive arrives, ?_, ?_, ?_, ?_, ?_⟩
  · rw [hand]
    exact h.kept
  · rw [hand, pc, buf]
    exact h.filling
  · rw [hand, pc]
    exact h.idle
  · rw [hand]
    exact h.sizes
  · rw [hand]
    exact ⟨moved, merged.arrive arrives⟩
  · rw [hand, sent]
    exact h.sent

section mixer

private theorem Flows.mixer_idle (h : Flows conf s) (found : s.hand.mix.pc ≠ .found)
    (filling : s.hand.mix.pc ≠ .filling) : Flows conf (mixerStep conf s) := by
  have hand : handTurn s = mixStep s.hand none := if_neg (fun both => filling both.1)
  have mix : (mixerStep conf s).mix = s.mix := if_neg (by simp [found, filling])
  have kept := h.kept.mixStep none
  have sent := h.sent.mixStep h.kept none
  have next : (mixStep s.hand none).mix.pc ≠ .filling ∧
      (mixStep s.hand none).published = s.hand.published := by
    rw [mixStep]
    cases pc : s.hand.mix.pc with
    | waiting =>
        dsimp only
        split
        · exact ⟨(by rintro ⟨⟩), rfl⟩
        · exact ⟨by simp [pc], rfl⟩
    | found => exact absurd pc found
    | filling => exact absurd pc filling
    | switching => exact ⟨(by rintro ⟨⟩), rfl⟩
  refine ⟨?_, ?_, ?_, ?_, ?_, ?_, ?_⟩
  · show Kept _ (handTurn s)
    rw [hand]
    exact kept
  · rw [mix]
    exact h.sound
  · show (handTurn s).mix.pc = _ → _
    rw [hand]
    exact fun e => absurd e next.1
  · rw [mix]
    exact fun _ => h.idle filling
  · show ∀ buf ∈ (handTurn s).published, _
    rw [hand, next.2]
    exact h.sizes
  · show ∃ moved, Merged (handTurn s).published.flatten _ moved
    rw [hand, next.2, mix]
    exact h.merged
  · show SentOf _ (handTurn s) s.sent
    rw [hand]
    exact sent

private theorem Flows.mixer_found (h : Flows conf s) (found : s.hand.mix.pc = .found) :
    Flows conf (mixerStep conf s) := by
  have hand : handTurn s = s.hand.markFilling := by
    rw [handTurn, if_neg (by simp [found]), mixStep, found]
  have mix : (mixerStep conf s).mix = startFill s.mix := by
    have waiting := h.idle (by simp [found])
    show (if _ then mixTurn lib.toTsFuncs conf s.mix else s.mix) = _
    rw [if_pos (Or.inl found), mixTurn, waiting]
  obtain ⟨moved, merged⟩ := h.merged
  have waiting := h.idle (by simp [found])
  have kept := h.kept.mixStep none
  have sent := h.sent.mixStep h.kept none
  have sound := h.sound.mixTurn.1
  rw [show mixTurn lib.toTsFuncs conf s.mix = startFill s.mix by rw [mixTurn, waiting]] at sound
  rw [show mixStep s.hand none = s.hand.markFilling by rw [mixStep, found]] at kept sent
  have clean := h.kept.clean _ (h.kept.claimed found)
  refine ⟨?_, ?_, ?_, ?_, ?_, ?_, ?_⟩
  · show Kept _ (handTurn s)
    rw [hand]
    exact kept
  · rw [mix]
    exact sound
  · intro _
    have mixBuf : (handTurn s).mixBuf.buf = s.hand.mixBuf.buf := by
      rw [hand]
      simp [State.markFilling, State.mixBuf, State.setMixPc, State.setObuf]
    show _ ∧ (handTurn s).mixBuf.buf = _
    rw [mix, mixBuf, (startFill_clean s.mix).2, h.sound.size]
    exact ⟨(startFill_clean s.mix).1, clean⟩
  · show (handTurn s).mix.pc ≠ _ → _
    rw [hand]
    exact fun other => absurd rfl other
  · show ∀ buf ∈ (handTurn s).published, _
    rw [hand]
    exact h.sizes
  · show ∃ moved, Merged (handTurn s).published.flatten _ moved
    rw [hand, mix]
    exact ⟨moved, merged.startFill waiting⟩
  · show SentOf _ (handTurn s) s.sent
    rw [hand]
    exact sent

private theorem Flows.mixer_fill (h : Flows conf s) (filling : s.hand.mix.pc = .filling)
    (unfinished : s.mix.pc ≠ .full) : Flows conf (mixerStep conf s) := by
  obtain ⟨started, buf⟩ := h.filling filling
  obtain ⟨moved, merged⟩ := h.merged
  obtain ⟨running, put⟩ := buf_mixTurn conf lib.toTsFuncs started unfinished
  have mix : (mixerStep conf s).mix = mixTurn lib.toTsFuncs conf s.mix := if_pos (Or.inr filling)
  obtain ⟨more, merged⟩ := merged.mixTurn h.sound unfinished
  have same : Kept conf.rate.obufFrames (handTurn s) ∧ SentOf lib.toTsFuncs (handTurn s) s.sent ∧
      (handTurn s).mix.pc = .filling ∧ (handTurn s).published = s.hand.published ∧
      (handTurn s).mixBuf.buf = (mixTurn lib.toTsFuncs conf s.mix).buf := by
    rw [put, handTurn, if_pos ⟨filling, unfinished⟩]
    cases putOf s.mix with
    | none => exact ⟨h.kept, h.sent, filling, rfl, buf⟩
    | some x =>
        have kept := h.kept.mixStep (some x)
        have sent := h.sent.mixStep h.kept (some x)
        have put : mixStep s.hand (some x) = s.hand.putPacket x.1 x.2 := by
          rw [mixStep, filling]
        dsimp only
        rw [put] at kept sent ⊢
        refine ⟨kept, sent, filling, rfl, ?_⟩
        rw [← buf]
        simp [State.putPacket, State.mixBuf, State.setObuf]
  obtain ⟨kept, sent, pc, published, mixBuf⟩ := same
  refine ⟨kept, ?_, ?_, ?_, ?_, ?_, sent⟩
  · rw [mix]
    exact h.sound.mixTurn.1
  · rw [mix]
    exact fun _ => ⟨running, mixBuf⟩
  · exact fun other => absurd pc other
  · show ∀ buf ∈ (handTurn s).published, _
    rw [published]
    exact h.sizes
  · show ∃ moved, Merged (handTurn s).published.flatten _ moved
    rw [published, mix]
    exact ⟨_, merged⟩

private theorem Flows.mixer_full (h : Flows conf s) (filling : s.hand.mix.pc = .filling)
    (full : s.mix.pc = .full) : Flows conf (mixerStep conf s) := by
  obtain ⟨-, buf⟩ := h.filling filling
  obtain ⟨moved, merged⟩ := h.merged
  have hand : handTurn s = s.hand.markFull := by
    rw [handTurn, if_neg (by simp [full]), mixStep, filling]
  have mix : (mixerStep conf s).mix = mixTurn lib.toTsFuncs conf s.mix := if_pos (Or.inr filling)
  have next : (mixTurn lib.toTsFuncs conf s.mix).pc = .waiting := by
    rw [mixTurn, full]
  have kept := h.kept.mixStep none
  have sent := h.sent.mixStep h.kept none
  rw [show mixStep s.hand none = s.hand.markFull by rw [mixStep, filling]] at kept sent
  have published : (handTurn s).published = s.hand.published ++ [s.mix.buf] := by
    rw [hand, ← buf]
    rfl
  refine ⟨?_, ?_, ?_, ?_, ?_, ?_, ?_⟩
  · show Kept _ (handTurn s)
    rw [hand]
    exact kept
  · rw [mix]
    exact h.sound.mixTurn.1
  · show (handTurn s).mix.pc = _ → _
    rw [hand]
    rintro ⟨⟩
  · rw [mix]
    exact fun _ => next
  · show ∀ buf ∈ (handTurn s).published, _
    rw [published]
    intro b member
    rcases List.mem_append.mp member with old | new
    · exact h.sizes b old
    · rw [List.mem_singleton.mp new, ← buf]
      exact h.kept.whole _
  · show ∃ moved, Merged (handTurn s).published.flatten _ moved
    rw [published, mix, List.flatten_append, List.flatten_singleton]
    exact ⟨moved, merged.mixTurn_full full⟩
  · show SentOf _ (handTurn s) s.sent
    rw [hand]
    exact sent

theorem Flows.mixerStep (h : Flows conf s) : Flows conf (mixerStep conf s) := by
  cases pc : s.hand.mix.pc with
  | waiting => exact h.mixer_idle (by simp [pc]) (by simp [pc])
  | found => exact h.mixer_found pc
  | filling =>
      by_cases full : s.mix.pc = .full
      · exact h.mixer_full pc full
      · exact h.mixer_fill pc full
  | switching => exact h.mixer_idle (by simp [pc]) (by simp [pc])

end mixer

theorem Flows.writerStep (h : Flows conf s) (stats : Bool) (io : FrameIo) :
    Flows conf (writerStep conf s stats io) := by
  obtain ⟨mix, published, same⟩ := writeStep_frame lib.toTsFuncs conf h.kept stats io
  refine ⟨h.kept.writeStep _ conf stats io, h.sound, ?_, ?_, ?_, ?_, ?_⟩
  · show (writeStep _ conf s.hand stats io).mix.pc = _ →
      _ ∧ (writeStep _ conf s.hand stats io).mixBuf.buf = s.mix.buf
    rw [State.mixBuf, mix]
    intro filling
    rw [same _ ((h.kept.filling _).mpr ⟨filling, rfl⟩)]
    exact h.filling filling
  · show (writeStep _ conf s.hand stats io).mix.pc ≠ _ → _
    rw [mix]
    exact h.idle
  · show ∀ buf ∈ (writeStep _ conf s.hand stats io).published, _
    rw [published]
    exact h.sizes
  · show ∃ moved, Merged (writeStep _ conf s.hand stats io).published.flatten s.mix moved
    rw [published]
    exact h.merged
  · exact h.sent.writeStep conf h.kept stats io

theorem flows_start (psi : PsiOutput lib.toTsFuncs) {inputs : List Input}
    (fresh : ∀ r ∈ inputs, r.buf.taken = [] ∧ r.buf.waiting = []) (ofd : Bool) (rtpSsrc : ℕ) :
    Flows conf (worldStart conf psi inputs ofd rtpSsrc) where
  kept := kept_start conf ofd rtpSsrc
  sound := by
    refine ⟨rfl, le_rfl, ?_, fun started => absurd rfl started⟩
    intro r member p stored
    rw [(fresh r member).2] at stored
    cases stored
  filling := fun e => nomatch e
  idle := fun _ => rfl
  sizes := fun _ member => nomatch member
  merged := by
    refine ⟨[], merged_nil rfl ?_⟩
    intro o q found
    cases o with
    | psi =>
        obtain rfl := Option.some.inj found
        rfl
    | input i =>
        obtain ⟨r, at_i, rfl⟩ := Option.map_eq_some_iff.mp found
        exact (fresh r (List.mem_of_getElem? at_i)).1
  sent := sent_start ofd rtpSsrc

section consequences

private theorem Flows.exists_prefix (h : Flows conf s) :
    ∃ moved front, Merged s.hand.published.flatten s.mix moved ∧
      front <+: s.hand.published.flatten ++ current s.mix ++ pending s.mix.pc ∧
      List.Forall₂ (Kin lib.toTsFuncs) front s.sent.flatten := by
  obtain ⟨moved, merged⟩ := h.merged
  obtain ⟨front, part, kin⟩ := h.sent.exists_prefix h.kept h.sizes
  refine ⟨moved, front, merged, part.trans ?_, kin⟩
  rw [List.append_assoc]
  exact List.prefix_append _ _

theorem Flows.mem_sent (h : Flows conf s) {frame : Frame} (written : frame ∈ s.sent) {q : Packet}
    (member : q ∈ frame) :
    ∃ p, Kin lib.toTsFuncs p q ∧
      (p = nullPacket ∨ ∃ o b, source s.mix o = some b ∧ p ∈ b.taken) := by
  obtain ⟨moved, front, merged, part, kin⟩ := h.exists_prefix
  have flat : q ∈ s.sent.flatten := List.mem_flatten.mpr ⟨frame, written, member⟩
  obtain ⟨j, inside, rfl⟩ := List.mem_iff_getElem.mp flat
  obtain ⟨length, pairs⟩ := List.forall₂_iff_get.mp kin
  have inside' : j < front.length := length ▸ inside
  refine ⟨front[j], pairs j inside' inside, merged.mem_source (part.subset ?_)⟩
  exact List.getElem_mem inside'

private theorem conts_of_kin {ts : TsFuncs} {l l' : List Packet} (kin : List.Forall₂ (Kin ts) l l')
    {pid : ℕ} (data : pid ≠ nullPid) :
    (l'.filter (fun p => ts.getPid p = pid)).map ts.getCont =
      (l.filter (fun p => ts.getPid p = pid)).map ts.getCont := by
  induction kin with
  | nil => rfl
  | @cons p q l l' one rest ih =>
      rw [List.filter_cons, List.filter_cons, one.pid]
      by_cases own : ts.getPid p = pid
      · rw [if_pos (by simpa using own), if_pos (by simpa using own), List.map_cons, List.map_cons,
          ih, one.cont (own ▸ data)]
      · rw [if_neg (by simpa using own), if_neg (by simpa using own)]
        exact ih

theorem Flows.conts_prefix (h : Flows conf s) {o : Origin} {b : Fifo Packet}
    (found : source s.mix o = some b) {pid : ℕ} (data : pid ≠ nullPid)
    (own : ∀ o' b', o' ≠ o → source s.mix o' = some b' → ∀ p ∈ b'.taken, lib.getPid p ≠ pid) :
    (s.sent.flatten.filter (fun p => lib.getPid p = pid)).map lib.getCont <+:
      (b.filled.filter (fun p => lib.getPid p = pid)).map lib.getCont := by
  obtain ⟨moved, front, merged, part, kin⟩ := h.exists_prefix
  have whole := merged.filter_of_origin (fun p => lib.getPid p = pid) found
    (by simpa using Ne.symm data)
    (fun o' b' other found' p taken => by simpa using own o' b' other found' p taken)
  rw [conts_of_kin kin data]
  apply List.IsPrefix.map
  apply (part.filter _).trans
  rw [whole, Fifo.filled, List.filter_append]
  exact List.prefix_append _ _

end consequences

end Mptsd.Pipeline.Flow
