/- Unit: Mptsd/Pipeline/Merge
   source: src/input.c, src/output_psi.c, src/output_mix.c, src/output_write.c
   digest: What the program is for: its output is a merge of the streams of its channels and of
   its own tables, and of stuffing. -/

import Mptsd.Pipeline.Supply

set_option autoImplicit false
set_option relaxedAutoImplicit false

namespace Mptsd.Pipeline.Merge

open Mptsd.TsPacket
open Mptsd.Conf (Config)
open Mptsd.Lib.Queue (Fifo)
open Mptsd.Lib.TwoSlot (Slots)
open Mptsd.PsiTables (Libs)
open Mptsd.Psi.Model
open Mptsd.Intake.Stored (Stocked)
open Mptsd.Mixer.Model (Origin)
open Mptsd.Mixer.Fill (source takenFrom pending)
open Mptsd.Mixer.Merge (Merged current)
open Mptsd.Handoff.Model (State WritePc Obuf frameAt)
open Mptsd.Handoff.Safety
open Mptsd.Handoff.Sending (Kin SentOf inHand)
open Mptsd.Pipeline.Model
open Mptsd.Pipeline.Flow
open Mptsd.Pipeline.Supply

/-- The packets that are no stuffing. -/
def data (ts : TsFuncs) (packets : List Packet) : List Packet :=
  packets.filter fun p => ts.getPid p ≠ nullPid

variable {lib : Libs} {conf : Config} {tf : TimeFuncs lib.toTsFuncs} {lineup : Lineup}
  {psi : PsiOutput lib.toTsFuncs} {ifd ofd : Bool} {rtpSsrc : ℕ}

private theorem data_of_kin {ts : TsFuncs} {l l' : List Packet} (kin : List.Forall₂ (Kin ts) l l') :
    List.Forall₂ (Kin ts) (data ts l) (data ts l') := by
  induction kin with
  | nil => exact .nil
  | @cons p q l l' one rest ih =>
      rw [data, data, List.filter_cons, List.filter_cons, one.pid]
      by_cases stuffing : ts.getPid p = nullPid
      · rw [if_neg (by simpa using stuffing), if_neg (by simpa using stuffing)]
        exact ih
      · rw [if_pos (by simpa using stuffing), if_pos (by simpa using stuffing)]
        exact .cons one ih

private theorem source_data (steps : List (WorldStep lib)) {o : Origin} {b : Fifo Packet}
    (found : source (worldAfter conf tf lineup psi ifd ofd rtpSsrc steps).mix o = some b)
    {p : Packet} (stored : p ∈ b.filled) : lib.getPid p ≠ nullPid := by
  cases o with
  | psi =>
      obtain rfl := Option.some.inj found
      have generated : Generated lib
          (worldAfter conf tf lineup psi ifd ofd rtpSsrc steps).mix.psibuf :=
        psi_after (generated_law lib tf) (fun _ stored => nomatch stored) fun _ _ _ _ _ => trivial
      obtain ⟨g, pid⟩ := generated p stored
      rw [pid]
      cases g <;> decide
  | input i =>
      obtain ⟨r, at_i, rfl⟩ := Option.map_eq_some_iff.mp found
      have stocked : Each (fun _ c r => Stocked lib c r) lineup.channels
          (worldAfter conf tf lineup psi ifd ofd rtpSsrc steps).mix.inputs :=
        each_after (stocked_law lib conf) fun _ _ _ _ _ _ _ _ => trivial
      obtain ⟨c, -, one⟩ := stocked.exists_channel at_i
      exact (one.pids p stored).2.2.2.2.ne

private theorem data_moved (steps : List (WorldStep lib)) {done : List Packet}
    {moved : List (Origin × Packet)}
    (merged : Merged done (worldAfter conf tf lineup psi ifd ofd rtpSsrc steps).mix moved) :
    data lib.toTsFuncs (moved.map Prod.snd) = moved.map Prod.snd := by
  refine List.filter_eq_self.mpr fun p member => ?_
  obtain ⟨x, place, rfl⟩ := List.mem_map.mp member
  obtain ⟨b, found⟩ := merged.known x place
  have taken : x.2 ∈ b.taken := by
    rw [← merged.taken x.1 b found]
    exact List.mem_map.mpr ⟨x, List.mem_filter.mpr ⟨place, by simp⟩, rfl⟩
  simpa using source_data steps found (List.mem_append_left _ taken)

section toCome

variable {ts : TsFuncs} {n : ℕ} {h : State} {sent : List Frame}

private theorem length_framesFrom_le (buf : List Packet) (k : ℕ) :
    (framesFrom buf k).flatten.length ≤ 7 * (buf.length / 7 - k) := by
  have frames : ∀ m ∈ (framesFrom buf k).map List.length, m ≤ 7 := by
    intro m member
    obtain ⟨frame, inside, rfl⟩ := List.mem_map.mp member
    obtain ⟨j, -, rfl⟩ := List.mem_map.mp inside
    exact List.length_take_le _ _
  have total := List.sum_le_card_nsmul _ _ frames
  rw [List.length_map, framesFrom, List.length_map, List.length_range', smul_eq_mul,
    Nat.mul_comm] at total
  rw [List.length_flatten]
  exact total

private theorem length_leftOf_le (pc : WritePc) (ob : Obuf) :
    (leftOf pc ob).flatten.length ≤ ob.buf.length := by
  have frames := length_framesFrom_le ob.buf
  unfold leftOf
  split
  · have := frames 0
    rw [framesOf]
    omega
  · split
    · exact (frames _).trans ((Nat.mul_le_mul_left 7 (Nat.sub_le _ _)).trans (Nat.mul_div_le _ 7))
    · exact (frames _).trans ((Nat.mul_le_mul_left 7 (Nat.sub_le _ _)).trans (Nat.mul_div_le _ 7))
    · exact Nat.zero_le _
  · exact Nat.zero_le _

private theorem length_inHand_le (kept : Kept n h) :
    (inHand h).flatten.length + ((slots h).left (nextWrite h.write)).flatten.length ≤ 7 * n := by
  have whole := kept.whole
  rw [inHand]
  by_cases sending : h.write.pc = .sending
  · have own : nextWrite h.write = h.write.bufInUse := by
      rw [nextWrite, sending]
      rfl
    have emptying : (h.obuf h.write.bufInUse).status = .emptying :=
      (kept.emptying _).mpr ⟨by rw [sending]; exact trivial, rfl⟩
    have frame : (frameAt h.writeBuf.buf h.writeBuf.written).length ≤ 7 := List.length_take_le _ _
    have later := length_framesFrom_le (h.obuf h.write.bufInUse).buf
      ((h.obuf h.write.bufInUse).written / framePacketSize + 1)
    have progress := kept.progress
    rw [sending, Progress] at progress
    obtain ⟨k, inside, -⟩ := progress
    rw [whole] at later
    have left : (slots h).left h.write.bufInUse = framesFrom (h.obuf h.write.bufInUse).buf
        ((h.obuf h.write.bufInUse).written / framePacketSize + 1) := by
      simp only [slots, leftOf, emptying, sending]
    rw [if_pos sending, own, left, List.flatten_singleton]
    generalize (h.obuf h.write.bufInUse).written / framePacketSize = place at later ⊢
    omega
  · rw [if_neg sending]
    have left := length_leftOf_le h.write.pc (h.obuf (nextWrite h.write))
    rw [whole] at left
    simpa [slots] using left

private theorem exists_back (sentOf : SentOf ts h sent) (kept : Kept n h)
    (sizes : ∀ buf ∈ h.published, buf.length = 7 * n) :
    ∃ front back, front ++ back = h.published.flatten ∧
      List.Forall₂ (Kin ts) front sent.flatten ∧
      back.length ≤ 14 * n ∧ (h.mix.pc = .filling → back.length ≤ 7 * n) := by
  have stream : h.handed ++ (slots h).queue = h.published.flatMap framesOf := kept.stream
  have flat : h.handed.flatten ++ (slots h).queue.flatten = h.published.flatten := by
    rw [← List.flatten_append, stream]
    exact Handoff.Sending.flatten_flatMap_framesOf sizes
  have cut : List.Forall₂ (List.Forall₂ (Kin ts)) (h.handed.take sent.length) sent := by
    have both := List.forall₂_take sent.length sentOf
    rwa [List.take_left] at both
  have rest : ((h.handed.drop sent.length).flatten).length = (inHand h).flatten.length :=
    (List.rel_flatten (List.forall₂_drop_append _ _ _ sentOf)).length_eq
  have first := length_inHand_le kept
  have second := length_leftOf_le h.write.pc (h.obuf (!nextWrite h.write))
  rw [kept.whole] at second
  have back : ((h.handed.drop sent.length).flatten ++ (slots h).queue.flatten).length =
      (inHand h).flatten.length + ((slots h).left (nextWrite h.write)).flatten.length +
        (leftOf h.write.pc (h.obuf (!nextWrite h.write))).flatten.length := by
    rw [List.length_append, rest, Slots.queue, List.flatten_append, List.length_append,
      Nat.add_assoc]
    rfl
  refine ⟨(h.handed.take sent.length).flatten,
    (h.handed.drop sent.length).flatten ++ (slots h).queue.flatten, ?_, List.rel_flatten cut,
    ?_, ?_⟩
  · rw [← flat, ← List.append_assoc, ← List.flatten_append, List.take_append_drop]
  · rw [back]
    omega
  · intro filling
    rw [back]
    have status : (h.obuf h.mix.bufInUse).status = .filling :=
      (kept.filling _).mpr ⟨filling, rfl⟩
    have nothing : leftOf h.write.pc (h.obuf h.mix.bufInUse) = [] := by simp only [leftOf, status]
    by_cases met : h.mix.bufInUse = nextWrite h.write
    · have idle : inHand h = [] := by
        rw [inHand, if_neg]
        intro sending
        have own : nextWrite h.write = h.write.bufInUse := by
          rw [nextWrite, sending]
          rfl
        have emptying : (h.obuf h.write.bufInUse).status = .emptying :=
          (kept.emptying _).mpr ⟨by rw [sending]; exact trivial, rfl⟩
        rw [← own, ← met, status] at emptying
        cases emptying
      have left : (slots h).left (nextWrite h.write) = [] := met ▸ nothing
      rw [idle, left]
      simpa using second
    · have other : h.mix.bufInUse = !nextWrite h.write := Bool.eq_not_of_ne met
      rw [← other, nothing]
      simpa using first

end toCome

private theorem length_toCome_le {s : World lib} (flows : Flows conf s) :
    ∃ moved front back, Merged s.hand.published.flatten s.mix moved ∧
      front ++ back = s.hand.published.flatten ++ current s.mix ++ pending s.mix.pc ∧
      List.Forall₂ (Kin lib.toTsFuncs) front s.sent.flatten ∧
      back.length ≤ 2 * conf.obufPackets + 1 := by
  obtain ⟨moved, merged⟩ := flows.merged
  obtain ⟨front, back, whole, kin, two, one⟩ := exists_back flows.sent flows.kept flows.sizes
  refine ⟨moved, front, back ++ current s.mix ++ pending s.mix.pc, merged, ?_, kin, ?_⟩
  · rw [← whole, List.append_assoc, List.append_assoc, List.append_assoc]
  · rw [Conf.Config.obufPackets, List.length_append, List.length_append]
    by_cases filling : s.hand.mix.pc = .filling
    · obtain ⟨started, same⟩ := flows.filling filling
      have size : (current s.mix).length = 7 * conf.rate.obufFrames := by
        rw [current, if_neg started, ← same]
        exact flows.kept.whole _
      have held : (pending s.mix.pc).length ≤ 1 := by
        unfold pending
        split
        · exact le_rfl
        · exact Nat.zero_le 1
      have := one filling
      omega
    · have waiting := flows.idle filling
      rw [current, if_pos waiting, waiting]
      simp only [pending, List.length_nil]
      omega

/-- In every run of all threads, and apart from stuffing: the packets given to the network are
those taken from the buffers, each once and those of one buffer in the order in which they were
stored; what has been taken besides is still to come after them, and is at most two output buffers
and the packet in the hands of the mixer.
Between the buffer and the network a packet keeps its PID and its continuity counter. -/
theorem output_is_merge (lib : Libs) (conf : Config) (tf : TimeFuncs lib.toTsFuncs)
    (lineup : Lineup) (psi : PsiOutput lib.toTsFuncs) (ifd ofd : Bool) (rtpSsrc : ℕ)
    (steps : List (WorldStep lib)) :
    let s := worldAfter conf tf lineup psi ifd ofd rtpSsrc steps
    ∃ moved toCome : List (Origin × Packet),
      List.Forall₂ (Kin lib.toTsFuncs) (moved.map Prod.snd) (data lib.toTsFuncs s.sent.flatten) ∧
        toCome.length ≤ 2 * conf.obufPackets + 1 ∧
        (∀ o b, source s.mix o = some b →
          takenFrom o moved ++ takenFrom o toCome ++ b.waiting = b.filled) ∧
        ∀ x ∈ moved ++ toCome, (source s.mix x.1).isSome := by
  intro s
  obtain ⟨moved, front, back, merged, split, kin, few⟩ :=
    length_toCome_le (show Flows conf s from flows_after steps)
  have stream := merged.stream (fun p => lib.getPid p ≠ nullPid) (by simp)
  have whole : data lib.toTsFuncs (moved.map Prod.snd) = moved.map Prod.snd :=
    data_moved steps merged
  have parts : data lib.toTsFuncs front ++ data lib.toTsFuncs back = moved.map Prod.snd := by
    rw [← whole, data, data, data, ← stream, ← split, List.filter_append]
  obtain ⟨first, rest, rfl, sent, left⟩ := List.map_eq_append_iff.mp parts.symm
  refine ⟨first, rest, ?_, ?_, ?_, ?_⟩
  · rw [sent]
    exact data_of_kin kin
  · rw [← List.length_map (f := Prod.snd), left]
    exact (List.length_filter_le _ _).trans few
  · intro o b found
    rw [Fifo.filled, ← merged.taken o b found, takenFrom, takenFrom, takenFrom, List.filter_append,
      List.map_append]
  · intro x member
    obtain ⟨b, found⟩ := merged.known x member
    exact Option.isSome_iff_exists.mpr ⟨b, found⟩

end Mptsd.Pipeline.Merge
