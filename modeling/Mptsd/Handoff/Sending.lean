/- Unit: Mptsd/Handoff/Sending
   source: src/output_write.c (output_handle_write, ts_frame_process)
   digest: What each process leaves alone in the other's buffer, and how the frames that are written
   follow from the frames the writer has taken. -/

import Mptsd.Handoff.Safety

set_option autoImplicit false
set_option relaxedAutoImplicit false

namespace Mptsd.Handoff.Sending

open Mptsd.TsPacket
open Mptsd.Conf (Config)
open Mptsd.Writer.Model (Output FrameIo markNull tsPacketProcess tsFrameProcess
  length_tsFrameProcess)
open Mptsd.Handoff.Model
open Mptsd.Handoff.Safety

variable (ts : TsFuncs) (conf : Config)

/-- `q` can be the packet `p` after `ts_frame_process`: only stuffing is changed elsewhere than in
its PCR. -/
structure Kin (p q : Packet) : Prop where
  sync : q 0 = p 0
  pid : ts.getPid q = ts.getPid p
  cont : ts.getPid p ≠ nullPid → ts.getCont q = ts.getCont p
  bytes : ts.getPid p ≠ nullPid → q = p ∨ ts.hasPcr p = true ∧ ∃ pcr, q = ts.setPcr p pcr

private theorem kin_markNull (p : Packet) : Kin ts p (markNull ts p) := by
  rw [markNull]
  split
  · rename_i null
    exact ⟨by simp, by simp, fun other => absurd null other, fun other => absurd null other⟩
  · exact ⟨rfl, rfl, fun _ => rfl, fun _ => .inl rfl⟩

private theorem kin_tsPacketProcess (o : Output) (i : ℕ) (p : Packet) :
    Kin ts p (tsPacketProcess ts conf o i p).1 := by
  have marked := kin_markNull ts p
  rw [tsPacketProcess]
  dsimp only
  split
  · rename_i some
    dsimp only
    split
    · refine ⟨?_, ?_, ?_, fun data => ?_⟩
      · rw [ts.sync_setPcr]
        exact marked.sync
      · rw [ts.getPid_setPcr]
        exact marked.pid
      · rw [ts.getCont_setPcr]
        exact marked.cont
      · rw [markNull, if_neg data] at some ⊢
        exact .inr ⟨some, _, rfl⟩
    · exact marked
  · exact marked

private theorem kin_tsFrameProcess (o : Output) (i : ℕ) (frame : Frame) :
    List.Forall₂ (Kin ts) frame (tsFrameProcess ts conf o i frame).1 := by
  induction frame generalizing o i with
  | nil => exact .nil
  | cons p rest ih => exact .cons (kin_tsPacketProcess ts conf o i p) (ih _ _)

private theorem frameAt_setFrame {buf : List Packet} {n k : ℕ} (whole : buf.length = 7 * n)
    (inside : k < n)
    {frame : Frame} (seven : frame.length = 7) :
    frameAt (setFrame buf (framePacketSize * k) frame) (framePacketSize * k) = frame := by
  have front : (buf.take (7 * k)).length = 7 * k := by
    rw [List.length_take]
    omega
  rw [frameAt, setFrame]
  rw [offset_div, List.append_assoc, List.drop_left' front, List.take_left' seven]

section frame

variable {n : ℕ} {s : State}

theorem mixStep_frame (h : Kept n s) (put : Option (ℕ × Packet)) :
    (mixStep s put).write = s.write ∧ (mixStep s put).handed = s.handed ∧
      ∀ b, (s.obuf b).status = .emptying → (mixStep s put).obuf b = s.obuf b := by
  unfold mixStep
  cases pc : s.mix.pc with
  | waiting =>
      dsimp only
      split <;> exact ⟨rfl, rfl, fun _ _ => rfl⟩
  | found =>
      refine ⟨rfl, rfl, ?_⟩
      intro b emptying
      apply Function.update_of_ne
      rintro rfl
      rw [h.claimed pc] at emptying
      cases emptying
  | filling =>
      have filling : (s.obuf s.mix.bufInUse).status = .filling := (h.filling _).mpr ⟨pc, rfl⟩
      cases put <;>
      · refine ⟨rfl, rfl, ?_⟩
        intro b emptying
        apply Function.update_of_ne
        rintro rfl
        rw [filling] at emptying
        cases emptying
  | switching => exact ⟨rfl, rfl, fun _ _ => rfl⟩

theorem writeStep_frame (h : Kept n s) (stats : Bool) (io : FrameIo) :
    (writeStep ts conf s stats io).mix = s.mix ∧
      (writeStep ts conf s stats io).published = s.published ∧
      ∀ b, (s.obuf b).status = .filling → (writeStep ts conf s stats io).obuf b = s.obuf b := by
  have other : Draws s.write.pc → ∀ b, (s.obuf b).status = .filling → b ≠ s.write.bufInUse := by
    rintro draws b filling rfl
    have emptying := (h.emptying s.write.bufInUse).mpr ⟨draws, rfl⟩
    rw [filling] at emptying
    cases emptying
  unfold writeStep
  cases pc : s.write.pc with
  | waiting =>
      dsimp only
      split <;> exact ⟨rfl, rfl, fun _ _ => rfl⟩
  | found =>
      refine ⟨rfl, rfl, ?_⟩
      intro b filling
      apply Function.update_of_ne
      rintro rfl
      rw [h.ready pc] at filling
      cases filling
  | draining =>
      rw [pc] at other
      dsimp only
      split <;>
        exact ⟨rfl, rfl, fun b filling => Function.update_of_ne (other trivial b filling) _ _⟩
  | sending =>
      rw [pc] at other
      exact ⟨rfl, rfl, fun b filling => Function.update_of_ne (other trivial b filling) _ _⟩
  | headers i =>
      rw [pc] at other
      dsimp only
      split <;>
        exact ⟨rfl, rfl, fun b filling => Function.update_of_ne (other trivial b filling) _ _⟩
  | releasing =>
      rw [pc] at other
      exact ⟨rfl, rfl, fun b filling => Function.update_of_ne (other trivial b filling) _ _⟩
  | switching => exact ⟨rfl, rfl, fun _ _ => rfl⟩

end frame

/-- The frame that is about to be written. -/
def inHand (s : State) : List Frame :=
  if s.write.pc = .sending then [frameAt s.writeBuf.buf s.writeBuf.written] else []

/-- The frames written, and the one about to be, are those taken from the buffers, processed. -/
def SentOf (s : State) (sent : List Frame) : Prop :=
  List.Forall₂ (List.Forall₂ (Kin ts)) s.handed (sent ++ inHand s)

/-- What has been written after the next step of the writer. -/
def sentNext (s : State) (sent : List Frame) : List Frame :=
  if s.write.pc = .sending then sent ++ [frameAt s.writeBuf.buf s.writeBuf.written] else sent

variable {ts conf} {n : ℕ} {s : State} {sent : List Frame}

theorem SentOf.mixStep (h : SentOf ts s sent) (kept : Kept n s) (put : Option (ℕ × Packet)) :
    SentOf ts (mixStep s put) sent := by
  obtain ⟨write, handed, same⟩ := mixStep_frame kept put
  have still : inHand (Model.mixStep s put) = inHand s := by
    unfold inHand State.writeBuf
    rw [write]
    split
    · rename_i sending
      rw [same s.write.bufInUse ((kept.emptying _).mpr ⟨by simp [sending, Draws], rfl⟩)]
    · rfl
  rw [SentOf]
  rw [handed, still]
  exact h

variable (conf) in
theorem SentOf.writeStep (h : SentOf ts s sent) (kept : Kept n s) (stats : Bool) (io : FrameIo) :
    SentOf ts (writeStep ts conf s stats io) (sentNext s sent) := by
  have quiet : s.write.pc ≠ .sending → ∀ {s' : State}, s'.handed = s.handed →
      s'.write.pc ≠ .sending → SentOf ts s' (sentNext s sent) := by
    intro before s' handed after
    rw [SentOf, inHand] at h ⊢
    rw [sentNext]
    rw [if_neg before] at h ⊢
    rw [if_neg after, handed]
    exact h
  rw [Model.writeStep]
  cases pc : s.write.pc with
  | waiting =>
      dsimp only
      split
      · exact quiet (by simp [pc]) rfl (by simp [State.setWritePc])
      · exact quiet (by simp [pc]) rfl (by simp [pc])
  | found => exact quiet (by simp [pc]) rfl (by rintro ⟨⟩)
  | draining =>
      dsimp only
      split
      · rename_i more
        have whole : s.writeBuf.buf.length = 7 * n := kept.whole _
        have progress := kept.progress
        rw [pc] at progress
        obtain ⟨k, -, at_k⟩ : ∃ k ≤ n, s.writeBuf.written = framePacketSize * k := progress
        have inside : k < n := by
          rw [at_k, Obuf.size, whole] at more
          rw [framePacketSize, tsPacketSize] at more
          omega
        have seven := length_frameAt whole inside
        have next : sentNext s sent = sent := by simp [sentNext, pc]
        have held : inHand (s.processFrame ts conf) = [(tsFrameProcess ts conf s.write.output 0
            (frameAt s.writeBuf.buf s.writeBuf.written)).1] := by
          have buf : (s.processFrame ts conf).writeBuf.buf =
              setFrame s.writeBuf.buf s.writeBuf.written (tsFrameProcess ts conf
                s.write.output 0 (frameAt s.writeBuf.buf s.writeBuf.written)).1 :=
            congrArg Obuf.buf (Function.update_self s.write.bufInUse _ s.obuf)
          have written : (s.processFrame ts conf).writeBuf.written = s.writeBuf.written := by
            simp [State.processFrame, State.writeBuf, State.setOutput, State.setWritePc,
              State.setObuf]
          show (if WritePc.sending = .sending then [frameAt (s.processFrame ts conf).writeBuf.buf
            (s.processFrame ts conf).writeBuf.written] else []) = _
          rw [if_pos rfl, buf, written, at_k, frameAt_setFrame whole inside]
          rw [length_tsFrameProcess]
          exact seven
        rw [SentOf, inHand] at h
        rw [pc, if_neg (by simp), List.append_nil] at h
        rw [SentOf]
        rw [next, held]
        exact List.rel_append h (.cons (kin_tsFrameProcess ts conf _ 0 _) .nil)
      · exact quiet (by simp [pc]) rfl (by rintro ⟨⟩)
  | sending =>
      have next : sentNext s sent = sent ++ inHand s := by simp [sentNext, inHand, pc]
      have none : inHand (s.sendFrame io) = [] := rfl
      show List.Forall₂ (List.Forall₂ (Kin ts)) s.handed
        (sentNext s sent ++ inHand (s.sendFrame io))
      rw [next, none, List.append_nil]
      exact h
  | headers i =>
      dsimp only
      split
      · exact quiet (by simp [pc]) rfl (by rintro ⟨⟩)
      · exact quiet (by simp [pc]) rfl (by rintro ⟨⟩)
  | releasing => exact quiet (by simp [pc]) rfl (by rintro ⟨⟩)
  | switching => exact quiet (by simp [pc]) rfl (by rintro ⟨⟩)

theorem sent_start (ofd : Bool) (rtpSsrc : ℕ) : SentOf ts (start conf n ofd rtpSsrc) [] := .nil

theorem flatten_flatMap_framesOf {bufs : List (List Packet)}
    (sizes : ∀ buf ∈ bufs, buf.length = 7 * n) :
    (bufs.flatMap framesOf).flatten = bufs.flatten := by
  induction bufs with
  | nil => rfl
  | cons buf rest ih =>
      rw [List.flatMap_cons, List.flatten_append, List.flatten_cons,
        ih fun b member => sizes b (List.mem_cons_of_mem _ member),
        flatten_framesOf (sizes buf List.mem_cons_self)]

theorem SentOf.exists_prefix (h : SentOf ts s sent) (kept : Kept n s)
    (sizes : ∀ buf ∈ s.published, buf.length = 7 * n) :
    ∃ front, front <+: s.published.flatten ∧ List.Forall₂ (Kin ts) front sent.flatten := by
  have stream : s.handed ++ (slots s).queue = s.published.flatMap framesOf := kept.stream
  have flat : s.handed.flatten ++ (slots s).queue.flatten = s.published.flatten := by
    rw [← List.flatten_append, stream]
    exact flatten_flatMap_framesOf sizes
  have cut : List.Forall₂ (List.Forall₂ (Kin ts)) (s.handed.take sent.length) sent := by
    have both := List.forall₂_take sent.length h
    rwa [List.take_left] at both
  refine ⟨(s.handed.take sent.length).flatten, ?_, List.rel_flatten cut⟩
  rw [← flat]
  refine List.IsPrefix.trans ?_ (List.prefix_append _ _)
  conv_rhs => rw [← List.take_append_drop sent.length s.handed]
  rw [List.flatten_append]
  exact List.prefix_append _ _

end Mptsd.Handoff.Sending
