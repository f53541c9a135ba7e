/- Unit: Mptsd/Handoff/Safety
   source: src/output_mix.c (output_handle_mix), src/output_write.c (output_handle_write)
   digest: In every interleaving the two processes keep apart, and the frames the writer handles
   are the published buffers in order. -/

import Mptsd.Handoff.Model
import Mptsd.Lib.Queue
import Mptsd.Lib.TwoSlot

set_option autoImplicit false
set_option relaxedAutoImplicit false

namespace Mptsd.Handoff.Safety

open Mptsd.TsPacket
open Mptsd.Conf (Config)
open Mptsd.Lib.Queue (Fifo)
open Mptsd.Lib.TwoSlot (Slots)
open Mptsd.Writer.Model (FrameIo tsFrameProcess length_tsFrameProcess)
open Mptsd.Handoff.Model

/-- The frames of a buffer from the `k`-th on. -/
def framesFrom (buf : List Packet) (k : ℕ) : List Frame :=
  (List.range' k (buf.length / 7 - k)).map (fun j => frameAt buf (framePacketSize * j))

def framesOf (buf : List Packet) : List Frame := framesFrom buf 0

section frames

variable {buf : List Packet} {n : ℕ}

theorem offset_div (j : ℕ) : framePacketSize * j / tsPacketSize = 7 * j := by
  rw [framePacketSize, tsPacketSize]
  omega

private theorem framesFrom_cons (whole : buf.length = 7 * n) {k : ℕ} (inside : k < n) :
    framesFrom buf k = frameAt buf (framePacketSize * k) :: framesFrom buf (k + 1) := by
  unfold framesFrom
  rw [show buf.length / 7 - k = (buf.length / 7 - (k + 1)) + 1 by omega, List.range'_succ,
    List.map_cons]

private theorem framesFrom_end (whole : buf.length = 7 * n) : framesFrom buf n = [] := by
  rw [framesFrom]
  rw [show buf.length / 7 - n = 0 by omega]
  rfl

private theorem length_setFrame (whole : buf.length = 7 * n) {k : ℕ} (inside : k < n)
    {frame : Frame}
    (seven : frame.length = 7) :
    (setFrame buf (framePacketSize * k) frame).length = 7 * n := by
  rw [setFrame]
  rw [offset_div, List.length_append, List.length_append, List.length_take, List.length_drop,
    seven]
  omega

theorem length_frameAt (whole : buf.length = 7 * n) {k : ℕ} (inside : k < n) :
    (frameAt buf (framePacketSize * k)).length = 7 := by
  rw [frameAt]
  rw [offset_div, List.length_take, List.length_drop]
  omega

private theorem framesFrom_setFrame (whole : buf.length = 7 * n) {k : ℕ} (inside : k < n)
    {frame : Frame}
    (seven : frame.length = 7) :
    framesFrom (setFrame buf (framePacketSize * k) frame) (k + 1) = framesFrom buf (k + 1) := by
  have length := length_setFrame whole inside seven
  unfold framesFrom
  rw [length, whole]
  apply List.map_congr_left
  intro j later
  have after : k + 1 ≤ j := (List.mem_range'_1.mp later).1
  have front : (buf.take (7 * k) ++ frame).length = 7 * k + 7 := by
    rw [List.length_append, List.length_take, seven]
    omega
  unfold frameAt setFrame
  rw [offset_div, offset_div, List.drop_append, front, List.drop_eq_nil_of_le (by omega),
    List.nil_append, List.drop_drop]
  congr 2
  omega

private theorem flatten_framesFrom (whole : buf.length = 7 * n) {k : ℕ} (inside : k ≤ n) :
    (framesFrom buf k).flatten = buf.drop (7 * k) := by
  obtain ⟨rest, rfl⟩ := Nat.exists_eq_add_of_le inside
  induction rest generalizing k with
  | zero =>
      rw [Nat.add_zero] at whole
      rw [framesFrom_end whole, List.drop_eq_nil_of_le (by omega)]
      rfl
  | succ rest ih =>
      have others := ih (k := k + 1) (by omega) (by omega)
      rw [framesFrom_cons whole (by omega), List.flatten_cons, others]
      rw [frameAt]
      rw [offset_div, show 7 * (k + 1) = 7 * k + 7 by omega, ← List.drop_drop,
        List.take_append_drop]

theorem flatten_framesOf (whole : buf.length = 7 * n) : (framesOf buf).flatten = buf := by
  rw [framesOf, flatten_framesFrom whole (Nat.zero_le n)]
  simp

end frames

/-- The writer works on its buffer from `obuf_emptying` until `obuf_reset` is done. -/
def Draws : WritePc → Prop
  | .draining | .sending | .headers _ | .releasing => True
  | .waiting | .found | .switching => False

def isLoaded (ob : Obuf) : Bool := ob.status = .full || ob.status = .emptying

/-- What is still to be handled of a buffer. -/
def leftOf (pc : WritePc) (ob : Obuf) : List Frame :=
  match ob.status with
  | .full => framesOf ob.buf
  | .emptying =>
      match pc with
      | .draining => framesFrom ob.buf (ob.written / framePacketSize)
      | .sending => framesFrom ob.buf (ob.written / framePacketSize + 1)
      | _ => []
  | _ => []

def nextMix (m : Mixer) : Bool := if m.pc = .switching then !m.bufInUse else m.bufInUse

def nextWrite (w : Writer) : Bool := if w.pc = .switching then !w.bufInUse else w.bufInUse

/-- The two buffers as slots used in turn. -/
def slots (s : State) : Slots Frame where
  loaded b := isLoaded (s.obuf b)
  left b := leftOf s.write.pc (s.obuf b)
  producer := nextMix s.mix
  consumer := nextWrite s.write

/-- The two buffers as one queue of frames, with the frames handled so far. -/
def frameQueue (s : State) : Fifo Frame := ⟨s.handed, (slots s).queue⟩

/-- How far the writer is with its buffer of `n` frames. -/
def Progress (n : ℕ) : WritePc → Obuf → Prop
  | .draining, ob => ∃ k ≤ n, ob.written = framePacketSize * k
  | .sending, ob => ∃ k < n, ob.written = framePacketSize * k
  | .headers i, ob => ob.written = framePacketSize * n ∧ i ≤ 7 * n ∧
      ob.buf.take i = List.replicate i nullPacket
  | .releasing, ob => ob.written = 0 ∧ ob.buf = List.replicate (7 * n) nullPacket
  | .waiting, _ | .found, _ | .switching, _ => True

/-- The invariant of all interleavings. -/
structure Kept (n : ℕ) (s : State) : Prop where
  filling : ∀ b, (s.obuf b).status = .filling ↔ s.mix.pc = .filling ∧ s.mix.bufInUse = b
  emptying : ∀ b, (s.obuf b).status = .emptying ↔ Draws s.write.pc ∧ s.write.bufInUse = b
  claimed : s.mix.pc = .found → (s.obuf s.mix.bufInUse).status = .empty
  ready : s.write.pc = .found → (s.obuf s.write.bufInUse).status = .full
  whole : ∀ b, (s.obuf b).buf.length = 7 * n
  clean : ∀ b, (s.obuf b).status = .empty → (s.obuf b).buf = List.replicate (7 * n) nullPacket
  unread : ∀ b, (s.obuf b).status ≠ .emptying → (s.obuf b).written = 0
  progress : Progress n s.write.pc (s.obuf s.write.bufInUse)
  ordered : (slots s).Ordered
  stream : (frameQueue s).filled = s.published.flatMap framesOf

private theorem leftOf_congr {pc pc' : WritePc} {ob : Obuf} (idle : ob.status ≠ .emptying) :
    leftOf pc ob = leftOf pc' ob := by
  unfold leftOf
  cases h : ob.status <;> simp_all

private theorem slots_write {n : ℕ} {s s' : State} (h : Kept n s) {ob : Obuf}
    (obuf : s'.obuf = Function.update s.obuf s.write.bufInUse ob) (mix : s'.mix = s.mix)
    {consumer : Bool} (next : nextWrite s'.write = consumer) :
    slots s' =
      { loaded := Function.update (slots s).loaded s.write.bufInUse (isLoaded ob)
        left := Function.update (slots s).left s.write.bufInUse (leftOf s'.write.pc ob)
        producer := (slots s).producer
        consumer := consumer } := by
  subst next
  apply Slots.ext
  · ext b
    by_cases own : b = s.write.bufInUse
    · subst own
      simp [slots, obuf]
    · simp [slots, obuf, own]
  · funext b
    by_cases own : b = s.write.bufInUse
    · subst own
      simp [slots, obuf]
    · have idle : (s.obuf b).status ≠ .emptying := fun e => own ((h.emptying b).mp e).2.symm
      simpa [slots, obuf, own] using leftOf_congr idle
  · simp [slots, mix]
  · rfl

private theorem slots_mix {s s' : State} {ob : Obuf}
    (obuf : s'.obuf = Function.update s.obuf s.mix.bufInUse ob) (write : s'.write = s.write)
    {producer : Bool} (next : nextMix s'.mix = producer) :
    slots s' =
      { loaded := Function.update (slots s).loaded s.mix.bufInUse (isLoaded ob)
        left := Function.update (slots s).left s.mix.bufInUse (leftOf s.write.pc ob)
        producer := producer
        consumer := (slots s).consumer } := by
  subst next
  apply Slots.ext
  · ext b
    by_cases own : b = s.mix.bufInUse
    · subst own
      simp [slots, obuf]
    · simp [slots, obuf, own]
  · ext b
    by_cases own : b = s.mix.bufInUse
    · subst own
      simp [slots, obuf, write]
    · simp [slots, obuf, own, write]
  · rfl
  · simp [slots, write]

private theorem progress_of_idle {n : ℕ} {pc : WritePc} (idle : ¬ Draws pc) (ob : Obuf) :
    Progress n pc ob := by
  cases pc <;> simp_all [Draws, Progress]

private theorem Kept.of_mix {n : ℕ} {s s' : State} (h : Kept n s) {ob : Obuf}
    (obuf : s'.obuf = Function.update s.obuf s.mix.bufInUse ob) (write : s'.write = s.write)
    (status : ob.status = (s.obuf s.mix.bufInUse).status ∨
      (s.obuf s.mix.bufInUse).status = .empty ∧ ob.status = .filling ∨
      (s.obuf s.mix.bufInUse).status = .filling ∧ ob.status = .full)
    (length : ob.buf.length = 7 * n) (written : ob.written = (s.obuf s.mix.bufInUse).written)
    (same : ob.buf = (s.obuf s.mix.bufInUse).buf ∨ (s.obuf s.mix.bufInUse).status = .filling)
    (filling : ∀ b, (s'.obuf b).status = .filling ↔ s'.mix.pc = .filling ∧ s'.mix.bufInUse = b)
    (claimed : s'.mix.pc = .found → (s'.obuf s'.mix.bufInUse).status = .empty)
    (ordered : (slots s').Ordered)
    (stream : (frameQueue s').filled = s'.published.flatMap framesOf) : Kept n s' where
  filling := filling
  emptying := by
    intro b
    rw [write, ← h.emptying b, obuf]
    by_cases own : b = s.mix.bufInUse
    · subst own
      rw [Function.update_self]
      rcases status with e | ⟨e, e'⟩ | ⟨e, e'⟩ <;> simp_all
    · rw [Function.update_of_ne own]
  claimed := claimed
  ready := by
    intro found
    rw [write] at found ⊢
    have full := h.ready found
    rw [obuf]
    by_cases own : s.write.bufInUse = s.mix.bufInUse
    · rw [own] at full ⊢
      rw [Function.update_self]
      rcases status with e | ⟨e, e'⟩ | ⟨e, e'⟩ <;> simp_all
    · rwa [Function.update_of_ne own]
  whole := by
    intro b
    rw [obuf]
    by_cases own : b = s.mix.bufInUse
    · subst own
      rw [Function.update_self]
      exact length
    · rw [Function.update_of_ne own]
      exact h.whole b
  clean := by
    intro b
    rw [obuf]
    by_cases own : b = s.mix.bufInUse
    · subst own
      rw [Function.update_self]
      intro empty
      have clean := h.clean s.mix.bufInUse
      rcases status with e | ⟨e, e'⟩ | ⟨e, e'⟩ <;> simp_all
    · rw [Function.update_of_ne own]
      exact h.clean b
  unread := by
    intro b
    rw [obuf]
    by_cases own : b = s.mix.bufInUse
    · subst own
      rw [Function.update_self, written]
      intro idle
      apply h.unread
      rcases status with e | ⟨e, e'⟩ | ⟨e, e'⟩ <;> simp_all
    · rw [Function.update_of_ne own]
      exact h.unread b
  progress := by
    rw [write, obuf]
    by_cases own : s.write.bufInUse = s.mix.bufInUse
    · by_cases draws : Draws s.write.pc
      · have emptying := (h.emptying s.write.bufInUse).mpr ⟨draws, rfl⟩
        have progress := h.progress
        rw [own] at emptying progress ⊢
        rw [Function.update_self]
        have rest : ob.buf = (s.obuf s.mix.bufInUse).buf := by simp_all
        cases pc : s.write.pc <;> simp_all [Progress]
      · exact progress_of_idle draws _
    · rw [Function.update_of_ne own]
      exact h.progress
  ordered := ordered
  stream := stream

private theorem update_self_obuf (s : State) (b : Bool) :
    s.obuf = Function.update s.obuf b (s.obuf b) := (Function.update_eq_self b s.obuf).symm

private theorem slots_mix_quiet {s s' : State} {ob : Obuf}
    (obuf : s'.obuf = Function.update s.obuf s.mix.bufInUse ob) (write : s'.write = s.write)
    (next : nextMix s'.mix = nextMix s.mix)
    (loaded : isLoaded ob = isLoaded (s.obuf s.mix.bufInUse))
    (left : leftOf s.write.pc ob = leftOf s.write.pc (s.obuf s.mix.bufInUse)) :
    slots s' = slots s := by
  rw [slots_mix obuf write next, loaded, left]
  apply Slots.ext
  · exact Function.update_eq_self _ _
  · exact Function.update_eq_self _ _
  · rfl
  · rfl

section mixer

variable {n : ℕ} {s : State}

private theorem Kept.mix_look (h : Kept n s) (pc : s.mix.pc = .waiting)
    (empty : s.mixBuf.status = .empty) :
    Kept n (s.setMixPc .found) := by
  have same : slots (s.setMixPc .found) = slots s :=
    slots_mix_quiet (update_self_obuf s _) rfl (by simp [State.setMixPc, nextMix, pc]) rfl rfl
  have queue : frameQueue (s.setMixPc .found) = frameQueue s := by
    rw [frameQueue, same]
    rfl
  refine h.of_mix (update_self_obuf s _) rfl (Or.inl rfl) (h.whole _) rfl (Or.inl rfl) ?_
    (fun _ => empty) (same ▸ h.ordered) (queue ▸ h.stream)
  intro b
  have := (h.filling b).not.mpr (by simp [pc])
  simpa [State.setMixPc] using this

theorem Kept.markFilling (h : Kept n s) (pc : s.mix.pc = .found) :
    Kept n s.markFilling := by
  have empty := h.claimed pc
  have obuf : s.markFilling.obuf = Function.update s.obuf s.mix.bufInUse
      { s.mixBuf with status := .filling } := rfl
  have same : slots s.markFilling = slots s := by
    apply slots_mix_quiet obuf rfl
    · simp [State.markFilling, State.setMixPc, State.setObuf, nextMix, pc]
    · simp [isLoaded, empty]
    · simp [leftOf, empty]
  have queue : frameQueue s.markFilling = frameQueue s := by
    rw [frameQueue, same]
    rfl
  refine h.of_mix obuf rfl (Or.inr (Or.inl ⟨empty, rfl⟩)) (h.whole _) rfl (Or.inl rfl) ?_
    (by rintro ⟨⟩) (same ▸ h.ordered) (queue ▸ h.stream)
  intro b
  by_cases own : b = s.mix.bufInUse
  · subst own
    simp [State.markFilling, State.setMixPc, State.setObuf]
  · have := (h.filling b).not.mpr (by simp [pc])
    simp [State.markFilling, State.setMixPc, State.setObuf, own, this, Ne.symm own]

theorem Kept.putPacket (h : Kept n s) (pc : s.mix.pc = .filling) (slot : ℕ) (packet : Packet) :
    Kept n (s.putPacket slot packet) := by
  have status := (h.filling s.mix.bufInUse).mpr ⟨pc, rfl⟩
  have obuf : (s.putPacket slot packet).obuf = Function.update s.obuf s.mix.bufInUse
      { s.mixBuf with buf := s.mixBuf.buf.set slot packet } := rfl
  have same : slots (s.putPacket slot packet) = slots s := by
    apply slots_mix_quiet obuf rfl rfl
    · rfl
    · simp [leftOf, State.mixBuf, status]
  have queue : frameQueue (s.putPacket slot packet) = frameQueue s := by
    rw [frameQueue, same]
    rfl
  refine h.of_mix obuf rfl (Or.inl rfl) ?_ rfl (Or.inr status) ?_ ?_ (same ▸ h.ordered)
    (queue ▸ h.stream)
  · exact (List.length_set).trans (h.whole _)
  · intro b
    have before := h.filling b
    by_cases own : b = s.mix.bufInUse
    · subst own
      simpa [State.putPacket, State.setObuf, State.mixBuf] using before
    · simpa [State.putPacket, State.setObuf, own] using before
  · intro found
    rw [show (s.putPacket slot packet).mix = s.mix from rfl, pc] at found
    cases found

theorem Kept.markFull (h : Kept n s) (pc : s.mix.pc = .filling) :
    Kept n s.markFull := by
  have status := (h.filling s.mix.bufInUse).mpr ⟨pc, rfl⟩
  have producer : (slots s).producer = s.mix.bufInUse := by simp [slots, nextMix, pc]
  have free : (slots s).loaded (slots s).producer = false := by
    rw [producer]
    simp [slots, isLoaded, status]
  have obuf : s.markFull.obuf = Function.update s.obuf s.mix.bufInUse
      { s.mixBuf with status := .full } := rfl
  have same : slots s.markFull = (slots s).publish (framesOf s.mixBuf.buf) := by
    rw [slots_mix obuf rfl (show nextMix s.markFull.mix = !s.mix.bufInUse from rfl),
      Slots.publish, producer]
    rfl
  obtain ⟨ordered, appended⟩ := h.ordered.publish free (framesOf s.mixBuf.buf)
  have queue : frameQueue s.markFull = (frameQueue s).push (framesOf s.mixBuf.buf) := by
    rw [frameQueue, same, appended]
    rfl
  refine h.of_mix obuf rfl (Or.inr (Or.inr ⟨status, rfl⟩)) (h.whole _) rfl (Or.inl rfl) ?_
    (by rintro ⟨⟩) (same ▸ ordered) ?_
  · intro b
    by_cases own : b = s.mix.bufInUse
    · subst own
      simp [State.markFull, State.setMixPc, State.setObuf]
    · have := (h.filling b).not.mpr (fun e => own e.2.symm)
      simp [State.markFull, State.setMixPc, State.setObuf, own, this]
  · rw [queue, Fifo.filled_push, h.stream]
    simp [State.markFull]

private theorem Kept.switchMix (h : Kept n s) (pc : s.mix.pc = .switching) :
    Kept n s.switchMix := by
  have same : slots s.switchMix = slots s :=
    slots_mix_quiet (update_self_obuf s _) rfl (by simp [State.switchMix, nextMix, pc]) rfl rfl
  have queue : frameQueue s.switchMix = frameQueue s := by
    rw [frameQueue, same]
    rfl
  refine h.of_mix (update_self_obuf s _) rfl (Or.inl rfl) (h.whole _) rfl (Or.inl rfl) ?_
    (by rintro ⟨⟩) (same ▸ h.ordered) (queue ▸ h.stream)
  intro b
  have := (h.filling b).not.mpr (by simp [pc])
  simpa [State.switchMix] using this

theorem Kept.mixStep (h : Kept n s) (put : Option (ℕ × Packet)) : Kept n (mixStep s put) := by
  unfold Model.mixStep
  cases pc : s.mix.pc with
  | waiting =>
      dsimp only
      split
      · rename_i empty
        exact h.mix_look pc empty
      · exact h
  | found => exact h.markFilling pc
  | filling =>
      cases put with
      | some x => exact h.putPacket pc x.1 x.2
      | none => exact h.markFull pc
  | switching => exact h.switchMix pc

end mixer

section writer

variable {n : ℕ} {s : State}

private theorem Kept.of_write (h : Kept n s) {s' : State} {ob : Obuf}
    (obuf : s'.obuf = Function.update s.obuf s.write.bufInUse ob) (mix : s'.mix = s.mix)
    (filling : ob.status = .filling ↔ s.writeBuf.status = .filling)
    (empty : s.writeBuf.status = .empty → ob.status = .empty)
    (length : ob.buf.length = 7 * n)
    (clean : ob.status = .empty → ob.buf = List.replicate (7 * n) nullPacket)
    (unread : ob.status ≠ .emptying → ob.written = 0)
    (emptying : ∀ b, (s'.obuf b).status = .emptying ↔
      Draws s'.write.pc ∧ s'.write.bufInUse = b)
    (ready : s'.write.pc = .found → (s'.obuf s'.write.bufInUse).status = .full)
    (progress : Progress n s'.write.pc (s'.obuf s'.write.bufInUse))
    (ordered : (slots s').Ordered)
    (stream : (frameQueue s').filled = s'.published.flatMap framesOf) : Kept n s' where
  filling := by
    intro b
    rw [mix, ← h.filling b, obuf]
    by_cases own : b = s.write.bufInUse
    · subst own
      rw [Function.update_self]
      exact filling
    · rw [Function.update_of_ne own]
  emptying := emptying
  claimed := by
    intro found
    rw [mix] at found ⊢
    have before := h.claimed found
    rw [obuf]
    by_cases own : s.mix.bufInUse = s.write.bufInUse
    · rw [own] at before ⊢
      rw [Function.update_self]
      exact empty before
    · rwa [Function.update_of_ne own]
  ready := ready
  whole := by
    intro b
    rw [obuf]
    by_cases own : b = s.write.bufInUse
    · subst own
      rw [Function.update_self]
      exact length
    · rw [Function.update_of_ne own]
      exact h.whole b
  clean := by
    intro b
    rw [obuf]
    by_cases own : b = s.write.bufInUse
    · subst own
      rw [Function.update_self]
      exact clean
    · rw [Function.update_of_ne own]
      exact h.clean b
  unread := by
    intro b
    rw [obuf]
    by_cases own : b = s.write.bufInUse
    · subst own
      rw [Function.update_self]
      exact unread
    · rw [Function.update_of_ne own]
      exact h.unread b
  progress := progress
  ordered := ordered
  stream := stream

private theorem Kept.emptying_iff (h : Kept n s) {s' : State} {ob : Obuf}
    (obuf : s'.obuf = Function.update s.obuf s.write.bufInUse ob)
    (stays : s'.write.bufInUse = s.write.bufInUse)
    (own : ob.status = .emptying ↔ Draws s'.write.pc) (b : Bool) :
    (s'.obuf b).status = .emptying ↔ Draws s'.write.pc ∧ s'.write.bufInUse = b := by
  rw [obuf, stays]
  by_cases same : b = s.write.bufInUse
  · subst same
    simpa using own
  · have other := (h.emptying b).not.mpr (fun e => same e.2.symm)
    simp [same, other, Ne.symm same]

private theorem own_obuf {s' : State} {ob : Obuf}
    (obuf : s'.obuf = Function.update s.obuf s.write.bufInUse ob)
    (stays : s'.write.bufInUse = s.write.bufInUse) : s'.obuf s'.write.bufInUse = ob := by
  rw [obuf, stays, Function.update_self]

private theorem slots_write_quiet (h : Kept n s) {s' : State} {ob : Obuf}
    (obuf : s'.obuf = Function.update s.obuf s.write.bufInUse ob) (mix : s'.mix = s.mix)
    (next : nextWrite s'.write = nextWrite s.write) (loaded : isLoaded ob = isLoaded s.writeBuf)
    (left : leftOf s'.write.pc ob = leftOf s.write.pc s.writeBuf) : slots s' = slots s := by
  rw [slots_write h obuf mix next, loaded, left]
  apply Slots.ext
  · exact Function.update_eq_self _ _
  · exact Function.update_eq_self _ _
  · rfl
  · rfl

private theorem Kept.write_look (h : Kept n s) (pc : s.write.pc = .waiting)
    (full : s.writeBuf.status = .full) :
    Kept n (s.setWritePc .found) := by
  have obuf : (s.setWritePc .found).obuf = Function.update s.obuf s.write.bufInUse s.writeBuf :=
    update_self_obuf s _
  have same : slots (s.setWritePc .found) = slots s := by
    apply slots_write_quiet h obuf rfl
    · simp [State.setWritePc, nextWrite, pc]
    · rfl
    · exact leftOf_congr (by simp [full])
  have queue : frameQueue (s.setWritePc .found) = frameQueue s := by
    rw [frameQueue, same]
    rfl
  refine h.of_write obuf rfl Iff.rfl id (h.whole _) (h.clean _) (h.unread _)
    ?_ (fun _ => full) trivial (same ▸ h.ordered) (queue ▸ h.stream)
  intro b
  have := (h.emptying b).not.mpr (by simp [pc, Draws])
  simpa [State.setWritePc, Draws] using this

private theorem Kept.markEmptying (h : Kept n s) (pc : s.write.pc = .found) (stats : Bool) :
    Kept n (s.markEmptying stats) := by
  have full : s.writeBuf.status = .full := h.ready pc
  have written : s.writeBuf.written = 0 := h.unread _ (by
    rw [show (s.obuf s.write.bufInUse).status = .full from full]
    simp)
  have obuf : (s.markEmptying stats).obuf = Function.update s.obuf s.write.bufInUse
      { s.writeBuf with status := .emptying } := rfl
  have same : slots (s.markEmptying stats) = slots s := by
    apply slots_write_quiet h obuf rfl
    · simp [State.markEmptying, State.setOutput, State.setWritePc, State.setObuf, nextWrite, pc]
    · simp [isLoaded, full]
    · simp [leftOf, full, written, State.markEmptying, State.setOutput, State.setWritePc, framesOf]
  have queue : frameQueue (s.markEmptying stats) = frameQueue s := by
    rw [frameQueue, same]
    rfl
  refine h.of_write obuf rfl ?_ ?_ (h.whole _) (by rintro ⟨⟩) (fun e => absurd rfl e)
    (h.emptying_iff obuf rfl (by
      simp [State.markEmptying, State.setOutput, State.setWritePc, Draws]))
    (by rintro ⟨⟩) ?_ (same ▸ h.ordered) (queue ▸ h.stream)
  · simp [full]
  · simp [full]
  · show ∃ k ≤ n, _ = _
    refine ⟨0, Nat.zero_le n, ?_⟩
    rw [own_obuf obuf rfl]
    exact written

variable (ts : TsFuncs) (conf : Config)

private theorem Kept.of_draining (h : Kept n s) (draws : Draws s.write.pc) {s' : State} {ob : Obuf}
    (obuf : s'.obuf = Function.update s.obuf s.write.bufInUse ob) (mix : s'.mix = s.mix)
    (stays : s'.write.bufInUse = s.write.bufInUse) (still : Draws s'.write.pc)
    (status : ob.status = s.writeBuf.status) (length : ob.buf.length = 7 * n)
    (progress : Progress n s'.write.pc ob) (ordered : (slots s').Ordered)
    (stream : (frameQueue s').filled = s'.published.flatMap framesOf) : Kept n s' := by
  have emptying : s.writeBuf.status = .emptying := (h.emptying _).mpr ⟨draws, rfl⟩
  rw [emptying] at status
  refine h.of_write obuf mix ?_ ?_ length ?_ ?_
    (h.emptying_iff obuf stays (by simp [status, still])) ?_ ?_ ordered stream
  · simp [status, emptying]
  · simp [emptying]
  · simp [status]
  · simp [status]
  · intro found
    rw [found] at still
    exact still.elim
  · rw [own_obuf obuf stays]
    exact progress

private theorem Kept.consumer (h : Kept n s) (draws : Draws s.write.pc) :
    (slots s).consumer = s.write.bufInUse ∧ (slots s).loaded s.write.bufInUse = true := by
  have emptying := (h.emptying s.write.bufInUse).mpr ⟨draws, rfl⟩
  refine ⟨?_, by simp [slots, isLoaded, emptying]⟩
  show nextWrite s.write = _
  rw [nextWrite]
  rw [if_neg]
  rintro switching
  rw [switching] at draws
  exact draws

theorem Kept.processFrame (h : Kept n s) (pc : s.write.pc = .draining)
    (more : s.writeBuf.written < s.writeBuf.size) :
    Kept n (s.processFrame ts conf) := by
  have draws : Draws s.write.pc := by simp [pc, Draws]
  have whole : s.writeBuf.buf.length = 7 * n := h.whole _
  have emptying : s.writeBuf.status = .emptying := (h.emptying _).mpr ⟨draws, rfl⟩
  have progress := h.progress
  rw [pc] at progress
  obtain ⟨k, -, at_k⟩ : ∃ k ≤ n, s.writeBuf.written = framePacketSize * k := progress
  have inside : k < n := by
    rw [at_k, Obuf.size, whole] at more
    rw [framePacketSize, tsPacketSize] at more
    omega
  have seven := length_frameAt whole inside
  obtain ⟨consumer, loaded⟩ := h.consumer draws
  have index : s.writeBuf.written / framePacketSize = k := by
    rw [at_k, Nat.mul_div_cancel_left k (by unfold framePacketSize; norm_num)]
  have left : (slots s).left (slots s).consumer =
      frameAt s.writeBuf.buf s.writeBuf.written :: framesFrom s.writeBuf.buf (k + 1) := by
    rw [consumer, at_k, ← framesFrom_cons whole inside]
    show leftOf s.write.pc s.writeBuf = _
    simp [leftOf, emptying, pc, index]
  obtain ⟨ordered, taken⟩ := h.ordered.consume (consumer ▸ loaded) left
  let frame := (tsFrameProcess ts conf s.write.output 0
    (frameAt s.writeBuf.buf s.writeBuf.written)).1
  have length : frame.length = 7 := by
    rw [length_tsFrameProcess, at_k]
    exact seven
  have obuf : (s.processFrame ts conf).obuf = Function.update s.obuf s.write.bufInUse
      { s.writeBuf with buf := setFrame s.writeBuf.buf s.writeBuf.written frame } := rfl
  have same : slots (s.processFrame ts conf) = (slots s).consume := by
    rw [slots_write h obuf rfl (show nextWrite _ = s.write.bufInUse from rfl)]
    apply Slots.ext
    · rw [show isLoaded { s.writeBuf with
        buf := setFrame s.writeBuf.buf s.writeBuf.written frame } = (slots s).loaded
        s.write.bufInUse from rfl]
      exact Function.update_eq_self _ _
    · show Function.update _ _ _ = Function.update _ _ _
      rw [consumer, ← consumer, left, consumer]
      congr 1
      show leftOf .sending _ = _
      simp only [leftOf, emptying, index, List.tail_cons]
      rw [at_k]
      exact framesFrom_setFrame whole inside length
    · rfl
    · exact consumer.symm
  have queue : (frameQueue s).pop = (some (frameAt s.writeBuf.buf s.writeBuf.written),
      frameQueue (s.processFrame ts conf)) := by
    rw [Fifo.pop_of_cons taken, ← same]
    rfl
  refine h.of_draining draws obuf rfl rfl trivial rfl ?_ ⟨k, inside, at_k⟩ (same ▸ ordered) ?_
  · show (setFrame s.writeBuf.buf s.writeBuf.written frame).length = 7 * n
    rw [at_k]
    exact length_setFrame whole inside length
  · have filled := Fifo.filled_pop (frameQueue s)
    rw [queue] at filled
    exact filled.trans h.stream

theorem Kept.quiet (h : Kept n s) (draws : Draws s.write.pc) {s' : State} {ob : Obuf}
    (obuf : s'.obuf = Function.update s.obuf s.write.bufInUse ob) (mix : s'.mix = s.mix)
    (stays : s'.write.bufInUse = s.write.bufInUse) (still : Draws s'.write.pc)
    (status : ob.status = s.writeBuf.status)
    (left : leftOf s'.write.pc ob = leftOf s.write.pc s.writeBuf)
    (length : ob.buf.length = 7 * n) (progress : Progress n s'.write.pc ob)
    (handed : s'.handed = s.handed) (published : s'.published = s.published) :
    Kept n s' := by
  have next : nextWrite s'.write = nextWrite s.write := by
    unfold nextWrite
    rw [stays, if_neg (fun e => by rw [e] at still; exact still),
      if_neg (fun e => by rw [e] at draws; exact draws)]
  have same : slots s' = slots s :=
    slots_write_quiet h obuf mix next (by simp [isLoaded, status]) left
  have queue : frameQueue s' = frameQueue s := by
    rw [frameQueue, same, handed]
    rfl
  refine h.of_draining draws obuf mix stays still status length progress (same ▸ h.ordered) ?_
  rw [queue, published]
  exact h.stream

theorem Kept.sendFrame (h : Kept n s) (pc : s.write.pc = .sending) (io : FrameIo) :
    Kept n (s.sendFrame io) := by
  have draws : Draws s.write.pc := by simp [pc, Draws]
  have progress := h.progress
  rw [pc] at progress
  obtain ⟨k, inside, at_k⟩ : ∃ k < n, s.writeBuf.written = framePacketSize * k := progress
  have emptying : s.writeBuf.status = .emptying := (h.emptying _).mpr ⟨draws, rfl⟩
  have obuf : (s.sendFrame io).obuf = Function.update s.obuf s.write.bufInUse
      { s.writeBuf with written := s.writeBuf.written + framePacketSize } := rfl
  refine h.quiet draws obuf rfl rfl trivial rfl ?_ (h.whole _) ⟨k + 1, inside, ?_⟩ rfl rfl
  · rw [pc]
    show leftOf .draining _ = _
    simp only [leftOf, emptying]
    rw [Nat.add_div_right _ (by unfold framePacketSize; norm_num)]
  · show s.writeBuf.written + framePacketSize = _
    rw [at_k]
    ring

private theorem Kept.written_eq_size (h : Kept n s) (pc : s.write.pc = .draining)
    (done : ¬ s.writeBuf.written < s.writeBuf.size) : s.writeBuf.written = s.writeBuf.size := by
  have whole : s.writeBuf.buf.length = 7 * n := h.whole _
  have progress := h.progress
  rw [pc] at progress
  obtain ⟨k, inside, at_k⟩ : ∃ k ≤ n, s.writeBuf.written = framePacketSize * k := progress
  rw [at_k, Obuf.size, whole] at done ⊢
  rw [framePacketSize, tsPacketSize] at *
  omega

theorem Kept.resetBytes (h : Kept n s) (pc : s.write.pc = .draining)
    (done : ¬ s.writeBuf.written < s.writeBuf.size) :
    Kept n s.resetBytes := by
  have draws : Draws s.write.pc := by simp [pc, Draws]
  have whole : s.writeBuf.buf.length = 7 * n := h.whole _
  have emptying : s.writeBuf.status = .emptying := (h.emptying _).mpr ⟨draws, rfl⟩
  have written : s.writeBuf.written = framePacketSize * n := by
    rw [h.written_eq_size pc done, Obuf.size, whole]
    rw [framePacketSize, tsPacketSize]
    omega
  have obuf : s.resetBytes.obuf = Function.update s.obuf s.write.bufInUse
      { s.writeBuf with buf := List.replicate s.writeBuf.buf.length (fun _ => 0xff) } := rfl
  refine h.quiet draws obuf rfl rfl trivial rfl ?_ ?_ ⟨written, Nat.zero_le _, rfl⟩ rfl rfl
  · rw [pc]
    show leftOf (.headers 0) _ = _
    simp only [leftOf, emptying, written]
    rw [Nat.mul_div_cancel_left n (by unfold framePacketSize; norm_num), framesFrom_end whole]
  · rw [List.length_replicate]
    exact whole

private theorem Kept.resetHeader (h : Kept n s) {i : ℕ} (pc : s.write.pc = .headers i)
    (more : i < s.writeBuf.buf.length) :
    Kept n (s.resetHeader i) := by
  have draws : Draws s.write.pc := by simp [pc, Draws]
  have whole : s.writeBuf.buf.length = 7 * n := h.whole _
  have emptying : s.writeBuf.status = .emptying := (h.emptying _).mpr ⟨draws, rfl⟩
  have progress := h.progress
  rw [pc] at progress
  obtain ⟨written, -, done⟩ := progress
  have obuf : (s.resetHeader i).obuf = Function.update s.obuf s.write.bufInUse
      { s.writeBuf with buf := s.writeBuf.buf.set i nullPacket } := rfl
  refine h.quiet draws obuf rfl rfl trivial rfl ?_ ?_ ⟨written, by omega, ?_⟩ rfl rfl
  · rw [pc]
    show leftOf (.headers (i + 1)) _ = _
    simp only [leftOf, emptying]
  · rw [List.length_set]
    exact whole
  · show (s.writeBuf.buf.set i nullPacket).take (i + 1) = _
    rw [List.take_succ_eq_append_getElem (by simpa using more), List.take_set_of_le (le_refl i),
      List.getElem_set_self, show s.writeBuf.buf.take i = _ from done, List.replicate_succ']

private theorem Kept.resetWritten (h : Kept n s) {i : ℕ} (pc : s.write.pc = .headers i)
    (done : ¬ i < s.writeBuf.buf.length) :
    Kept n s.resetWritten := by
  have draws : Draws s.write.pc := by simp [pc, Draws]
  have whole : s.writeBuf.buf.length = 7 * n := h.whole _
  have emptying : s.writeBuf.status = .emptying := (h.emptying _).mpr ⟨draws, rfl⟩
  have progress := h.progress
  rw [pc] at progress
  obtain ⟨-, bound, headers⟩ := progress
  have all : i = 7 * n := by omega
  have obuf : s.resetWritten.obuf = Function.update s.obuf s.write.bufInUse
      { s.writeBuf with written := 0 } := rfl
  refine h.quiet draws obuf rfl rfl trivial rfl ?_ whole ⟨rfl, ?_⟩ rfl rfl
  · rw [pc]
    show leftOf .releasing _ = _
    simp only [leftOf, emptying]
  · show s.writeBuf.buf = _
    rw [← all, ← headers]
    exact (List.take_of_length_le (not_lt.mp done)).symm

private theorem Kept.markEmpty (h : Kept n s) (pc : s.write.pc = .releasing) :
    Kept n s.markEmpty := by
  have draws : Draws s.write.pc := by simp [pc, Draws]
  have emptying : s.writeBuf.status = .emptying := (h.emptying _).mpr ⟨draws, rfl⟩
  have progress := h.progress
  rw [pc] at progress
  obtain ⟨written, clean⟩ := progress
  obtain ⟨consumer, loaded⟩ := h.consumer draws
  have nothing : (slots s).left (slots s).consumer = [] := by
    rw [consumer]
    show leftOf s.write.pc s.writeBuf = []
    simp [leftOf, emptying, pc]
  obtain ⟨ordered, unchanged⟩ := h.ordered.release (consumer ▸ loaded) nothing
  have obuf : s.markEmpty.obuf = Function.update s.obuf s.write.bufInUse
      { s.writeBuf with status := .empty } := rfl
  have same : slots s.markEmpty = (slots s).release := by
    rw [slots_write h obuf rfl (show nextWrite _ = !s.write.bufInUse from rfl)]
    rw [Slots.release]
    rw [consumer]
    rfl
  have queue : frameQueue s.markEmpty = frameQueue s := by
    rw [frameQueue, same, unchanged]
    rfl
  refine h.of_write obuf rfl ?_ (fun _ => rfl) (h.whole _) (fun _ => clean) (fun _ => written)
    (h.emptying_iff obuf rfl ?_) (by rintro ⟨⟩) trivial (same ▸ ordered)
    (queue ▸ h.stream)
  · simp [emptying]
  · simp [State.markEmpty, State.setWritePc, Draws]

private theorem Kept.switchWrite (h : Kept n s) (pc : s.write.pc = .switching) :
    Kept n s.switchWrite := by
  have idle : ∀ b, (s.obuf b).status ≠ .emptying := by
    intro b
    exact (h.emptying b).not.mpr (by simp [pc, Draws])
  have obuf : s.switchWrite.obuf = Function.update s.obuf s.write.bufInUse s.writeBuf :=
    update_self_obuf s _
  have same : slots s.switchWrite = slots s := by
    apply slots_write_quiet h obuf rfl
    · simp [State.switchWrite, nextWrite, pc]
    · rfl
    · exact leftOf_congr (idle _)
  have queue : frameQueue s.switchWrite = frameQueue s := by
    rw [frameQueue, same]
    rfl
  refine h.of_write obuf rfl Iff.rfl id (h.whole _) (h.clean _) (h.unread _) ?_
    (by rintro ⟨⟩) trivial (same ▸ h.ordered) (queue ▸ h.stream)
  intro b
  simpa [State.switchWrite, Draws] using idle b

theorem Kept.writeStep (h : Kept n s) (stats : Bool) (io : FrameIo) :
    Kept n (writeStep ts conf s stats io) := by
  rw [Model.writeStep]
  cases pc : s.write.pc with
  | waiting =>
      dsimp only
      split
      · rename_i full
        exact h.write_look pc full
      · exact h
  | found => exact h.markEmptying pc stats
  | draining =>
      dsimp only
      split
      · rename_i more
        exact h.processFrame ts conf pc more
      · rename_i done
        exact h.resetBytes pc done
  | sending => exact h.sendFrame pc io
  | headers i =>
      dsimp only
      split
      · rename_i more
        exact h.resetHeader pc more
      · rename_i done
        exact h.resetWritten pc done
  | releasing => exact h.markEmpty pc
  | switching => exact h.switchWrite pc

end writer

section run

variable (ts : TsFuncs) (conf : Config) {n : ℕ}

theorem kept_start (ofd : Bool) (rtpSsrc : ℕ) : Kept n (start conf n ofd rtpSsrc) where
  filling := by
    intro b
    simp [start]
  emptying := by
    intro b
    simp [start, Draws]
  claimed := fun found => nomatch found
  ready := fun found => nomatch found
  whole := fun _ => List.length_replicate
  clean := fun _ _ => rfl
  unread := fun _ _ => rfl
  progress := trivial
  ordered := ⟨fun _ _ => rfl, (fun loaded => nomatch loaded), iff_of_true rfl rfl⟩
  stream := rfl

theorem Kept.step {s : State} (h : Kept n s) (t : Turn) : Kept n (step ts conf s t) := by
  cases t with
  | mix put => exact h.mixStep put
  | write stats io => exact h.writeStep ts conf stats io

theorem Kept.run {s : State} (h : Kept n s) (turns : List Turn) :
    Kept n (run ts conf s turns) := by
  induction turns generalizing s with
  | nil => exact h
  | cons t rest ih => exact ih (h.step ts conf t)

/-- The mixer works on a buffer from the moment it has found it empty until it marks it full. -/
def MixWorks (s : State) (b : Bool) : Prop :=
  (s.mix.pc = .found ∨ s.mix.pc = .filling) ∧ s.mix.bufInUse = b

/-- The writer works on a buffer from the moment it has found it full until it marks it empty. -/
def WriteWorks (s : State) (b : Bool) : Prop :=
  (s.write.pc = .found ∨ Draws s.write.pc) ∧ s.write.bufInUse = b

/-- What is promised of a state of the two processes over buffers of `n` frames. -/
structure HandsOver (n : ℕ) (s : State) : Prop where
  apart : ∀ b, ¬ (MixWorks s b ∧ WriteWorks s b)
  full : s.write.pc = .found → s.writeBuf.status = .full
  clean : s.mix.pc = .found →
    s.mixBuf.buf = List.replicate (7 * n) nullPacket ∧ s.mixBuf.written = 0
  stops : s.write.pc = .draining → ¬ s.writeBuf.written < s.writeBuf.size →
    s.writeBuf.written = s.writeBuf.size
  stream : s.handed ++ (slots s).queue = s.published.flatMap framesOf
  caughtUp : (∀ b, (s.obuf b).status ≠ .full) → (∀ b, (s.obuf b).status ≠ .emptying) →
    s.handed = s.published.flatMap framesOf

private theorem Kept.handsOver {s : State} (h : Kept n s) : HandsOver n s where
  apart := by
    rintro b ⟨⟨mixes, rfl⟩, writes, same⟩
    have early : (s.obuf s.mix.bufInUse).status = .empty ∨
        (s.obuf s.mix.bufInUse).status = .filling := by
      rcases mixes with found | filling
      · exact Or.inl (h.claimed found)
      · exact Or.inr ((h.filling _).mpr ⟨filling, rfl⟩)
    have late : (s.obuf s.mix.bufInUse).status = .full ∨
        (s.obuf s.mix.bufInUse).status = .emptying := by
      rw [← same]
      rcases writes with found | draws
      · exact Or.inl (h.ready found)
      · exact Or.inr ((h.emptying _).mpr ⟨draws, rfl⟩)
    rcases early with e | e <;> rcases late with l | l <;> simp [e] at l
  full := h.ready
  clean := by
    intro found
    have empty := h.claimed found
    exact ⟨h.clean _ empty, h.unread _ (by simp [empty])⟩
  stops := h.written_eq_size
  stream := h.stream
  caughtUp := by
    intro notFull notEmptying
    have none : ∀ b, (slots s).left b = [] := by
      intro b
      apply h.ordered.idle
      simp [slots, isLoaded, notFull b, notEmptying b]
    have stream : s.handed ++ (slots s).queue = s.published.flatMap framesOf := h.stream
    rwa [Slots.queue, none, none, List.append_nil, List.append_nil] at stream

/-- In every interleaving of the two processes they never work on one buffer together, the writer
drains full buffers only, the mixer starts on clean ones, and the frames handled are those of the
published buffers, in order and each once. -/
theorem handsOver_run (ofd : Bool) (rtpSsrc : ℕ) (turns : List Turn) :
    HandsOver n (run ts conf (start conf n ofd rtpSsrc) turns) :=
  ((kept_start conf ofd rtpSsrc).run ts conf turns).handsOver

end run

end Mptsd.Handoff.Safety
