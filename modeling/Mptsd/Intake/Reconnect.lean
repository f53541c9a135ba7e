/- Unit: Mptsd/Intake/Reconnect
   source: src/data.c (input_stream_reset, input_new), src/input.c (process_pat, process_pmt,
   process_eit, the loop of input_stream)
   digest: An input after a reconnect, side by side with a new one. -/

import Mptsd.Intake.Guard

set_option autoImplicit false
set_option relaxedAutoImplicit false

namespace Mptsd.Intake.Reconnect

open Mptsd.TsPacket (Packet tsPacketSize)
open Mptsd.Channels (Channel sampleChannel)
open Mptsd.Conf (Config sampleConfig)
open Mptsd.PidTable
open Mptsd.PsiTables
open Mptsd.Sections (sectionLibs)
open Mptsd.Intake.Model
open Mptsd.Intake.Rewrite
open Mptsd.Intake.Frames
open Mptsd.Intake.Guard (openingSteps)

section alike

variable (lib : Libs)

/-- A packet of a PMT or an EIT that the library has generated. -/
def Generated (p : Packet) : Prop :=
  (∃ M, p ∈ (lib.pmt.regenerate M).packets) ∨ ∃ E, p ∈ (lib.eit.regenerate E).packets

/-- The packet `p`, with its continuity counter set any number of times. -/
inductive Recounts (p : Packet) : Packet → Prop
  | refl : Recounts p p
  | setCont {q : Packet} (cont : ℕ) : Recounts p q → Recounts p (lib.setCont q cont)

/-- Two packets that come from one generated packet, up to the continuity counter. -/
def Recounted (p q : Packet) : Prop := ∃ g, Generated lib g ∧ Recounts lib g p ∧ Recounts lib g q

/-- The same packet, or the same packet of a generated table up to the continuity counter. -/
def Alike (p q : Packet) : Prop := p = q ∨ Recounted lib p q

variable {lib}

private theorem forall₂_mapIdx {α β γ δ : Type*} {R : α → β → Prop} {S : γ → δ → Prop}
    {f : ℕ → α → γ}
    {g : ℕ → β → δ} (each : ∀ i a b, R a b → S (f i a) (g i b)) {l : List α} {m : List β}
    (related : List.Forall₂ R l m) : List.Forall₂ S (l.mapIdx f) (m.mapIdx g) := by
  induction related generalizing f g with
  | nil => exact .nil
  | cons head _ ih =>
      rw [List.mapIdx_cons, List.mapIdx_cons]
      exact .cons (each 0 _ _ head) (ih fun i a b r => each (i + 1) a b r)

private theorem Recounted.setConts {packets packets' : List Packet}
    (related : List.Forall₂ (Recounted lib) packets packets') (cont cont' : ℕ) :
    List.Forall₂ (Recounted lib) (setConts lib.toTsFuncs cont packets)
      (setConts lib.toTsFuncs cont' packets') := by
  refine forall₂_mapIdx ?_ related
  rintro j p q ⟨g, generated, left, right⟩
  exact ⟨g, generated, left.setCont _, right.setCont _⟩

private theorem recounted_self {packets : List Packet}
    (generated : ∀ p ∈ packets, Generated lib p) :
    List.Forall₂ (Recounted lib) packets packets :=
  List.forall₂_same.mpr fun p member => ⟨p, generated p member, .refl, .refl⟩

private theorem alike_of_recounted {packets packets' : List Packet}
    (related : List.Forall₂ (Recounted lib) packets packets') :
    List.Forall₂ (Alike lib) packets packets' :=
  related.imp fun _ _ recounted => Or.inr recounted

end alike

/-- Rewritten PMTs that differ in their continuity counters. -/
structure TwinPmt (lib : Libs) (M N : TsPmt) : Prop where
  initialized : N.initialized = M.initialized
  packets : List.Forall₂ (Recounted lib) M.packets N.packets

/-- Streams that differ in the continuity counters of the generated tables. -/
structure Twin (lib : Libs) (s t : InputStream) : Prop where
  pidref : t.pidref = s.pidref
  nitPid : t.nitPid = s.nitPid
  pmtPid : t.pmtPid = s.pmtPid
  pcrPid : t.pcrPid = s.pcrPid
  pat : t.pat = s.pat
  pmt : t.pmt = s.pmt
  eit : t.eit = s.eit
  inputPcr : t.inputPcr = s.inputPcr
  lastPat : t.lastPat = s.lastPat
  lastPmt : t.lastPmt = s.lastPmt
  patRewritten : t.patRewritten.map TsPat.initialized = s.patRewritten.map TsPat.initialized
  pmtRewritten : Option.Rel (TwinPmt lib) s.pmtRewritten t.pmtRewritten
  eitRewritten : s.eitRewritten = none
  eitRewritten' : t.eitRewritten = none

/-- Inputs that go on alike: of the same channel, with the same room, and with the same packets
stored behind `base` and `base'`, up to the continuity counters of generated tables. -/
structure Mirror (lib : Libs) (base base' : List Packet) (r r' : Input) : Prop where
  channel : r'.channel = r.channel
  dienow : r'.dienow = r.dienow
  disabled : r'.disabled = r.disabled
  size : r'.buf.size = r.buf.size
  room : r'.buf.waiting.length = r.buf.waiting.length
  filled : ∃ data data', r.buf.filled = base ++ data ∧ r'.buf.filled = base' ++ data' ∧
    List.Forall₂ (Alike lib) data data'
  stream : Twin lib r.stream r'.stream

variable {lib : Libs} {conf : Config} {base base' : List Packet} {r r' : Input}
  {s t : InputStream} {p : Packet}

section buffer

private theorem Mirror.inputBufferAdd (h : Mirror lib base base' r r') {data data' : List Packet}
    (alike : List.Forall₂ (Alike lib) data data') :
    Mirror lib base base' (inputBufferAdd lib r data) (inputBufferAdd lib r' data') := by
  obtain ⟨before, before', filled, filled', same⟩ := h.filled
  have stored : r'.buf.stored = r.buf.stored := by
    unfold Cbuf.stored
    rw [h.room]
  have length : data'.length = data.length := alike.length_eq.symm
  have appended : ∃ now now', (r.buf.append data).filled = base ++ now ∧
      (r'.buf.append data').filled = base' ++ now' ∧ List.Forall₂ (Alike lib) now now' :=
    ⟨before ++ data, before' ++ data', by simp [filled], by simp [filled'],
      List.rel_append same alike⟩
  have full_iff : (r'.disabled = true ∧ ¬ (r'.buf.stored : ℚ) / r'.buf.size * 100 ≤ 50) ↔
      r.disabled = true ∧ ¬ (r.buf.stored : ℚ) / r.buf.size * 100 ≤ 50 := by
    rw [h.disabled, stored, h.size]
  have accepts : lib.cbufAccepts r'.buf.size r'.buf.stored (tsPacketSize * data'.length) =
      lib.cbufAccepts r.buf.size r.buf.stored (tsPacketSize * data.length) := by
    rw [h.size, stored, length]
  unfold Model.inputBufferAdd cbufFill
  dsimp only
  by_cases dead : r.dienow = true
  · rw [if_pos dead, if_pos (h.dienow.trans dead)]
    exact ⟨h.channel, h.dienow, h.disabled, h.size, h.room, h.filled, h.stream⟩
  · have alive : ¬ r'.dienow = true := by rwa [h.dienow]
    rw [if_neg dead, if_neg alive]
    by_cases full : r.disabled = true ∧ ¬ (r.buf.stored : ℚ) / r.buf.size * 100 ≤ 50
    · rw [if_pos full, if_pos (full_iff.mpr full)]
      exact ⟨h.channel, h.dienow, h.disabled, h.size, h.room, h.filled, h.stream⟩
    · rw [if_neg full, if_neg (mt full_iff.mp full)]
      by_cases accepted : lib.cbufAccepts r.buf.size r.buf.stored
          (tsPacketSize * data.length) = true
      · rw [if_pos accepted, if_pos (accepts.trans accepted), if_neg (not_not.mpr rfl),
          if_neg (not_not.mpr rfl)]
        refine ⟨h.channel, h.dienow, rfl, h.size, ?_, appended, h.stream⟩
        show (r'.buf.waiting ++ data').length = (r.buf.waiting ++ data).length
        rw [List.length_append, List.length_append, h.room, length]
      · have refused : ¬ lib.cbufAccepts r'.buf.size r'.buf.stored
            (tsPacketSize * data'.length) = true := by rwa [accepts]
        have failed : ((-1 : ℤ)) ≠ 0 := by decide
        rw [if_neg accepted, if_neg refused, if_pos failed, if_pos failed]
        exact ⟨h.channel, h.dienow, rfl, h.size, h.room, h.filled, h.stream⟩

private theorem Mirror.onStream (h : Mirror lib base base' r r') {f g : InputStream → InputStream}
    (twin : Twin lib (f r.stream) (g r'.stream)) :
    Mirror lib base base' (r.onStream f) (r'.onStream g) :=
  ⟨h.channel, h.dienow, h.disabled, h.size, h.room, h.filled, twin⟩

end buffer

section tables

private theorem Mirror.setPat (h : Mirror lib base base' r r') (pat : TsPat) :
    Mirror lib base base' (r.setPat pat) (r'.setPat pat) :=
  h.onStream { h.stream with pat := rfl }

private theorem Mirror.setPmt (h : Mirror lib base base' r r') (pmt : TsPmt) :
    Mirror lib base base' (r.setPmt pmt) (r'.setPmt pmt) :=
  h.onStream { h.stream with pmt := rfl }

private theorem Mirror.setEit (h : Mirror lib base base' r r') (eit : TsEit) :
    Mirror lib base base' (r.setEit eit) (r'.setEit eit) :=
  h.onStream { h.stream with eit := rfl }

private theorem Mirror.pushLastPat (h : Mirror lib base base' r r') (p : Packet) :
    Mirror lib base base' (pushLastPat lib r p) (pushLastPat lib r' p) :=
  h.onStream { h.stream with lastPat := by simp only [h.stream.lastPat] }

private theorem Mirror.pushLastPmt (h : Mirror lib base base' r r') (p : Packet) :
    Mirror lib base base' (pushLastPmt lib r p) (pushLastPmt lib r' p) :=
  h.onStream { h.stream with lastPmt := by simp only [h.stream.lastPmt] }

private theorem twin_scanPrograms (h : Twin lib s t) (n : ℕ) (programs : List TsPatProgram) :
    (scanPrograms t n programs).2 = (scanPrograms s n programs).2 ∧
      Twin lib (scanPrograms s n programs).1 (scanPrograms t n programs).1 := by
  induction programs generalizing s t n with
  | nil => exact ⟨rfl, h⟩
  | cons prg rest ih =>
      unfold scanPrograms
      split_ifs
      · exact ih (s := { s with nitPid := prg.pid }) (t := { t with nitPid := prg.pid })
          { h with nitPid := rfl } n
      · exact ⟨rfl, { h with pmtPid := rfl }⟩
      · exact ih h n

private theorem twin_inputProcessPat (h : Twin lib s t) :
    (inputProcessPat t).1 = (inputProcessPat s).1 ∧
      Twin lib (inputProcessPat s).2 (inputProcessPat t).2 := by
  obtain ⟨found, twin⟩ := twin_scanPrograms (s := { s with nitPid := 0x10 })
    (t := { t with nitPid := 0x10 }) { h with nitPid := rfl } 0 s.pat.programs
  have same : scanPrograms { t with nitPid := 0x10 } 0 t.pat.programs =
      scanPrograms { t with nitPid := 0x10 } 0 s.pat.programs := by rw [h.pat]
  unfold inputProcessPat
  dsimp only
  rw [same, found]
  split_ifs
  · exact ⟨rfl, twin⟩
  · exact ⟨rfl, twin⟩

private theorem Mirror.parsePat (h : Mirror lib base base' r r') :
    (parsePat r').1 = (parsePat r).1 ∧
      Mirror lib base base' (parsePat r).2 (parsePat r').2 := by
  obtain ⟨number, scanned⟩ := twin_inputProcessPat h.stream
  unfold Model.parsePat
  rw [h.stream.pmtPid, number]
  split_ifs
  · exact ⟨rfl, h.onStream (f := fun s => (inputProcessPat s).2)
      (g := fun s => (inputProcessPat s).2) scanned⟩
  · exact ⟨rfl, h⟩

private theorem Mirror.inputRewritePat (h : Mirror lib base base' r r') :
    Mirror lib base base' (inputRewritePat lib r) (inputRewritePat lib r') := by
  unfold Model.inputRewritePat
  rw [show lib.pat.copy r'.stream.pat = lib.pat.copy r.stream.pat by rw [h.stream.pat]]
  cases lib.pat.copy r.stream.pat with
  | none => exact h
  | some newPat =>
      refine ⟨h.channel, h.dienow, h.disabled, h.size, h.room, h.filled, ?_⟩
      refine { h.stream with pidref := ?_, patRewritten := ?_ }
      · dsimp only
        rw [h.stream.pidref, h.channel]
      · simp

private theorem Mirror.emitPat (h : Mirror lib base base' r r') :
    Mirror lib base base' (emitPat lib r) (emitPat lib r') := by
  obtain ⟨cont, P, left, same⟩ := emitPat_frame lib r
  obtain ⟨cont', P', right, same'⟩ := emitPat_frame lib r'
  rw [left, right]
  exact h.onStream
    { h.stream with patRewritten := by rw [same, same', h.stream.patRewritten] }

private theorem any_of_map {α : Type} {f : α → Bool} {a b : Option α} (same : b.map f = a.map f) :
    b.any f = a.any f := by
  cases a <;> cases b <;> simp_all

private theorem Mirror.processPat (h : Mirror lib base base' r r') (p : Packet) :
    (processPat lib r' 0 p).1 = (processPat lib r 0 p).1 ∧
      Mirror lib base base' (processPat lib r 0 p).2.1 (processPat lib r' 0 p).2.1 := by
  have pushed := h.setPat (lib.pat.push r.stream.pat p)
  have noted := pushed.pushLastPat p
  obtain ⟨number, parsed⟩ := noted.parsePat
  unfold Model.processPat
  dsimp only
  rw [if_neg (not_not.mpr rfl), if_neg (not_not.mpr rfl), h.stream.pat, h.stream.lastPat]
  by_cases incomplete : r.stream.lastPat.initialized = true ∧
      ¬ (lib.pat.push r.stream.pat p).initialized = true
  · rw [if_pos incomplete, if_pos incomplete]
    exact ⟨rfl, pushed⟩
  · rw [if_neg incomplete, if_neg incomplete]
    by_cases changed : r.stream.lastPat.initialized = true ∧
        ¬ lib.pat.isSame (lib.pat.push r.stream.pat p) r.stream.lastPat = true
    · rw [if_pos changed, if_pos changed]
      exact ⟨rfl, pushed⟩
    · rw [if_neg changed, if_neg changed]
      by_cases complete : (lib.pat.push r.stream.pat p).initialized = true
      · rw [if_pos complete, if_pos complete, number]
        split
        · exact ⟨rfl, parsed⟩
        · rw [any_of_map parsed.stream.patRewritten]
          split
          · exact ⟨rfl, parsed.emitPat⟩
          · exact ⟨rfl, parsed.inputRewritePat.emitPat⟩
      · rw [if_neg complete, if_neg complete]
        exact ⟨rfl, noted⟩

private theorem Mirror.inputRewritePmt (h : Mirror lib base base' r r') :
    Mirror lib base base' (inputRewritePmt lib r) (inputRewritePmt lib r') := by
  unfold Model.inputRewritePmt
  rw [show lib.pmt.copy r'.stream.pmt = lib.pmt.copy r.stream.pmt by rw [h.stream.pmt]]
  cases lib.pmt.copy r.stream.pmt with
  | none => exact h
  | some newPmt =>
      refine ⟨h.channel, h.dienow, h.disabled, h.size, h.room, h.filled, ?_⟩
      refine { h.stream with pidref := ?_, pcrPid := rfl, pmtRewritten := ?_ }
      · dsimp only
        rw [h.stream.pidref]
      · dsimp only
        rw [h.stream.pidref, h.stream.pmtPid, h.channel]
        exact .some ⟨rfl, recounted_self fun p member => Or.inl ⟨_, member⟩⟩

private theorem Mirror.emitPmt (h : Mirror lib base base' r r') :
    Mirror lib base base' (emitPmt lib r) (emitPmt lib r') := by
  have rewritten := h.stream.pmtRewritten
  unfold Model.emitPmt
  cases left : r.stream.pmtRewritten with
  | none =>
      rw [left] at rewritten
      cases right : r'.stream.pmtRewritten with
      | none => exact h
      | some N =>
          rw [right] at rewritten
          cases rewritten
  | some M =>
      rw [left] at rewritten
      cases right : r'.stream.pmtRewritten with
      | none =>
          rw [right] at rewritten
          cases rewritten
      | some N =>
          rw [right] at rewritten
          obtain ⟨⟨initialized, packets⟩⟩ := rewritten
          dsimp only
          rw [initialized]
          split
          · have counted := Recounted.setConts packets r.stream.pidPmtCont r'.stream.pidPmtCont
            refine Mirror.inputBufferAdd (h.onStream ?_) (alike_of_recounted counted)
            exact { h.stream with pmtRewritten := .some ⟨rfl, counted⟩ }
          · exact h

private theorem any_pmtRewritten (h : Twin lib s t) :
    t.pmtRewritten.any TsPmt.initialized = s.pmtRewritten.any TsPmt.initialized ∧
      t.pmtRewritten.isSome = s.pmtRewritten.isSome := by
  have rewritten := h.pmtRewritten
  generalize s.pmtRewritten = a at rewritten ⊢
  generalize t.pmtRewritten = b at rewritten ⊢
  cases rewritten with
  | none => exact ⟨rfl, rfl⟩
  | some twin => exact ⟨twin.initialized, rfl⟩

private theorem Mirror.processPmt (h : Mirror lib base base' r r') (pid : ℕ) (p : Packet) :
    (processPmt lib r' pid p).1 = (processPmt lib r pid p).1 ∧
      Mirror lib base base' (processPmt lib r pid p).2 (processPmt lib r' pid p).2 := by
  have pushed := h.setPmt (lib.pmt.push r.stream.pmt p)
  have noted := pushed.pushLastPmt p
  unfold Model.processPmt
  dsimp only
  rw [h.stream.pmt, h.stream.lastPmt, h.stream.pmtPid]
  by_cases other : pid = 0 ∨ pid ≠ r.stream.pmtPid
  · rw [if_pos other, if_pos other]
    exact ⟨rfl, h⟩
  · rw [if_neg other, if_neg other]
    by_cases incomplete : r.stream.lastPmt.initialized = true ∧
        ¬ (lib.pmt.push r.stream.pmt p).initialized = true
    · rw [if_pos incomplete, if_pos incomplete]
      exact ⟨rfl, pushed⟩
    · rw [if_neg incomplete, if_neg incomplete]
      by_cases changed : r.stream.lastPmt.initialized = true ∧
          ¬ lib.pmt.isSame (lib.pmt.push r.stream.pmt p) r.stream.lastPmt = true
      · rw [if_pos changed, if_pos changed]
        exact ⟨rfl, pushed⟩
      · rw [if_neg changed, if_neg changed]
        by_cases complete : (lib.pmt.push r.stream.pmt p).initialized = true
        · rw [if_pos complete, if_pos complete, (any_pmtRewritten noted.stream).1]
          split
          · exact ⟨rfl, noted.emitPmt⟩
          · exact ⟨rfl, noted.inputRewritePmt.emitPmt⟩
        · rw [if_neg complete, if_neg complete]
          exact ⟨rfl, noted⟩

private theorem inputBufferAdd_onStream (lib : Libs) (x : Input) (f : InputStream → InputStream)
    (data : List Packet) :
    inputBufferAdd lib (x.onStream f) data = (inputBufferAdd lib x data).onStream f := by
  unfold inputBufferAdd Input.onStream
  dsimp only
  split_ifs <;> rfl

private theorem onStream_onStream (x : Input) (f g : InputStream → InputStream) :
    (x.onStream f).onStream g = x.onStream fun s => g (f s) := rfl

private theorem emitEit_rewritten (lib : Libs) (x : Input) (P : TsEit) :
    emitEit lib (x.onStream fun s => { s with eitRewritten := some P }) P =
      (inputBufferAdd lib x (setConts lib.toTsFuncs x.stream.pidEitCont P.packets)).onStream
        fun s => { s with
          pidEitCont := (s.pidEitCont + P.packets.length) % 16
          eit := lib.eit.alloc
          eitRewritten := none } := by
  rw [Model.emitEit]
  simp only [stream_onStream, inputBufferAdd_onStream, onStream_onStream]

private theorem Mirror.emitEit (h : Mirror lib base base' r r') {P : TsEit}
    (generated : ∀ p ∈ P.packets, Generated lib p) :
    Mirror lib base base'
      (emitEit lib (r.onStream fun s => { s with eitRewritten := some P }) P)
      (emitEit lib (r'.onStream fun s => { s with eitRewritten := some P }) P) := by
  have counted := Recounted.setConts (recounted_self generated) r.stream.pidEitCont
    r'.stream.pidEitCont
  have added := h.inputBufferAdd (alike_of_recounted counted)
  rw [emitEit_rewritten, emitEit_rewritten]
  exact added.onStream { added.stream with eit := rfl, eitRewritten := rfl, eitRewritten' := rfl }

private theorem Mirror.processEit (h : Mirror lib base base' r r') (conf : Config) (p : Packet) :
    Mirror lib base base' (processEit lib conf r p).2 (processEit lib conf r' p).2 := by
  have pushed := h.setEit (lib.eit.push r.stream.eit p)
  have eit := h.stream.eit
  have mode := congrArg Channel.eitMode h.channel
  have service := congrArg Channel.serviceId h.channel
  by_cases off : r.channel.eitMode = 0
  · rw [processEit_off off, processEit_off (mode.trans off)]
    exact h
  · have on : r'.channel.eitMode ≠ 0 := by rwa [mode]
    by_cases complete : (lib.eit.push r.stream.eit p).initialized = true
    · have complete' : (lib.eit.push r'.stream.eit p).initialized = true := by rwa [eit]
      by_cases other : ((lib.eit.push r.stream.eit p).tsIdNumber : ℤ) ≠ r.channel.serviceId
      · rw [processEit_other off complete other,
          processEit_other on complete' (by rwa [eit, service]), eit]
        exact pushed
      · rw [processEit_own off h.stream.eitRewritten complete other,
          processEit_own on h.stream.eitRewritten' complete' (by rwa [eit, service]), eit]
        exact pushed.emitEit fun q member => Or.inr ⟨_, member⟩
    · rw [processEit_pending off complete, processEit_pending on (by rwa [eit]), eit]
      exact pushed

private theorem Mirror.notePcr (h : Mirror lib base base' r r') (pid : ℕ) (p : Packet) :
    Mirror lib base base' (notePcr lib r pid p) (notePcr lib r' pid p) := by
  unfold Model.notePcr
  rw [(any_pmtRewritten h.stream).2, h.stream.pcrPid]
  split
  · exact h.onStream { h.stream with inputPcr := rfl }
  · exact h

private theorem Mirror.forwardPacket (h : Mirror lib base base' r r') (pid : ℕ) (p : Packet) :
    Mirror lib base base' (forwardPacket lib r pid p) (forwardPacket lib r' pid p) := by
  have noted := h.notePcr pid p
  unfold Model.forwardPacket
  dsimp only
  rw [noted.stream.inputPcr, noted.stream.pidref]
  split
  · have added := noted.inputBufferAdd (List.forall₂_same.mpr fun q
      (_ : q ∈ [(pidrefChangePacketPid lib.toTsFuncs p pid
        (Model.notePcr lib r pid p).stream.pidref).2]) => Or.inl rfl)
    obtain ⟨n, left⟩ := ready_frame (Model.inputBufferAdd lib (Model.notePcr lib r pid p)
      [(pidrefChangePacketPid lib.toTsFuncs p pid (Model.notePcr lib r pid p).stream.pidref).2])
    obtain ⟨n', right⟩ := ready_frame (Model.inputBufferAdd lib (Model.notePcr lib r' pid p)
      [(pidrefChangePacketPid lib.toTsFuncs p pid (Model.notePcr lib r pid p).stream.pidref).2])
    rw [left, right]
    exact ⟨added.channel, added.dienow, added.disabled, added.size, added.room, added.filled,
      added.stream⟩
  · exact noted

end tables

section run

private theorem Mirror.inputPacket (h : Mirror lib base base' r r') (conf : Config) (p : Packet) :
    (inputPacket lib conf r' p).1 = (inputPacket lib conf r p).1 ∧
      Mirror lib base base' (inputPacket lib conf r p).2 (inputPacket lib conf r' p).2 := by
  cases dead : r.dienow with
  | true =>
      rw [inputPacket_of_dead dead, inputPacket_of_dead (h.dienow.trans dead)]
      exact ⟨rfl, h⟩
  | false =>
      have alive := h.dienow.trans dead
      by_cases pat : lib.getPid p = 0
      · obtain ⟨number, after⟩ := h.processPat p
        rw [inputPacket_of_pat dead pat, inputPacket_of_pat alive pat, number]
        exact ⟨rfl, after⟩
      · obtain ⟨number, after⟩ := h.processPmt (lib.getPid p) p
        have dropped : ∀ s t : InputStream, Twin lib s t → killed t (lib.getPid p) =
            killed s (lib.getPid p) := by
          intro s t twin
          unfold killed
          rw [twin.nitPid]
        rw [inputPacket_of_other dead pat, inputPacket_of_other alive pat]
        dsimp only
        rw [number, dropped _ _ after.stream]
        split_ifs
        · exact ⟨rfl, after⟩
        · exact ⟨rfl, after⟩
        · exact ⟨rfl, after.processEit conf p⟩
        · exact ⟨rfl, after⟩
        · exact ⟨rfl, after.forwardPacket _ p⟩

private theorem twin_reset (lib : Libs) {r r' : Input} (channel : r'.channel = r.channel) :
    Twin lib (inputStreamReset lib r).stream (inputStreamReset lib r').stream :=
  ⟨by rw [inputStreamReset, inputStreamReset, channel], rfl, rfl, rfl, rfl, rfl, rfl, rfl, rfl, rfl,
    rfl, .none, rfl, rfl⟩

private theorem Mirror.take (h : Mirror lib base base' r r') :
    Mirror lib base base' { r with buf := (cbufGet r.buf).2 }
      { r' with buf := (cbufGet r'.buf).2 } := by
  have room := h.room
  refine ⟨h.channel, h.dienow, h.disabled, ?_, ?_, ?_, h.stream⟩
  · exact h.size
  · show (cbufGet r'.buf).2.waiting.length = (cbufGet r.buf).2.waiting.length
    cases left : r.buf.waiting with
    | nil =>
        have right : r'.buf.waiting = [] := by
          rw [left] at room
          exact List.length_eq_zero_iff.mp room
        rw [cbufGet_of_nil left, cbufGet_of_nil right]
        exact room
    | cons q rest =>
        cases right : r'.buf.waiting with
        | nil =>
            rw [left, right] at room
            cases room
        | cons q' rest' =>
            rw [left, right] at room
            rw [cbufGet_of_cons left, cbufGet_of_cons right]
            exact Nat.succ.inj room
  · rw [filled_cbufGet, filled_cbufGet]
    exact h.filled

private theorem Mirror.inputStep (h : Mirror lib base base' r r') (conf : Config)
    (step : InputStep) :
    Mirror lib base base' (inputStep lib conf r step) (inputStep lib conf r' step) := by
  cases step with
  | packet p => exact (h.inputPacket conf p).2
  | reconnect =>
      have channel := congrArg Channels.chansrcNext h.channel
      exact ⟨channel, h.dienow, h.disabled, h.size, h.room, h.filled,
        @twin_reset lib { r with channel := Channels.chansrcNext r.channel }
          { r' with channel := Channels.chansrcNext r'.channel } channel⟩
  | take => exact h.take
  | stop => exact ⟨h.channel, rfl, h.disabled, h.size, h.room, h.filled, h.stream⟩

private theorem Mirror.inputRun (h : Mirror lib base base' r r') (conf : Config)
    (steps : List InputStep) :
    Mirror lib base base' (inputRun lib conf r steps) (inputRun lib conf r' steps) := by
  induction steps generalizing r r' with
  | nil => exact h
  | cons step rest ih => exact ih (h.inputStep conf step)

end run

/-- A new input of a channel, with this buffer, disabled or not. -/
def freshInput (lib : Libs) (name : String) (channel : Channel) (ifd disabled : Bool)
    (buf : Cbuf) : Input :=
  { inputNew lib name channel ifd with disabled, buf }

/-- The packets in the history of a buffer behind those that were there at the start. -/
def storedSince (before after : Cbuf) : List Packet := after.filled.drop before.filled.length

/-- From any state in which an input has not been told to exit: what it stores after a reset, in
any sequence of packets and whatever else happens to it, is what a new input of its channel stores
with the same room, packet by packet and up to the continuity counters of generated tables. Both
give the same new PIDs. -/
theorem reset_as_new (lib : Libs) (conf : Config) (r : Input) (alive : r.dienow = false)
    (name : String) (ifd : Bool) (buf : Cbuf) (size : buf.size = r.buf.size)
    (room : buf.stored = r.buf.stored) (steps : List InputStep) :
    let old := inputRun lib conf (inputStreamReset lib r) steps
    let new := inputRun lib conf (freshInput lib name r.channel ifd r.disabled buf) steps
    List.Forall₂ (Alike lib) (storedSince r.buf old.buf) (storedSince buf new.buf) ∧
      new.stream.pidref = old.stream.pidref := by
  intro old new
  have same : buf.waiting.length = r.buf.waiting.length := by
    unfold Cbuf.stored tsPacketSize at room
    omega
  have start : Mirror lib r.buf.filled buf.filled (inputStreamReset lib r)
      (freshInput lib name r.channel ifd r.disabled buf) :=
    ⟨rfl, alive.symm, rfl, size, same, ⟨[], [], by simp [inputStreamReset], by simp [freshInput],
      .nil⟩, ⟨rfl, rfl, rfl, rfl, rfl, rfl, rfl, rfl, rfl, rfl, rfl, .none, rfl, rfl⟩⟩
  have mirror := start.inputRun conf steps
  obtain ⟨data, data', left, right, alike⟩ := mirror.filled
  refine ⟨?_, mirror.stream.pidref⟩
  unfold storedSince
  rw [left, right, List.drop_left, List.drop_left]
  exact alike

/-- An input that has run for a while. -/
def runningInput : Input :=
  inputRun sectionLibs (sampleConfig 0) (inputNew sectionLibs "tv" (sampleChannel 1 0) false)
    openingSteps

theorem reset_as_new_running :
    let old := inputRun sectionLibs (sampleConfig 0) (inputStreamReset sectionLibs runningInput)
      openingSteps
    let new := inputRun sectionLibs (sampleConfig 0) (freshInput sectionLibs "tv"
      runningInput.channel false runningInput.disabled runningInput.buf) openingSteps
    List.Forall₂ (Alike sectionLibs) (storedSince runningInput.buf old.buf)
        (storedSince runningInput.buf new.buf) ∧
      new.stream.pidref = old.stream.pidref :=
  reset_as_new sectionLibs (sampleConfig 0) runningInput (by decide +kernel) "tv" false
    runningInput.buf rfl rfl openingSteps

/-- An input that has been told to exit. -/
def stoppedInput : Input :=
  inputRun sectionLibs (sampleConfig 0) (inputNew sectionLibs "tv" (sampleChannel 1 0) false)
    [.stop]

/-- An input that has been told to exit stores nothing after a reset, and a new one does. -/
theorem stopped_stores_nothing :
    ¬ List.Forall₂ (Alike sectionLibs)
      (storedSince stoppedInput.buf (inputRun sectionLibs (sampleConfig 0)
        (inputStreamReset sectionLibs stoppedInput) openingSteps).buf)
      (storedSince stoppedInput.buf (inputRun sectionLibs (sampleConfig 0)
        (freshInput sectionLibs "tv" stoppedInput.channel false stoppedInput.disabled
          stoppedInput.buf) openingSteps).buf) := by
  intro same
  have lengths := same.length_eq
  revert lengths
  decide +kernel

end Mptsd.Intake.Reconnect
