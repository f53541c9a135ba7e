/- Unit: Mptsd/Intake/Origins
   source: src/input.c (process_pat, process_pmt, process_eit, and the loop of input_stream)
   digest: Where the packets in the buffer of an input come from: they were received, or belong to
   a table that the input has rewritten. -/

import Mptsd.Intake.Stored

set_option autoImplicit false
set_option relaxedAutoImplicit false

namespace Mptsd.Intake.Origins

open Mptsd.Channels (Channel Made)
open Mptsd.Conf (Config)
open Mptsd.Intake.Announce (uint16_basePid)
open Mptsd.Intake.EitForward (eitView eitView_emitEit eitView_forwardPacket eitView_processPat
  eitView_processPmt)
open Mptsd.Intake.Effects
open Mptsd.Intake.Frames
open Mptsd.Intake.Model
open Mptsd.Intake.Rewrite
open Mptsd.Intake.Stored
open Mptsd.Intake.StreamInvariant
open Mptsd.Lib.Counter (cyclicRun)
open Mptsd.PidTable
open Mptsd.PsiTables
open Mptsd.TsPacket (Packet)

/-- The PIDs channel `c` hands out, however many of them its tables ask for. -/
def Given (c : Channel) (pid : ℕ) : Prop := 32 * c.index ≤ pid ∧ pid < 32 * c.index + 2049

/-- What the TS library has made of received packets, pushed one after the other. -/
def Gathered {T : Type} {initialized : T → Bool} (f : TableFuncs T initialized)
    (received : List Packet) (t : T) : Prop :=
  ∃ packets, packets ⊆ received ∧ t = packets.foldl f.push f.alloc

/-- A complete table in received packets. -/
structure Read {T : Type} {initialized : T → Bool} (f : TableFuncs T initialized)
    (received : List Packet) (t : T) : Prop where
  gathered : Gathered f received t
  complete : initialized t = true

/-- The PID table of channel `c` behind the PAT `P`. -/
def patPids (c : Channel) (P : TsPat) : Pidref :=
  (assignPids (pidrefInit 64 (uint16 c.basePid)) (patOrgs P.programs)).2

/-- The PMT `M` as an input of channel `c` rewrites it behind the PAT `P`. -/
def rewrittenPmt (lib : Libs) (c : Channel) (P : TsPat) (M : TsPmt) : TsPmt :=
  let pmtPid := ((patOrgs P.programs).find? fun pid => pid ≠ 0).getD 0
  let pcr := assignPid (patPids c P) M.pcrPid
  lib.pmt.regenerate
    { M with
      headerPid := pidrefGetNewPid (patPids c P) pmtPid
      tsIdNumber := uint16 c.serviceId
      pcrPid := pcr.1
      streams := (rewriteStreams M.pcrPid pcr.1 pcr.2 M.streams).1 }

/-- The packets of a rewritten PMT, with the continuity counters of the times it was handed on. -/
inductive PmtPackets (lib : Libs) (c : Channel) (received : List Packet) : List Packet → Prop
  | made (P : TsPat) (M : TsPmt) (pat : Read lib.pat received P) (pmt : Read lib.pmt received M) :
      PmtPackets lib c received (rewrittenPmt lib c P M).packets
  | counted (cont : ℕ) {packets : List Packet} (own : PmtPackets lib c received packets) :
      PmtPackets lib c received (setConts lib.toTsFuncs cont packets)

/-- Where a packet in the buffer of an input of channel `c` comes from: it was received, on its PID
or on one in place of which it was given this; or it belongs to a PMT, or to an EIT of the channel's
service, that was received and rewritten. -/
inductive Comes (lib : Libs) (conf : Config) (c : Channel) (received : List Packet) (q : Packet) :
    Prop
  | kept (got : q ∈ received)
  | renamed (p : Packet) (got : p ∈ received) (pid : ℕ) (given : Given c pid)
      (same : q = lib.setPid p pid)
  | pmt (packets : List Packet) (own : PmtPackets lib c received packets) (cont : ℕ)
      (member : q ∈ setConts lib.toTsFuncs cont packets)
  | eit (mode : c.eitMode ≠ 0) (t : TsEit) (read : Read lib.eit received t)
      (own : (t.tsIdNumber : ℤ) = c.serviceId) (cont : ℕ)
      (member : q ∈ setConts lib.toTsFuncs cont (rewrittenEit lib conf t).packets)

variable {lib : Libs} {conf : Config} {c : Channel} {r : Input} {received received' : List Packet}
  {p q : Packet}

section mono

variable {T : Type} {initialized : T → Bool} {f : TableFuncs T initialized} {t : T}

theorem gathered_alloc : Gathered f received f.alloc := ⟨[], List.nil_subset _, rfl⟩

private theorem Gathered.push (h : Gathered f received t) (got : p ∈ received) :
    Gathered f received (f.push t p) := by
  obtain ⟨packets, part, rfl⟩ := h
  refine ⟨packets ++ [p], List.append_subset.mpr ⟨part, by simpa using got⟩, ?_⟩
  rw [List.foldl_concat]

theorem Read.mono (h : Read f received t) (more : received ⊆ received') : Read f received' t := by
  obtain ⟨⟨packets, part, same⟩, complete⟩ := h
  exact ⟨⟨packets, List.Subset.trans part more, same⟩, complete⟩

theorem PmtPackets.mono {packets : List Packet} (h : PmtPackets lib c received packets)
    (more : received ⊆ received') : PmtPackets lib c received' packets := by
  induction h with
  | made P M pat pmt => exact .made P M (pat.mono more) (pmt.mono more)
  | counted cont _ ih => exact .counted cont ih

theorem Comes.mono (h : Comes lib conf c received q) (more : received ⊆ received') :
    Comes lib conf c received' q := by
  cases h with
  | kept got => exact .kept (more got)
  | renamed p got pid given same => exact .renamed p (more got) pid given same
  | pmt packets own cont member => exact .pmt packets (own.mono more) cont member
  | eit mode t read own cont member => exact .eit mode t (read.mono more) own cont member

end mono

/-- The tables an input collects have all come in received packets. -/
structure Collects (lib : Libs) (received : List Packet) (r : Input) : Prop where
  pat : Gathered lib.pat received r.stream.pat
  pmt : Gathered lib.pmt received r.stream.pmt
  eit : Gathered lib.eit received r.stream.eit

section collects

variable {r' : Input}

theorem Collects.congr (h : Collects lib received r)
    (tables : tablesView r'.stream = tablesView r.stream) (eit : r'.stream.eit = r.stream.eit) :
    Collects lib received r' := by
  simp only [tablesView, Prod.mk.injEq] at tables
  exact ⟨tables.1 ▸ h.pat, tables.2 ▸ h.pmt, eit ▸ h.eit⟩

private theorem Collects.processPat (h : Collects lib received r) (got : p ∈ received) (pid : ℕ) :
    Collects lib received (processPat lib r pid p).2.1 := by
  have eit : (Model.processPat lib r pid p).2.1.stream.eit = r.stream.eit :=
    congrArg (fun v => v.1) (eitView_processPat lib r pid p)
  rcases tablesView_processPat lib r pid p with same | pushed
  · exact h.congr same eit
  · simp only [tablesView, Prod.mk.injEq] at pushed
    exact ⟨pushed.1 ▸ h.pat.push got, pushed.2 ▸ h.pmt, eit ▸ h.eit⟩

private theorem Collects.processPmt (h : Collects lib received r) (got : p ∈ received) (pid : ℕ) :
    Collects lib received (processPmt lib r pid p).2 := by
  have eit : (Model.processPmt lib r pid p).2.stream.eit = r.stream.eit :=
    congrArg (fun v => v.1) (eitView_processPmt lib r pid p)
  rcases tablesView_processPmt lib r pid p with same | pushed
  · exact h.congr same eit
  · simp only [tablesView, Prod.mk.injEq] at pushed
    exact ⟨pushed.1 ▸ h.pat, pushed.2 ▸ h.pmt.push got, eit ▸ h.eit⟩

private theorem Collects.processEit (h : Collects lib received r)
    (clean : r.stream.eitRewritten = none)
    (got : p ∈ received) : Collects lib received (processEit lib conf r p).2 := by
  have pushed : Gathered lib.eit received (lib.eit.push r.stream.eit p) := h.eit.push got
  rcases processEit_cases conf p clean with same | same | ⟨-, same⟩
  · rw [same]
    exact h
  · rw [same]
    exact ⟨h.pat, h.pmt, pushed⟩
  · rw [same]
    refine ⟨?_, ?_, ?_⟩
    · rw [stream_emitEit]
      exact h.pat
    · rw [stream_emitEit]
      exact h.pmt
    · rw [stream_emitEit]
      exact gathered_alloc

theorem Collects.inputPacket (h : Collects lib received r) (clean : r.stream.eitRewritten = none)
    (got : p ∈ received) : Collects lib received (inputPacket lib conf r p).2 := by
  cases alive : r.dienow with
  | true =>
      rw [inputPacket_of_dead alive]
      exact h
  | false =>
      by_cases pid : lib.getPid p = 0
      · rw [inputPacket_of_pat alive pid]
        exact h.processPat got 0
      · have after : Collects lib received (Model.processPmt lib r (lib.getPid p) p).2 :=
          h.processPmt got _
        have still : (Model.processPmt lib r (lib.getPid p) p).2.stream.eitRewritten = none :=
          (congrArg (fun v => v.2.1) (eitView_processPmt lib r (lib.getPid p) p)).trans clean
        rw [inputPacket_of_other alive pid]
        dsimp only
        split_ifs
        · exact after
        · exact after
        · exact after.processEit still got
        · exact after
        · exact after.congr (tablesView_forwardPacket lib _ _ p)
            (congrArg (fun v => v.1) (eitView_forwardPacket lib _ _ p))

end collects

/-- The rewritten PMT of an input, if there is one, was made of received packets. -/
def PmtMade (lib : Libs) (c : Channel) (received : List Packet) (r : Input) : Prop :=
  ∀ M, r.stream.pmtRewritten = some M → PmtPackets lib c received M.packets

/-- What an input holds, stored or to be stored, comes from what it received. -/
structure Traced (lib : Libs) (conf : Config) (c : Channel) (received : List Packet) (r : Input) :
    Prop where
  stocked : Stocked lib c r
  serviceId : r.channel.serviceId = c.serviceId
  collects : Collects lib received r
  pmt : PmtMade lib c received r
  stored : ∀ q ∈ r.buf.filled, Comes lib conf c received q

section pmt

/-- The buffer is left alone, or gets the packets of a rewritten PMT. -/
structure Tabled (lib : Libs) (c : Channel) (received : List Packet) (r r' : Input) : Prop where
  buf : bufView r' = bufView r ∨ ∃ packets cont, PmtPackets lib c received packets ∧
    bufView r' = bufView (inputBufferAdd lib r (setConts lib.toTsFuncs cont packets))
  pmt : PmtMade lib c received r'

private theorem tabled_emitPmt (made : PmtMade lib c received r) :
    Tabled lib c received r (emitPmt lib r) := by
  rcases emitPmt_cases lib r with same | ⟨M, rewritten, -, same⟩
  · rw [same]
    exact ⟨.inl rfl, made⟩
  · have own := made M rewritten
    rw [same]
    refine ⟨.inr ⟨M.packets, r.stream.pidPmtCont, own, ?_⟩, ?_⟩
    · exact bufView_inputBufferAdd_congr lib (bufView_onStream r _) _
    · rw [PmtMade, stream_inputBufferAdd]
      rintro M' other
      obtain rfl := Option.some.inj other
      exact own.counted _

private theorem pmtRewritten_of_first (h : Tracked lib (uint16 c.basePid) r.stream)
    (serviceId : r.channel.serviceId = c.serviceId) (complete : r.stream.pmt.initialized = true)
    (absent : r.stream.pmtRewritten = none) (pat : r.stream.patRewritten.isSome = true)
    (known : r.stream.pmtPid ≠ 0) :
    (inputRewritePmt lib r).stream.pmtRewritten =
      some (rewrittenPmt lib c r.stream.pat r.stream.pmt) := by
  have table : r.stream.pidref = patPids c r.stream.pat := h.pidref_patTable pat absent
  rw [pmtRewritten_inputRewritePmt complete, rewrittenPmt, table, serviceId, (h.pmtPid known).2]
  rfl

private theorem Traced.tabled (h : Traced lib conf c received r) (got : p ∈ received) (pid : ℕ) :
    Tabled lib c received r (processPmt lib r pid p).2 := by
  have view : bufView (pushLastPmt lib (r.setPmt (lib.pmt.push r.stream.pmt p)) p) = bufView r :=
    rfl
  have pushed : Gathered lib.pmt received (lib.pmt.push r.stream.pmt p) := h.collects.pmt.push got
  have noted := tracked_pushLastPmt (tracked_setPmt h.stocked.sound.tracked p) p
  have handed : ∀ x : Input, bufView x = bufView r → PmtMade lib c received x →
      Tabled lib c received r (emitPmt lib x) := by
    intro x same ready
    obtain ⟨buf, pmt⟩ := tabled_emitPmt ready
    refine ⟨?_, pmt⟩
    rcases buf with idle | ⟨packets, cont, own, added⟩
    · exact .inl (idle.trans same)
    · exact .inr ⟨packets, cont, own, added.trans (bufView_inputBufferAdd_congr lib same _)⟩
  rw [processPmt]
  dsimp only
  split_ifs with other incomplete changed complete again
  · exact ⟨.inl rfl, h.pmt⟩
  · exact ⟨.inl rfl, h.pmt⟩
  · exact ⟨.inl rfl, h.pmt⟩
  · exact handed _ view h.pmt
  · refine handed _ ((bufView_inputRewritePmt lib _).trans view) ?_
    have found : r.stream.pmtPid ≠ 0 := by
      rintro zero
      rw [zero] at other
      omega
    have rewritten := h.stocked.sound.known found
    have patDone : r.stream.pat.initialized = true := by
      obtain ⟨P, some⟩ := Option.isSome_iff_exists.mp rewritten
      exact (h.stocked.sound.tracked.pat P some).2
    rw [PmtMade, pmtRewritten_of_first noted h.serviceId complete (noted.pmt_absent again) rewritten
      found]
    rintro M same
    obtain rfl := Option.some.inj same
    exact .made _ _ ⟨h.collects.pat, patDone⟩ ⟨pushed, complete⟩
  · exact ⟨.inl view, h.pmt⟩

end pmt

section packet

private theorem given_of_run {n pid : ℕ} (low : c.index < 32) (fits : n ≤ 2049)
    (member : pid ∈ cyclicRun (2 ^ 16) (32 * c.index) n) : Given c pid := by
  obtain ⟨j, below, rfl⟩ := List.mem_map.mp member
  rw [List.mem_range] at below
  rw [Given]
  omega

private theorem comes_forwarded (h : Stocked lib c r) (made : Made c) (low : c.index < 32)
    (got : p ∈ received) : Comes lib conf c received
      (pidrefChangePacketPid lib.toTsFuncs p (lib.getPid p) r.stream.pidref).2 := by
  rw [pidrefChangePacketPid]
  split_ifs with found
  · refine .renamed p got _ ?_ rfl
    rw [h.sound.tracked.pidref, uint16_basePid made] at found ⊢
    exact given_of_run low (h.small.length_orgsDone h.sound.tracked)
      (lookup_assigned (by omega) found)
  · exact .kept got

private theorem processEit_read (conf : Config) (collects : Collects lib received r)
    (clean : r.stream.eitRewritten = none) (got : p ∈ received) :
    bufView (processEit lib conf r p).2 = bufView r ∨
      ∃ t, r.channel.eitMode ≠ 0 ∧ Read lib.eit received t ∧
        (t.tsIdNumber : ℤ) = r.channel.serviceId ∧
        bufView (processEit lib conf r p).2 = bufView (inputBufferAdd lib r
          (setConts lib.toTsFuncs r.stream.pidEitCont (rewrittenEit lib conf t).packets)) := by
  by_cases off : r.channel.eitMode = 0
  · rw [processEit_off off]
    exact .inl rfl
  · by_cases complete : (lib.eit.push r.stream.eit p).initialized = true
    · by_cases other : ((lib.eit.push r.stream.eit p).tsIdNumber : ℤ) ≠ r.channel.serviceId
      · rw [processEit_other off complete other]
        exact .inl rfl
      · rw [processEit_own off clean complete other]
        refine .inr ⟨_, off, ⟨collects.eit.push got, complete⟩, not_not.mp other, ?_⟩
        exact (bufView_emitEit lib _ _).trans (bufView_inputBufferAdd_congr lib (by rfl) _)
    · rw [processEit_pending off complete]
      exact .inl rfl

/-- What a packet does to its input: what it adds to the buffer comes from what was received. -/
structure Feeds (lib : Libs) (conf : Config) (c : Channel) (received : List Packet) (r r' : Input) :
    Prop where
  buf : bufView r' = bufView r ∨ ∃ data, (∀ q ∈ data, Comes lib conf c received q) ∧
    bufView r' = bufView (inputBufferAdd lib r data)
  pmt : PmtMade lib c received r'

private theorem Traced.feeds (h : Traced lib conf c received r) (made : Made c) (low : c.index < 32)
    (got : p ∈ received) : Feeds lib conf c received r (inputPacket lib conf r p).2 := by
  have sound := h.stocked.sound
  cases alive : r.dienow with
  | true =>
      rw [inputPacket_of_dead alive]
      exact ⟨.inl rfl, h.pmt⟩
  | false =>
      by_cases pid : lib.getPid p = 0
      · rw [inputPacket_of_pat alive pid]
        refine ⟨.inl (bufView_processPat lib r 0 p), ?_⟩
        rw [PmtMade, pmtRewritten_processPat]
        exact h.pmt
      · obtain ⟨buf, ready⟩ := h.tabled got (lib.getPid p)
        have tables : Feeds lib conf c received r (processPmt lib r (lib.getPid p) p).2 := by
          refine ⟨buf.imp_right ?_, ready⟩
          rintro ⟨packets, cont, own, added⟩
          exact ⟨_, fun q member => .pmt packets own cont member, added⟩
        have view := eitView_processPmt lib r (lib.getPid p) p
        have clean : (processPmt lib r (lib.getPid p) p).2.stream.eitRewritten = none :=
          (congrArg (fun v => v.2.1) view).trans sound.tracked.eit
        have channel : (processPmt lib r (lib.getPid p) p).2.channel = r.channel :=
          congrArg (fun v => v.2.2.2) view
        rw [inputPacket_of_other alive pid]
        dsimp only
        split_ifs with reconnect early eit dropped
        · exact tables
        · exact tables
        · have on : 0 ≤ (processPmt lib r (lib.getPid p) p).1 := by omega
          obtain ⟨-, same⟩ := pidref_processPmt on
          refine ⟨?_, ?_⟩
          · rcases processEit_read conf (h.collects.processPmt got _) clean got with
              still | ⟨t, mode, read, own, added⟩
            · exact .inl (still.trans same)
            · rw [channel, sound.eitMode] at mode
              rw [channel, h.serviceId] at own
              exact .inr ⟨_, fun q member => .eit mode t read own _ member,
                added.trans (bufView_inputBufferAdd_congr lib same _)⟩
          · rw [PmtMade, (rewritten_processEit lib conf clean p).1]
            exact ready
        · exact tables
        · have on : 0 ≤ (processPmt lib r (lib.getPid p) p).1 := by omega
          obtain ⟨pidref, same⟩ := pidref_processPmt on
          have noted : (notePcr lib (processPmt lib r (lib.getPid p) p).2 (lib.getPid p)
              p).stream.pmtRewritten =
                (processPmt lib r (lib.getPid p) p).2.stream.pmtRewritten := by
            obtain ⟨_, kept⟩ := notePcr_frame lib (processPmt lib r (lib.getPid p) p).2
              (lib.getPid p) p
            rw [kept]
            rfl
          have effect := forwardPacket_effect lib
            (processPmt lib r (lib.getPid p) p).2 (lib.getPid p) p
          rw [pidref, same] at effect
          refine ⟨?_, ?_⟩
          · split_ifs at effect
            · refine .inr ⟨_, fun q member => ?_,
                effect.trans (bufView_inputBufferAdd_congr lib same _)⟩
              obtain rfl := List.mem_singleton.mp member
              exact comes_forwarded h.stocked made low got
            · exact .inl effect
          · rw [PmtMade, forwardPacket_stream, noted]
            exact ready

end packet

theorem Traced.inputPacket (h : Traced lib conf c received r) (made : Made c) (low : c.index < 32)
    (got : p ∈ received) : Traced lib conf c received (inputPacket lib conf r p).2 := by
  have clean := h.stocked.sound.tracked.eit
  obtain ⟨buf, pmt⟩ : Feeds lib conf c received r (Model.inputPacket lib conf r p).2 :=
    h.feeds made low got
  refine ⟨h.stocked.inputStep made low (.packet p), ?_, h.collects.inputPacket clean got, pmt, ?_⟩
  · rw [channel_inputPacket clean]
    exact h.serviceId
  · rcases buf with same | ⟨data, comes, added⟩
    · rw [filled_congr same]
      exact h.stored
    · intro q stored
      rw [filled_congr added, filled_inputBufferAdd] at stored
      split at stored
      · rcases List.mem_append.mp stored with old | new
        · exact h.stored q old
        · exact comes q new
      · exact h.stored q stored

end Mptsd.Intake.Origins
