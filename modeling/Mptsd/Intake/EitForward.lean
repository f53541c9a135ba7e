/- Unit: Mptsd/Intake/EitForward
   source: src/input.c (process_eit, input_rewrite_eit, and its call in input_stream)
   digest: The EIT sections an input hands on, as an accumulator that is fed every packet the loop
   dispatches to process_eit. -/

import Mptsd.Intake.Frames
import Mptsd.Sections

set_option autoImplicit false
set_option relaxedAutoImplicit false

namespace Mptsd.Intake.EitForward

open Mptsd.TsPacket (Packet)
open Mptsd.Channels (Channel sampleChannel)
open Mptsd.Conf (Config sampleConfig)
open Mptsd.PsiTables
open Mptsd.Intake.Model
open Mptsd.Intake.Rewrite
open Mptsd.Intake.Frames
open Mptsd.Sections (sectionLibs eitPacket)

/-- The part of an input that `process_eit` works on. -/
def eitView (r : Input) : TsEit × Option TsEit × ℕ × Channel :=
  (r.stream.eit, r.stream.eitRewritten, r.stream.pidEitCont, r.channel)

section Frame

variable (lib : Libs) (r : Input)

@[simp] theorem eitView_inputBufferAdd (data : List Packet) :
    eitView (inputBufferAdd lib r data) = eitView r := by
  rw [inputBufferAdd]
  dsimp only
  split_ifs <;> rfl

@[simp] theorem eitView_processPmt (pid : ℕ) (p : Packet) :
    eitView (processPmt lib r pid p).2 = eitView r := by
  obtain ⟨x, ⟨_, _, _, _, _, _, _, rfl⟩, same | ⟨data, same⟩⟩ := processPmt_frame lib r pid p
  · rw [same]
    rfl
  · rw [same, eitView_inputBufferAdd]
    rfl

@[simp] theorem eitView_processPat (pid : ℕ) (p : Packet) :
    eitView (processPat lib r pid p).2.1 = eitView r := by
  obtain ⟨_, _, _, _, _, _, _, same⟩ := processPat_frame lib r pid p
  rw [same]
  rfl

@[simp] theorem eitView_forwardPacket (pid : ℕ) (p : Packet) :
    eitView (forwardPacket lib r pid p) = eitView r := by
  obtain ⟨inputPcr, same | ⟨data, inputReady, same⟩⟩ := forwardPacket_frame lib r pid p
  · rw [same]
    rfl
  · rw [same]
    exact eitView_inputBufferAdd lib _ data

end Frame

variable (lib : Libs) (conf : Config)

/-- Whether the packet loop dispatches this packet to `process_eit`. -/
def dispatched (r : Input) (p : Packet) : Prop :=
  r.dienow = false ∧ lib.getPid p = 0x12 ∧ 0 ≤ (processPmt lib r 0x12 p).1

instance (r : Input) (p : Packet) : Decidable (dispatched lib r p) := by
  rw [dispatched]
  infer_instance

theorem inputPacket_dispatched {r : Input} {p : Packet} (h : dispatched lib r p) :
    inputPacket lib conf r p =
      (.next, (processEit lib conf (processPmt lib r 0x12 p).2 p).2) := by
  obtain ⟨alive, pid, result⟩ := h
  rw [inputPacket_of_other alive (by omega)]
  simp only [pid, if_true]
  rw [if_neg (by omega), if_neg (by omega)]

theorem eitView_inputPacket {r : Input} {p : Packet} (h : ¬ dispatched lib r p) :
    eitView (inputPacket lib conf r p).2 = eitView r := by
  cases alive : r.dienow with
  | true => rw [inputPacket_of_dead alive]
  | false =>
      by_cases pid : lib.getPid p = 0
      · rw [inputPacket_of_pat alive pid]
        exact eitView_processPat _ _ _ _
      · rw [inputPacket_of_other alive pid]
        dsimp only
        split_ifs with reconnect early eit
        · exact eitView_processPmt _ _ _ _
        · exact eitView_processPmt _ _ _ _
        · exact absurd ⟨alive, eit, by rw [eit] at early; omega⟩ h
        · exact eitView_processPmt _ _ _ _
        · exact (eitView_forwardPacket _ _ _ _).trans (eitView_processPmt _ _ _ _)

/-- The calls of `process_eit` while a row of packets is worked off: the packet, and the data that
went to `input_buffer_add`. -/
def eitCalls (r : Input) : List Packet → List (Packet × List (List Packet))
  | [] => []
  | p :: rest =>
      let after := inputPacket lib conf r p
      let calls := if dispatched lib r p then [(p, after.2.fed.drop r.fed.length)] else []
      if after.1 = .next then calls ++ eitCalls after.2 rest else calls

/-- The packets `process_eit` was given. -/
def received (r : Input) (packets : List Packet) : List Packet :=
  (eitCalls lib conf r packets).map Prod.fst

/-- The data `process_eit` has handed to `input_buffer_add`. -/
def handed (r : Input) (packets : List Packet) : List (List Packet) :=
  (eitCalls lib conf r packets).flatMap Prod.snd

/-- The EIT accumulator of an input with its continuity counter, as an automaton on packets. -/
def eitStep (serviceId : ℤ) (acc : TsEit × ℕ) (p : Packet) :
    (TsEit × ℕ) × List (List Packet) :=
  let t := lib.eit.push acc.1 p
  if t.initialized then
    if (t.tsIdNumber : ℤ) ≠ serviceId then ((t, acc.2), [])
    else
      let P := rewrittenEit lib conf t
      ((lib.eit.alloc, (acc.2 + P.packets.length) % 16),
        [setConts lib.toTsFuncs acc.2 P.packets])
  else ((t, acc.2), [])

def eitRun (serviceId : ℤ) (acc : TsEit × ℕ) : List Packet → List (List Packet)
  | [] => []
  | p :: rest =>
      let after := eitStep lib conf serviceId acc p
      after.2 ++ eitRun serviceId after.1 rest

theorem eitView_emitEit (r : Input) (P : TsEit) :
    eitView (emitEit lib r P) =
      (lib.eit.alloc, none, (r.stream.pidEitCont + P.packets.length) % 16, r.channel) := by
  have kept := congrArg (fun v => (v.2.2.1, v.2.2.2)) (eitView_inputBufferAdd lib
    (r.onStream fun s =>
      { s with
        pidEitCont := (s.pidEitCont + P.packets.length) % 16
        eitRewritten := some
          { P with
            packets := setConts lib.toTsFuncs r.stream.pidEitCont P.packets
            continuity := s.pidEitCont } })
    (setConts lib.toTsFuncs r.stream.pidEitCont P.packets))
  simp only [eitView, Prod.mk.injEq] at kept
  simp only [eitView, Prod.mk.injEq]
  exact ⟨rfl, rfl, kept.1, kept.2⟩

private theorem fed_emitEit (r : Input) (P : TsEit) :
    (emitEit lib r P).fed =
      r.fed ++ [setConts lib.toTsFuncs r.stream.pidEitCont P.packets] :=
  fed_inputBufferAdd _ _ _

private theorem processEit_eitStep {r : Input} (mode : r.channel.eitMode ≠ 0)
    (clean : r.stream.eitRewritten = none) (p : Packet) :
    let after := eitStep lib conf r.channel.serviceId (r.stream.eit, r.stream.pidEitCont) p
    eitView (processEit lib conf r p).2 = (after.1.1, none, after.1.2, r.channel) ∧
      (processEit lib conf r p).2.fed = r.fed ++ after.2 := by
  rw [eitStep]
  by_cases complete : (lib.eit.push r.stream.eit p).initialized = true
  · by_cases own : ((lib.eit.push r.stream.eit p).tsIdNumber : ℤ) ≠ r.channel.serviceId
    · rw [processEit_other mode complete own]
      simp [complete, own, eitView, clean]
    · rw [processEit_own mode clean complete own]
      simp only [complete, own, if_true, if_false]
      exact ⟨eitView_emitEit _ _ _, fed_emitEit _ _ _⟩
  · rw [processEit_pending mode complete]
    simp [complete, eitView, clean]

private theorem fed_processPmt {r : Input} {pid : ℕ} {p : Packet}
    (on : 0 ≤ (processPmt lib r pid p).1) : (processPmt lib r pid p).2.fed = r.fed := by
  rw [processPmt] at on ⊢
  dsimp only at on ⊢
  split_ifs at on ⊢ <;> first | rfl | (norm_num at on)

private theorem dispatched_eitStep {r : Input} {p : Packet} (mode : r.channel.eitMode ≠ 0)
    (clean : r.stream.eitRewritten = none) (h : dispatched lib r p) :
    let after := eitStep lib conf r.channel.serviceId (r.stream.eit, r.stream.pidEitCont) p
    eitView (inputPacket lib conf r p).2 = (after.1.1, none, after.1.2, r.channel) ∧
      (inputPacket lib conf r p).2.fed = r.fed ++ after.2 := by
  have view := eitView_processPmt lib r 0x12 p
  have fed := fed_processPmt lib h.2.2
  simp only [eitView, Prod.mk.injEq] at view
  obtain ⟨eit, rewritten, cont, channel⟩ := view
  have step := processEit_eitStep lib conf (r := (processPmt lib r 0x12 p).2)
    (by rw [channel]; exact mode) (by rw [rewritten]; exact clean) p
  rw [inputPacket_dispatched lib conf h]
  rwa [eit, cont, channel, fed] at step

private theorem handed_eq_eitRun {r : Input} (mode : r.channel.eitMode ≠ 0)
    (clean : r.stream.eitRewritten = none) (packets : List Packet) :
    handed lib conf r packets =
      eitRun lib conf r.channel.serviceId (r.stream.eit, r.stream.pidEitCont)
        (received lib conf r packets) := by
  induction packets generalizing r with
  | nil => rfl
  | cons p rest ih =>
      unfold handed received at ih ⊢
      rw [eitCalls]
      by_cases h : dispatched lib r p
      · obtain ⟨view, fed⟩ := dispatched_eitStep lib conf mode clean h
        have next : (inputPacket lib conf r p).1 = .next := by
          rw [inputPacket_dispatched lib conf h]
        simp only [eitView, Prod.mk.injEq] at view
        obtain ⟨eit, rewritten, cont, channel⟩ := view
        have tail := ih (r := (inputPacket lib conf r p).2) (by rw [channel]; exact mode) rewritten
        rw [eit, cont, channel] at tail
        simp only [h, next, if_true, fed, List.drop_left, List.singleton_append, List.map_cons,
          List.flatMap_cons, eitRun]
        rw [tail]
      · have view := eitView_inputPacket lib conf h
        simp only [eitView, Prod.mk.injEq] at view
        obtain ⟨eit, rewritten, cont, channel⟩ := view
        have tail := ih (r := (inputPacket lib conf r p).2) (by rw [channel]; exact mode)
          (by rw [rewritten]; exact clean)
        rw [eit, cont, channel] at tail
        simp only [h, if_false, List.nil_append]
        split
        · exact tail
        · rfl

/-- The packets of one EIT section: they complete a fresh table, and only the last one does. -/
structure EitSection where
  packets : List Packet
  complete : (packets.foldl lib.eit.push lib.eit.alloc).initialized = true
  minimal : ∀ front, front <+: packets → front ≠ packets →
    (front.foldl lib.eit.push lib.eit.alloc).initialized = false

namespace EitSection

variable {lib}

/-- The table the section carries. -/
def table (s : EitSection lib) : TsEit := s.packets.foldl lib.eit.push lib.eit.alloc

/-- Whether the section is about this service. -/
def own (serviceId : ℤ) (s : EitSection lib) : Bool := (s.table.tsIdNumber : ℤ) = serviceId

/-- A section in one packet. -/
def single (p : Packet) (complete : (lib.eit.push lib.eit.alloc p).initialized = true) :
    EitSection lib where
  packets := [p]
  complete := complete
  minimal := by
    intro front inside ne
    rcases List.prefix_cons_iff.mp inside with rfl | ⟨rest, same, inside⟩
    · exact lib.eit.alloc_initialized
    · rw [List.prefix_nil.mp inside] at same
      exact absurd same ne

end EitSection

/-- The data to hand on for a row of tables, from a continuity counter on. -/
def rewrittenData (cont : ℕ) : List TsEit → List (List Packet)
  | [] => []
  | t :: rest =>
      let P := rewrittenEit lib conf t
      setConts lib.toTsFuncs cont P.packets ::
        rewrittenData ((cont + P.packets.length) % 16) rest

@[simp] theorem length_rewrittenData (cont : ℕ) (tables : List TsEit) :
    (rewrittenData lib conf cont tables).length = tables.length := by
  induction tables generalizing cont with
  | nil => rfl
  | cons t rest ih => simp [rewrittenData, ih]

private theorem eitRun_pending (serviceId : ℤ) (t : TsEit) (cont : ℕ) (packets rest : List Packet)
    (pending : ∀ front, front <+: packets → front ≠ [] →
      (front.foldl lib.eit.push t).initialized = false) :
    eitRun lib conf serviceId (t, cont) (packets ++ rest) =
      eitRun lib conf serviceId (packets.foldl lib.eit.push t, cont) rest := by
  induction packets generalizing t with
  | nil => rfl
  | cons p packets ih =>
      have first : (lib.eit.push t p).initialized = false :=
        pending [p] ⟨packets, rfl⟩ (by simp)
      have step : eitStep lib conf serviceId (t, cont) p = ((lib.eit.push t p, cont), []) := by
        simp [eitStep, first]
      rw [List.cons_append, eitRun, step]
      apply ih (lib.eit.push t p)
      intro front inside ne
      exact pending (p :: front) (List.cons_prefix_cons.mpr ⟨rfl, inside⟩) (by simp)

private theorem eitRun_stuck (serviceId : ℤ) (t : TsEit) (cont : ℕ) (packets : List Packet)
    (full : t.initialized = true) (other : (t.tsIdNumber : ℤ) ≠ serviceId) :
    eitRun lib conf serviceId (t, cont) packets = [] := by
  induction packets with
  | nil => rfl
  | cons p packets ih =>
      have step : eitStep lib conf serviceId (t, cont) p = ((t, cont), []) := by
        simp [eitStep, lib.eit.push_initialized t p full, full, other]
      rw [eitRun, step]
      exact ih

variable {lib}

private theorem eitRun_section (serviceId : ℤ) (cont : ℕ) (s : EitSection lib)
    (rest : List Packet) :
    eitRun lib conf serviceId (lib.eit.alloc, cont) (s.packets ++ rest) =
      if s.own serviceId then
        let P := rewrittenEit lib conf s.table
        setConts lib.toTsFuncs cont P.packets :: eitRun lib conf serviceId
          (lib.eit.alloc, (cont + P.packets.length) % 16) rest
      else [] := by
  have complete := s.complete
  rcases List.eq_nil_or_concat s.packets with empty | ⟨front, last, split⟩
  · rw [empty, List.foldl_nil, lib.eit.alloc_initialized] at complete
    cases complete
  · rw [List.concat_eq_append] at split
    have pending : ∀ part, part <+: front → part ≠ [] →
        (part.foldl lib.eit.push lib.eit.alloc).initialized = false := by
      intro part inside _
      refine s.minimal part (inside.trans ⟨[last], split.symm⟩) ?_
      rintro rfl
      have := inside.length_le
      rw [split] at this
      simp at this
    have table : lib.eit.push (front.foldl lib.eit.push lib.eit.alloc) last = s.table := by
      simp [EitSection.table, split]
    have full : s.table.initialized = true := complete
    have continued : s.packets ++ rest = front ++ last :: rest := by simp [split]
    rw [continued, eitRun_pending _ _ _ _ _ _ _ pending, eitRun]
    by_cases own : (s.table.tsIdNumber : ℤ) = serviceId
    · simp [eitStep, table, full, own, EitSection.own]
    · have stuck := eitRun_stuck lib conf serviceId s.table cont rest full own
      simp [eitStep, table, full, own, EitSection.own, stuck]

private theorem eitRun_sections (serviceId : ℤ) (cont : ℕ) (sections : List (EitSection lib))
    (tail : List Packet)
    (pending : ∀ front, front <+: tail →
      (front.foldl lib.eit.push lib.eit.alloc).initialized = false) :
    eitRun lib conf serviceId (lib.eit.alloc, cont)
        (sections.flatMap EitSection.packets ++ tail) =
      rewrittenData lib conf cont
        ((sections.takeWhile (EitSection.own serviceId)).map EitSection.table) := by
  induction sections generalizing cont with
  | nil =>
      have gathered := eitRun_pending lib conf serviceId lib.eit.alloc cont tail []
        (fun front inside _ => pending front inside)
      simpa [eitRun, rewrittenData] using gathered
  | cons s sections ih =>
      rw [List.flatMap_cons, List.append_assoc, eitRun_section, List.takeWhile_cons]
      by_cases own : s.own serviceId = true
      · simp only [own, if_true, List.map_cons, rewrittenData, ih]
      · simp [own, rewrittenData]

private theorem takeWhile_sublist_filter {α : Type*} (q : α → Bool) (l : List α) :
    (l.takeWhile q).Sublist (l.filter q) := by
  have all : (l.takeWhile q).filter q = l.takeWhile q :=
    List.filter_eq_self.mpr (List.all_eq_true.mp List.all_takeWhile)
  rw [← all]
  exact (List.takeWhile_sublist q).filter q

private theorem takeWhile_eq_filter_iff {α : Type*} (q : α → Bool) (l : List α) :
    l.takeWhile q = l.filter q ↔ l.Pairwise (fun a b => q b = true → q a = true) := by
  induction l with
  | nil => simp
  | cons a l ih =>
      rw [List.pairwise_cons, ← ih, List.takeWhile_cons, List.filter_cons]
      cases holds : q a with
      | true => simp
      | false =>
          have cut : l.filter q = [] → l.takeWhile q = [] := by
            intro none
            exact List.sublist_nil.mp (none ▸ takeWhile_sublist_filter q l)
          simp only [Bool.false_eq_true, if_false, imp_false, eq_comm (a := []),
            Bool.not_eq_true]
          constructor
          · intro none
            exact ⟨by simpa using none, by rw [cut none, none]⟩
          · rintro ⟨none, -⟩
            simpa using none

/-- After a reset the input hands on every section of its service, rewritten and in order, exactly
when none of them comes after a section of another service. -/
theorem handed_sections_iff (lib : Libs) (conf : Config) (r : Input)
    (mode : r.channel.eitMode ≠ 0) (packets : List Packet) (sections : List (EitSection lib))
    (tail : List Packet)
    (pending : ∀ front, front <+: tail →
      (front.foldl lib.eit.push lib.eit.alloc).initialized = false)
    (given : received lib conf (inputStreamReset lib r) packets =
      sections.flatMap EitSection.packets ++ tail) :
    handed lib conf (inputStreamReset lib r) packets =
        rewrittenData lib conf r.stream.pidEitCont
          ((sections.filter (EitSection.own r.channel.serviceId)).map EitSection.table) ↔
      sections.Pairwise (fun earlier later =>
        later.own r.channel.serviceId = true → earlier.own r.channel.serviceId = true) := by
  have run := handed_eq_eitRun lib conf (r := inputStreamReset lib r) mode rfl packets
  rw [given] at run
  have cut := eitRun_sections conf r.channel.serviceId r.stream.pidEitCont sections tail pending
  have same := run.trans cut
  rw [← takeWhile_eq_filter_iff, same]
  constructor
  · intro equal
    have lengths := congrArg List.length equal
    simp only [length_rewrittenData, List.length_map] at lengths
    exact (takeWhile_sublist_filter _ _).eq_of_length lengths
  · intro equal
    rw [equal]

/-- An input that forwards the EIT of service 101. -/
def eitInput : Input := inputNew sectionLibs "tv" (sampleChannel 1 1) false

/-- The section of service 101 in one packet. -/
def ownSection : EitSection sectionLibs := .single (eitPacket 101) (by decide +kernel)

theorem handed_two_own_sections :
    handed sectionLibs (sampleConfig 0) (inputStreamReset sectionLibs eitInput)
        [eitPacket 101, eitPacket 101] =
      rewrittenData sectionLibs (sampleConfig 0) eitInput.stream.pidEitCont
        (([ownSection, ownSection].filter (EitSection.own eitInput.channel.serviceId)).map
          EitSection.table) :=
  (handed_sections_iff sectionLibs (sampleConfig 0) eitInput (by decide)
    [eitPacket 101, eitPacket 101] [ownSection, ownSection] []
    (by
      intro front inside
      rw [List.prefix_nil.mp inside]
      rfl)
    (by decide +kernel)).mpr (by decide +kernel)

/-- After one section of service 200 the section of service 101 is not handed on. -/
theorem own_section_lost :
    ∃ sections : List (EitSection sectionLibs),
      received sectionLibs (sampleConfig 0) (inputStreamReset sectionLibs eitInput)
          [eitPacket 200, eitPacket 101] = sections.flatMap EitSection.packets ∧
      (sections.filter (EitSection.own 101)).length = 1 ∧
      handed sectionLibs (sampleConfig 0) (inputStreamReset sectionLibs eitInput)
          [eitPacket 200, eitPacket 101] = [] :=
  ⟨[.single (eitPacket 200) (by decide +kernel), ownSection],
    by decide +kernel, by decide +kernel, by decide +kernel⟩

end Mptsd.Intake.EitForward
