/- Unit: Mptsd/Epg/Versions
   source: src/config.c (config_reset_channels_epg, config_channel_init_epg, config_load_epg)
   digest: The entries, the tables and the version of a channel over any history of polls. -/

import Mptsd.Epg.Reload

set_option autoImplicit false
set_option relaxedAutoImplicit false

namespace Mptsd.Epg.Versions

open Mptsd.Ini
open Mptsd.Epg.Model
open Mptsd.Epg.Reload (Entries)

/-- What a poll finds: no file, or the time of its last change with what it holds. -/
abbrev Poll := Option (ℕ × Option Values)

/-- The table that `config_channel_init_epg` makes of one of the entries of a channel. -/
def builtTable (transportStreamId networkId : ℤ) (c : EpgChannel) (sectionNumber : ℕ)
    (event : Option EpgEntry) : EpgTable where
  serviceId := c.serviceId
  transportStreamId
  networkId
  sectionNumber
  version := c.epgVersion
  event

/-- The tables of a channel are there when it has an entry, and are made of its entries with its
version. -/
structure Corresponds (transportStreamId networkId : ℤ) (c : EpgChannel) : Prop where
  present : c.eitNow.isSome = (c.epgNow.isSome || c.epgNext.isSome)
  both : c.eitNext.isSome = c.eitNow.isSome
  now : ∀ t, c.eitNow = some t → t = builtTable transportStreamId networkId c 0 c.epgNow
  next : ∀ t, c.eitNext = some t → t = builtTable transportStreamId networkId c 1 c.epgNext

/-- The tables that a channel carries. -/
def carried (c : EpgChannel) : Option (EpgTable × EpgTable) :=
  match c.eitNow, c.eitNext with
  | some now, some next => some (now, next)
  | _, _ => none

variable (dvb : DvbStrings)

/-- The entries that a poll has for a channel: those of the file, none without one, and the current
ones when the file has not changed. -/
def pollEntries (conf : EpgConf) (st : Poll) (c : EpgChannel) : Entries :=
  match st with
  | none => (none, none)
  | some (mtime, ini) =>
      if mtime > conf.epgConfMtime then
        match ini with
        | none => (none, none)
        | some ini =>
            (configLoadEpgEntry dvb ini "now" c.id, configLoadEpgEntry dvb ini "next" c.id)
      else (c.epgNow, c.epgNext)

/-- What a poll makes of a channel. -/
def pollChannel (conf : EpgConf) (st : Poll) (c : EpgChannel) : EpgChannel :=
  match st with
  | none => channelFreeEpg c
  | some (mtime, ini) =>
      if mtime > conf.epgConfMtime then
        match ini with
        | none => channelFreeEpg c
        | some ini =>
            configChannelInitEpg conf c (configLoadEpgEntry dvb ini "now" c.id)
              (configLoadEpgEntry dvb ini "next" c.id)
      else c

/-- The program with an observer of the tables that each channel carried last. -/
structure Guide where
  conf : EpgConf
  last : ℕ → Option (EpgTable × EpgTable)

def Guide.poll (w : Guide) (st : Poll) : Guide :=
  let conf := (configLoadEpg dvb w.conf st).2
  { conf, last := fun i => (conf.channels[i]?.bind carried).or (w.last i) }

/-- Channels as `channel_new` leaves them, with their ids and services. -/
def Guide.start (transportStreamId networkId : ℤ) (channels : List (String × ℤ)) : Guide where
  conf :=
    { transportStreamId
      networkId
      epgConfMtime := 0
      channels := channels.map fun c => EpgChannel.new c.1 c.2 }
  last := fun _ => none

def guideAfter (transportStreamId networkId : ℤ) (channels : List (String × ℤ))
    (polls : List Poll) : Guide :=
  polls.foldl (Guide.poll dvb) (Guide.start transportStreamId networkId channels)

section poll

variable {dvb} {conf : EpgConf} {c : EpgChannel}

variable (dvb) in
private theorem configLoadEpg_spec (conf : EpgConf) (st : Poll) :
    (configLoadEpg dvb conf st).2.transportStreamId = conf.transportStreamId ∧
      (configLoadEpg dvb conf st).2.networkId = conf.networkId ∧
      (configLoadEpg dvb conf st).2.channels = conf.channels.map (pollChannel dvb conf st) := by
  unfold configLoadEpg pollChannel
  rcases st with _ | ⟨mtime, ini⟩
  · exact ⟨rfl, rfl, rfl⟩
  · by_cases newer : mtime > conf.epgConfMtime
    · simp only [if_pos newer]
      cases ini with
      | none => exact ⟨rfl, rfl, rfl⟩
      | some ini => exact ⟨rfl, rfl, rfl⟩
    · simp only [if_neg newer]
      exact ⟨trivial, trivial, (List.map_id' _).symm⟩

private theorem configChannelInitEpg_cases (conf : EpgConf) (c : EpgChannel)
    (now next : Option EpgEntry) :
    (now = c.epgNow ∧ next = c.epgNext) ∧ configChannelInitEpg conf c now next = c ∨
      ¬ (now = c.epgNow ∧ next = c.epgNext) ∧
        let c' := configChannelInitEpg conf c now next
        c'.epgVersion = (c.epgVersion + 1) % 32 ∧ c'.epgNow = now ∧ c'.epgNext = next ∧
          c'.eitNow = (if now.isSome || next.isSome then
            some (builtTable conf.transportStreamId conf.networkId c' 0 now) else none) ∧
          c'.eitNext = if now.isSome || next.isSome then
            some (builtTable conf.transportStreamId conf.networkId c' 1 next) else none := by
  have same : (¬ epgChanged now c.epgNow ∧ ¬ epgChanged next c.epgNext) ↔
      now = c.epgNow ∧ next = c.epgNext := by
    simp only [Bool.not_eq_true, epgChanged_eq_false]
  rw [configChannelInitEpg]
  by_cases unchanged : now = c.epgNow ∧ next = c.epgNext
  · exact Or.inl ⟨unchanged, if_pos (same.mpr unchanged)⟩
  · rw [if_neg (mt same.mp unchanged)]
    exact Or.inr ⟨unchanged, rfl, rfl, rfl, rfl, rfl⟩

variable (dvb) in
private theorem pollChannel_cases (conf : EpgConf) (st : Poll) (c : EpgChannel) :
    pollChannel dvb conf st c = c ∧ pollEntries dvb conf st c = (c.epgNow, c.epgNext) ∨
      pollChannel dvb conf st c = channelFreeEpg c ∧ pollEntries dvb conf st c = (none, none) ∨
      ∃ now next, pollChannel dvb conf st c = configChannelInitEpg conf c now next ∧
        pollEntries dvb conf st c = (now, next) := by
  unfold pollChannel pollEntries
  rcases st with _ | ⟨mtime, ini⟩
  · exact Or.inr (Or.inl ⟨rfl, rfl⟩)
  · by_cases newer : mtime > conf.epgConfMtime
    · simp only [if_pos newer]
      cases ini with
      | none => exact Or.inr (Or.inl ⟨rfl, rfl⟩)
      | some ini => exact Or.inr (Or.inr ⟨_, _, rfl, rfl⟩)
    · simp only [if_neg newer]
      exact Or.inl ⟨trivial, trivial⟩

end poll

section invariant

variable {transportStreamId networkId : ℤ} {c : EpgChannel}
  {last : Option (EpgTable × EpgTable)}

private theorem Corresponds.carried_eq (h : Corresponds transportStreamId networkId c) :
    carried c = if c.epgNow.isSome || c.epgNext.isSome then
      some (builtTable transportStreamId networkId c 0 c.epgNow,
        builtTable transportStreamId networkId c 1 c.epgNext) else none := by
  have present := h.present
  have both := h.both
  rw [carried]
  cases now : c.eitNow with
  | none =>
      rw [now] at present
      rw [if_neg (by simp [← present])]
  | some a =>
      rw [now] at present both
      obtain ⟨b, next⟩ := Option.isSome_iff_exists.mp both
      rw [next, if_pos (by rw [← present]; rfl), h.now a now, h.next b next]

private theorem Corresponds.carried_eq_none (h : Corresponds transportStreamId networkId c) :
    carried c = none ↔ c.epgNow = none ∧ c.epgNext = none := by
  rw [h.carried_eq]
  cases c.epgNow <;> cases c.epgNext <;> simp

private theorem Corresponds.version_of_carried (h : Corresponds transportStreamId networkId c)
    {t : EpgTable × EpgTable} (is : carried c = some t) : t.1.version = c.epgVersion := by
  have built := h.carried_eq
  rw [is] at built
  split at built
  · rw [Option.some.inj built]
    rfl
  · cases built

private theorem Corresponds.load {conf : EpgConf}
    (h : Corresponds conf.transportStreamId conf.networkId c) (now next : Option EpgEntry) :
    Corresponds conf.transportStreamId conf.networkId (configChannelInitEpg conf c now next) := by
  rcases configChannelInitEpg_cases conf c now next with
    ⟨-, same⟩ | ⟨-, -, isNow, isNext, eitNow, eitNext⟩
  · rw [same]
    exact h
  · generalize configChannelInitEpg conf c now next = c' at isNow isNext eitNow eitNext ⊢
    refine ⟨?_, ?_, ?_, ?_⟩
    · rw [eitNow, isNow, isNext]
      split <;> simp_all
    · rw [eitNow, eitNext]
      split <;> rfl
    · intro t is
      rw [eitNow] at is
      split at is
      · rw [isNow, Option.some.inj is]
      · cases is
    · intro t is
      rw [eitNext] at is
      split at is
      · rw [isNext, Option.some.inj is]
      · cases is

private theorem Corresponds.free_eq_self (h : Corresponds transportStreamId networkId c)
    (now : c.epgNow = none) (next : c.epgNext = none) : channelFreeEpg c = c := by
  have present := h.present
  have both := h.both
  rw [now, next] at present
  rw [present] at both
  have eitNow := Option.not_isSome_iff_eq_none.mp (by rw [present]; simp)
  have eitNext := Option.not_isSome_iff_eq_none.mp (by rw [both]; simp)
  cases c
  simp_all [channelFreeEpg]

/-- What is known of a channel, and of the tables it carried last, between two polls. -/
structure Kept (transportStreamId networkId : ℤ) (c : EpgChannel)
    (last : Option (EpgTable × EpgTable)) : Prop where
  corresponds : Corresponds transportStreamId networkId c
  version_lt : c.epgVersion < 32
  carries : ∀ t, carried c = some t → last = some t
  since : carried c = none → ∀ t, last = some t → t.1.version < 32 ∧
    (c.epgVersion = t.1.version ∨ c.epgVersion = (t.1.version + 1) % 32)

private theorem Kept.behind (h : Kept transportStreamId networkId c last) {t : EpgTable × EpgTable}
    (was : last = some t) : t.1.version < 32 ∧
      (c.epgVersion = t.1.version ∨ c.epgVersion = (t.1.version + 1) % 32) := by
  cases now : carried c with
  | none => exact h.since now t was
  | some s =>
      obtain rfl : s = t := Option.some.inj ((h.carries s now).symm.trans was)
      rw [h.corresponds.version_of_carried now]
      exact ⟨h.version_lt, Or.inl rfl⟩

private theorem Kept.stay (h : Kept transportStreamId networkId c last) :
    Kept transportStreamId networkId c ((carried c).or last) := by
  have same : (carried c).or last = last := by
    cases now : carried c with
    | none => rfl
    | some t => rw [h.carries t now]; rfl
  rw [same]
  exact h

theorem Kept.free (h : Kept transportStreamId networkId c last) :
    Kept transportStreamId networkId (channelFreeEpg c)
      ((carried (channelFreeEpg c)).or last) := by
  have nothing : carried (channelFreeEpg c) = none := rfl
  refine ⟨⟨rfl, rfl, by rintro t ⟨⟩, by rintro t ⟨⟩⟩, h.version_lt, ?_, ?_⟩
  · rw [nothing]
    rintro t ⟨⟩
  · intro _ t was
    exact h.behind was

private theorem Kept.load {conf : EpgConf} (h : Kept conf.transportStreamId conf.networkId c last)
    (now next : Option EpgEntry) :
    Kept conf.transportStreamId conf.networkId (configChannelInitEpg conf c now next)
      ((carried (configChannelInitEpg conf c now next)).or last) := by
  have corresponds := h.corresponds.load now next
  rcases configChannelInitEpg_cases conf c now next with
    ⟨-, same⟩ | ⟨changed, version, isNow, isNext, -, -⟩
  · rw [same]
    exact h.stay
  · refine ⟨corresponds, version ▸ Nat.mod_lt _ (by norm_num), ?_, ?_⟩
    · intro t is
      rw [is]
      rfl
    · intro nothing t was
      rw [nothing, Option.none_or] at was
      -- without new entries there were old ones, and their tables were the last
      obtain ⟨noNow, noNext⟩ := corresponds.carried_eq_none.mp nothing
      have before : carried c ≠ none := by
        intro absent
        obtain ⟨oldNow, oldNext⟩ := h.corresponds.carried_eq_none.mp absent
        exact changed ⟨(isNow.symm.trans noNow).trans oldNow.symm,
          (isNext.symm.trans noNext).trans oldNext.symm⟩
      obtain ⟨s, carries⟩ := Option.ne_none_iff_exists'.mp before
      obtain rfl : s = t := Option.some.inj ((h.carries s carries).symm.trans was)
      rw [h.corresponds.version_of_carried carries]
      exact ⟨h.version_lt, Or.inr version⟩

private theorem Kept.version_ne {conf : EpgConf}
    (h : Kept conf.transportStreamId conf.networkId c last)
    (now next : Option EpgEntry) {t t' : EpgTable × EpgTable} (was : last = some t)
    (is : carried (configChannelInitEpg conf c now next) = some t')
    (differs : t'.1.event ≠ t.1.event ∨ t'.2.event ≠ t.2.event) :
    t'.1.version ≠ t.1.version := by
  rcases configChannelInitEpg_cases conf c now next with ⟨-, same⟩ | ⟨-, version, -⟩
  · rw [same] at is
    obtain rfl : t' = t := Option.some.inj ((h.carries t' is).symm.trans was)
    simp at differs
  · obtain ⟨small, behind⟩ := h.behind was
    have shown := (h.corresponds.load now next).version_of_carried is
    rw [version] at shown
    omega

end invariant

section run

variable (transportStreamId networkId : ℤ) (channels : List (String × ℤ))

private theorem kept_new (id : String) (serviceId : ℤ) :
    Kept transportStreamId networkId (EpgChannel.new id serviceId) none := by
  refine ⟨⟨rfl, rfl, by rintro t ⟨⟩, by rintro t ⟨⟩⟩, by norm_num [EpgChannel.new], ?_, ?_⟩
  · rintro t ⟨⟩
  · rintro - t ⟨⟩

private theorem kept_guideAfter (polls : List Poll) :
    (guideAfter dvb transportStreamId networkId channels polls).conf.transportStreamId =
        transportStreamId ∧
      (guideAfter dvb transportStreamId networkId channels polls).conf.networkId = networkId ∧
      ∀ i c, (guideAfter dvb transportStreamId networkId channels polls).conf.channels[i]? =
          some c → Kept transportStreamId networkId c
            ((guideAfter dvb transportStreamId networkId channels polls).last i) := by
  induction polls using List.reverseRecOn with
  | nil =>
      refine ⟨rfl, rfl, ?_⟩
      intro i c found
      rw [guideAfter, List.foldl_nil, Guide.start, List.getElem?_map] at found
      obtain ⟨ch, -, rfl⟩ := Option.map_eq_some_iff.mp found
      exact kept_new transportStreamId networkId ch.1 ch.2
  | append_singleton polls st ih =>
      obtain ⟨sameTs, sameNetwork, kept⟩ := ih
      have next : guideAfter dvb transportStreamId networkId channels (polls ++ [st]) =
          (guideAfter dvb transportStreamId networkId channels polls).poll dvb st := by
        simp [guideAfter]
      rw [next]
      generalize guideAfter dvb transportStreamId networkId channels polls = w at *
      obtain ⟨sameTs', sameNetwork', mapped⟩ := configLoadEpg_spec dvb w.conf st
      refine ⟨sameTs'.trans sameTs, sameNetwork'.trans sameNetwork, ?_⟩
      intro i c' found
      have found' : (configLoadEpg dvb w.conf st).2.channels[i]? = some c' := found
      have last : (w.poll dvb st).last i = (carried c').or (w.last i) := by
        simp [Guide.poll, found']
      rw [mapped, List.getElem?_map] at found'
      obtain ⟨c, before, rfl⟩ := Option.map_eq_some_iff.mp found'
      have one := kept i c before
      rw [last]
      subst sameTs sameNetwork
      rcases pollChannel_cases dvb w.conf st c with
        ⟨same, -⟩ | ⟨freed, -⟩ | ⟨now, next, loaded, -⟩
      · rw [same]
        exact one.stay
      · rw [freed]
        exact one.free
      · rw [loaded]
        exact one.load now next

/-- After any history of polls, on every channel: the tables are those of its entries, with its
version; the next poll gives it the entries that were found, and when these are the current ones
changes nothing; and if it then carries tables with other events than the last it carried, however
long ago, these have another version. -/
theorem guide_consistent (dvb : DvbStrings) (transportStreamId networkId : ℤ)
    (channels : List (String × ℤ)) (polls : List Poll) (i : ℕ) (c : EpgChannel)
    (found : (guideAfter dvb transportStreamId networkId channels polls).conf.channels[i]? =
      some c) :
    Corresponds transportStreamId networkId c ∧
      ∀ st, ∃ c',
        (guideAfter dvb transportStreamId networkId channels (polls ++ [st])).conf.channels[i]? =
            some c' ∧
          (c'.epgNow, c'.epgNext) = pollEntries dvb
            (guideAfter dvb transportStreamId networkId channels polls).conf st c ∧
          (pollEntries dvb (guideAfter dvb transportStreamId networkId channels polls).conf st c =
            (c.epgNow, c.epgNext) → c' = c) ∧
          ∀ t t', (guideAfter dvb transportStreamId networkId channels polls).last i = some t →
            carried c' = some t' → (t'.1.event ≠ t.1.event ∨ t'.2.event ≠ t.2.event) →
            t'.1.version ≠ t.1.version := by
  obtain ⟨sameTs, sameNetwork, kept⟩ :=
    kept_guideAfter dvb transportStreamId networkId channels polls
  have one := kept i c found
  refine ⟨one.corresponds, fun st => ?_⟩
  have next : guideAfter dvb transportStreamId networkId channels (polls ++ [st]) =
      (guideAfter dvb transportStreamId networkId channels polls).poll dvb st := by
    simp [guideAfter]
  rw [next]
  generalize guideAfter dvb transportStreamId networkId channels polls = w at *
  obtain ⟨-, -, mapped⟩ := configLoadEpg_spec dvb w.conf st
  subst sameTs sameNetwork
  refine ⟨pollChannel dvb w.conf st c, ?_, ?_⟩
  · show (configLoadEpg dvb w.conf st).2.channels[i]? = _
    rw [mapped, List.getElem?_map, found]
    rfl
  · rcases pollChannel_cases dvb w.conf st c with
      ⟨same, entries⟩ | ⟨freed, entries⟩ | ⟨now, next, loaded, entries⟩
    · rw [same, entries]
      refine ⟨rfl, fun _ => rfl, ?_⟩
      intro t t' was is differs
      obtain rfl : t' = t := Option.some.inj ((one.carries t' is).symm.trans was)
      simp at differs
    · rw [freed, entries]
      refine ⟨rfl, ?_, ?_⟩
      · intro same
        exact one.corresponds.free_eq_self (congrArg Prod.fst same).symm
          (congrArg Prod.snd same).symm
      · rintro t t' - ⟨⟩
    · rw [loaded, entries]
      obtain ⟨-, isNow, isNext⟩ := configChannelInitEpg_spec w.conf c now next
      refine ⟨Prod.ext isNow isNext, ?_, fun t t' was is differs =>
        one.version_ne now next was is differs⟩
      intro same
      rcases configChannelInitEpg_cases w.conf c now next with ⟨-, stays⟩ | ⟨changed, -⟩
      · exact stays
      · exact absurd ⟨congrArg Prod.fst same, congrArg Prod.snd same⟩ changed

/-- An event, no file, and another event. -/
def newsThenFilm : List Poll := [some (1, some (Reload.eventFile "News")), none]

theorem guide_consistent_film :
    ∃ c', (guideAfter ⟨id, id⟩ 1 1 [("tv", 101)]
        (newsThenFilm ++ [some (2, some (Reload.eventFile "Film"))])).conf.channels[0]? = some c' ∧
      ∀ t t', (guideAfter ⟨id, id⟩ 1 1 [("tv", 101)] newsThenFilm).last 0 = some t →
        carried c' = some t' → (t'.1.event ≠ t.1.event ∨ t'.2.event ≠ t.2.event) →
        t'.1.version ≠ t.1.version := by
  obtain ⟨c, found⟩ := Option.isSome_iff_exists.mp
    (show ((guideAfter ⟨id, id⟩ 1 1 [("tv", 101)] newsThenFilm).conf.channels[0]?).isSome = true by
      decide +kernel)
  obtain ⟨-, polls⟩ := guide_consistent ⟨id, id⟩ 1 1 [("tv", 101)] newsThenFilm 0 c found
  obtain ⟨c', after, -, -, differs⟩ := polls (some (2, some (Reload.eventFile "Film")))
  exact ⟨c', after, differs⟩

example : ((guideAfter ⟨id, id⟩ 1 1 [("tv", 101)]
    (newsThenFilm ++ [some (2, some (Reload.eventFile "Film"))])).last 0).map
      (fun t => t.1.version) = some 2 := by decide +kernel

end run

end Mptsd.Epg.Versions
