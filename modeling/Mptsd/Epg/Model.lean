/- Unit: Mptsd/Epg/Model
   source: src/config.c (config_reset_channels_epg, config_load_epg_entry, config_channel_init_epg,
   config_load_epg), src/data.c (epg_new, epg_changed, channel_free_epg)
   digest: The programme guide: what a poll of its file does to the channels. -/

import Mptsd.Ini
import Mptsd.Lib.Stamped

set_option autoImplicit false
set_option relaxedAutoImplicit false

namespace Mptsd.Epg.Model

open Mptsd.Ini
open Mptsd.Lib.Stamped (Event)

/-- The functions of the TS library that encode a text. -/
structure DvbStrings where
  utf8 : Option String → Option String
  iso88595 : Option String → Option String

/-- `EPG_ENTRY`. -/
structure EpgEntry where
  eventId : ℕ
  start : ℤ
  duration : ℤ
  event : Option String
  shortDesc : Option String
  longDesc : Option String
  deriving DecidableEq

/-- What an EIT is made of: the section, its version, and the event its descriptors tell of. -/
structure EpgTable where
  serviceId : ℤ
  transportStreamId : ℤ
  networkId : ℤ
  sectionNumber : ℕ
  version : ℕ
  event : Option EpgEntry

/-- The part of `CHANNEL` the guide is about. -/
structure EpgChannel where
  id : String
  serviceId : ℤ
  epgVersion : ℕ
  epgNow : Option EpgEntry
  epgNext : Option EpgEntry
  eitNow : Option EpgTable
  eitNext : Option EpgTable

/-- A channel as `channel_new` leaves it. -/
def EpgChannel.new (id : String) (serviceId : ℤ) : EpgChannel where
  id
  serviceId
  epgVersion := 0
  epgNow := none
  epgNext := none
  eitNow := none
  eitNext := none

/-- The part of `CONFIG` the guide is about. -/
structure EpgConf where
  transportStreamId : ℤ
  networkId : ℤ
  epgConfMtime : ℕ
  channels : List EpgChannel

variable (dvb : DvbStrings)

def epgNew (start duration : ℤ) (encoding event shortDesc longDesc : Option String) :
    Option EpgEntry :=
  match event with
  | none => none
  | some _ =>
      let encode := if encoding = some "iso-8859-5" then dvb.iso88595 else dvb.utf8
      some
        { eventId := ((start.tdiv 60) % 2 ^ 16).toNat
          start
          duration
          event := encode event
          shortDesc := encode shortDesc
          longDesc := encode longDesc }

/-- True when they are different. -/
def epgChanged : Option EpgEntry → Option EpgEntry → Bool
  | none, some _ => true
  | some _, none => true
  | none, none => false
  | some a, some b =>
      a.eventId ≠ b.eventId || a.start ≠ b.start || a.duration ≠ b.duration ||
        a.event ≠ b.event || a.shortDesc ≠ b.shortDesc || a.longDesc ≠ b.longDesc

def channelFreeEpg (c : EpgChannel) : EpgChannel :=
  { c with
    epgNow := none
    epgNext := none
    eitNow := none
    eitNext := none }

def configResetChannelsEpg (conf : EpgConf) : EpgConf :=
  { conf with
    channels := conf.channels.map channelFreeEpg
    epgConfMtime := 0 }

def configLoadEpgEntry (ini : Values) (entry channel : String) : Option EpgEntry :=
  let key := channel ++ "-" ++ entry
  let start := iniGetInt ini 0 (key ++ ":start")
  let duration := iniGetInt ini 0 (key ++ ":duration")
  let event := iniGetString ini none (key ++ ":event")
  let sdesc := iniGetString ini none (key ++ ":sdescr")
  let ldesc := iniGetString ini none (key ++ ":descr")
  let enc := iniGetString ini none (key ++ ":encoding")
  if start ≠ 0 ∧ duration ≠ 0 ∧ event.isSome then epgNew dvb start duration enc event sdesc ldesc
  else none

/-- The version counts modulo 32, the width of its field. -/
def configChannelInitEpg (conf : EpgConf) (c : EpgChannel) (now next : Option EpgEntry) :
    EpgChannel :=
  if ¬ epgChanged now c.epgNow ∧ ¬ epgChanged next c.epgNext then c
  else
    let epgVersion := (c.epgVersion + 1) % 32
    let table (sectionNumber : ℕ) (event : Option EpgEntry) : EpgTable :=
      { serviceId := c.serviceId
        transportStreamId := conf.transportStreamId
        networkId := conf.networkId
        sectionNumber
        version := epgVersion
        event }
    let present := now.isSome || next.isSome
    { channelFreeEpg c with
      epgVersion
      epgNow := now
      epgNext := next
      eitNow := if present then some (table 0 now) else none
      eitNext := if present then some (table 1 next) else none }

/-- `st` is what `stat` says: nothing, or the time of the last change with what the file holds,
`none` when it can't be parsed. -/
def configLoadEpg (conf : EpgConf) (st : Option (ℕ × Option Values)) : ℤ × EpgConf :=
  match st with
  | none => (0, configResetChannelsEpg conf)
  | some (mtime, ini) =>
      if mtime > conf.epgConfMtime then
        let conf := { conf with epgConfMtime := mtime }
        match ini with
        | none => (0, configResetChannelsEpg conf)
        | some ini =>
            (1, { conf with
              channels := conf.channels.map fun c =>
                configChannelInitEpg conf c (configLoadEpgEntry dvb ini "now" c.id)
                  (configLoadEpgEntry dvb ini "next" c.id) })
      else (0, conf)

/-- The program beside its file: the clock in whole seconds, and the time of the last write. -/
structure World where
  clock : ℕ
  mtime : ℕ
  content : Values
  conf : EpgConf

def worldStep (w : World) : Event Values → World
  | .tick n => { w with clock := w.clock + n }
  | .write content => { w with content, mtime := w.clock }
  | .poll => { w with conf := (configLoadEpg dvb w.conf (some (w.mtime, some w.content))).2 }

/-- An empty file that was never written, and a program that has not looked at it. -/
def World.start (transportStreamId networkId : ℤ) (channels : List (String × ℤ)) : World where
  clock := 0
  mtime := 0
  content := fun _ => none
  conf :=
    { transportStreamId
      networkId
      epgConfMtime := 0
      channels := channels.map fun c => EpgChannel.new c.1 c.2 }

def worldAfter (transportStreamId networkId : ℤ) (channels : List (String × ℤ))
    (events : List (Event Values)) : World :=
  events.foldl (worldStep dvb) (World.start transportStreamId networkId channels)

theorem epgChanged_eq_false {a b : Option EpgEntry} : epgChanged a b = false ↔ a = b := by
  rcases a with _ | a <;> rcases b with _ | b
  · simp [epgChanged]
  · simp [epgChanged]
  · simp [epgChanged]
  · obtain ⟨eventId, start, duration, event, shortDesc, longDesc⟩ := a
    obtain ⟨eventId', start', duration', event', shortDesc', longDesc'⟩ := b
    simp [epgChanged, and_assoc]

theorem configChannelInitEpg_spec (conf : EpgConf) (c : EpgChannel)
    (now next : Option EpgEntry) :
    (configChannelInitEpg conf c now next).id = c.id ∧
      (configChannelInitEpg conf c now next).epgNow = now ∧
      (configChannelInitEpg conf c now next).epgNext = next := by
  rw [configChannelInitEpg]
  split_ifs with same
  · simp only [Bool.not_eq_true, epgChanged_eq_false] at same
    exact ⟨rfl, same.1.symm, same.2.symm⟩
  · exact ⟨rfl, rfl, rfl⟩

end Mptsd.Epg.Model
