/- Unit: Mptsd/Epg/Reload
   source: src/config.c (config_load_epg), src/output_psi.c (output_add_eit)
   digest: When the channels carry the entries the file holds, over any history of writes and
   polls. -/

import Mathlib.Data.List.Induction
import Mptsd.Epg.Model

set_option autoImplicit false
set_option relaxedAutoImplicit false

namespace Mptsd.Epg.Reload

open Mptsd.Ini
open Mptsd.Lib.Stamped
open Mptsd.Epg.Model

/-- The two entries of a channel. -/
abbrev Entries := Option EpgEntry × Option EpgEntry

variable (dvb : DvbStrings)

/-- The entries a file holds for channels with these ids. -/
def entries (ids : List String) (ini : Values) : List Entries :=
  ids.map fun id => (configLoadEpgEntry dvb ini "now" id, configLoadEpgEntry dvb ini "next" id)

def ids (w : World) : List String := w.conf.channels.map EpgChannel.id

/-- The program as a reader of a stamped file: it holds the entries of its channels. -/
def cache (w : World) : Cache Values (List Entries) where
  clock := w.clock
  stamp := w.mtime
  content := w.content
  seen := w.conf.epgConfMtime
  view := w.conf.channels.map fun c => (c.epgNow, c.epgNext)

/-- Every channel carries the entries the file holds for it. -/
def Current (w : World) : Prop :=
  ∀ c ∈ w.conf.channels, c.epgNow = configLoadEpgEntry dvb w.content "now" c.id ∧
    c.epgNext = configLoadEpgEntry dvb w.content "next" c.id

private theorem current_iff_view (w : World) :
    Current dvb w ↔ (cache w).view = entries dvb (ids w) w.content := by
  rw [Current, cache, entries, ids]
  rw [List.map_map, List.map_inj_left]
  simp only [Function.comp_apply, Prod.mk.injEq]

private theorem worldStep_cache (w : World) (e : Event Values) :
    ids (worldStep dvb w e) = ids w ∧
      cache (worldStep dvb w e) = (cache w).step (entries dvb (ids w)) e := by
  cases e with
  | tick n => exact ⟨rfl, rfl⟩
  | write content => exact ⟨rfl, rfl⟩
  | poll =>
      rw [worldStep, configLoadEpg, Cache.step]
      by_cases newer : w.mtime > w.conf.epgConfMtime
      · have loads : (cache w).seen < (cache w).stamp := newer
        simp only [if_pos newer, if_pos loads]
        refine ⟨?_, ?_⟩
        · rw [ids]
          rw [List.map_map]
          apply List.map_congr_left
          intro c _
          exact (configChannelInitEpg_spec _ c _ _).1
        · rw [cache]
          dsimp only
          congr 1
          rw [List.map_map, entries, ids, List.map_map]
          apply List.map_congr_left
          intro c _
          obtain ⟨-, now, next⟩ := configChannelInitEpg_spec
            { w.conf with epgConfMtime := w.mtime } c
            (configLoadEpgEntry dvb w.content "now" c.id)
            (configLoadEpgEntry dvb w.content "next" c.id)
          exact Prod.ext now next
      · have keeps : ¬ (cache w).seen < (cache w).stamp := newer
        dsimp only
        rw [if_neg newer, if_neg keeps]
        exact ⟨rfl, rfl⟩

section run

variable (transportStreamId networkId : ℤ) (channels : List (String × ℤ))

private theorem cache_after (events : List (Event Values)) :
    ids (worldAfter dvb transportStreamId networkId channels events) = channels.map Prod.fst ∧
      cache (worldAfter dvb transportStreamId networkId channels events) =
        events.foldl (Cache.step (entries dvb (channels.map Prod.fst)))
          (cache (World.start transportStreamId networkId channels)) := by
  induction events using List.reverseRecOn with
  | nil =>
      refine ⟨?_, rfl⟩
      simp [worldAfter, World.start, ids, EpgChannel.new, Function.comp_def]
  | append_singleton events e ih =>
      obtain ⟨names, same⟩ := ih
      obtain ⟨names', same'⟩ :=
        worldStep_cache dvb (worldAfter dvb transportStreamId networkId channels events) e
      rw [worldAfter, List.foldl_append, List.foldl_append]
      refine ⟨names'.trans names, ?_⟩
      rw [← same, ← names]
      exact same'

/-- The history of the file, which begins with nothing, as if it had been looked at then. -/
def history (events : List (Event Values)) : History Values :=
  events.foldl History.step ⟨0, 0, fun _ => none, some fun _ => none⟩

private theorem configLoadEpgEntry_empty (entry channel : String) :
    configLoadEpgEntry dvb (fun _ => none) entry channel = none := by
  simp [configLoadEpgEntry, iniGetInt]

private theorem follows_start :
    Follows (entries dvb (channels.map Prod.fst)) (history [])
      (cache (World.start transportStreamId networkId channels)) := by
  refine ⟨rfl, rfl, rfl, le_rfl, ?_, ?_⟩
  · intro unpolled
    cases unpolled
  · rintro ini polled
    obtain rfl := Option.some.inj polled
    refine ⟨rfl, ?_⟩
    simp [cache, World.start, entries, EpgChannel.new, configLoadEpgEntry_empty,
      Function.comp_def]

/-- After a poll, every channel carries the entries of the file exactly when the file had not been
polled since its time last grew, or held the same entries at the first such poll. -/
theorem current_after_poll_iff (dvb : DvbStrings) (transportStreamId networkId : ℤ)
    (channels : List (String × ℤ)) (events : List (Event Values)) :
    Current dvb (worldAfter dvb transportStreamId networkId channels (events ++ [.poll])) ↔
      ∀ ini, (history events).polled = some ini → ∀ c ∈ channels,
        configLoadEpgEntry dvb ini "now" c.1 =
            configLoadEpgEntry dvb (history events).content "now" c.1 ∧
          configLoadEpgEntry dvb ini "next" c.1 =
            configLoadEpgEntry dvb (history events).content "next" c.1 := by
  obtain ⟨names, same⟩ := cache_after dvb transportStreamId networkId channels events
  have follows := (follows_start dvb transportStreamId networkId channels).run events
  rw [← same] at follows
  have content : (worldAfter dvb transportStreamId networkId channels events).content =
      (history events).content := follows.content
  have kept : (worldStep dvb (worldAfter dvb transportStreamId networkId channels events)
      .poll).content = (history events).content := content
  have last : worldAfter dvb transportStreamId networkId channels (events ++ [.poll]) =
      worldStep dvb (worldAfter dvb transportStreamId networkId channels events) .poll := by
    rw [worldAfter, List.foldl_append]
    rfl
  obtain ⟨names', same'⟩ :=
    worldStep_cache dvb (worldAfter dvb transportStreamId networkId channels events) .poll
  rw [last, current_iff_view, names', same', names, kept]
  refine follows.current_iff.trans (forall₂_congr fun ini _ => ?_)
  unfold entries
  rw [List.map_map, List.map_map, List.map_inj_left]
  simp only [Function.comp_apply, Prod.mk.injEq]
  rfl

/-- A file that gives the channel `tv` an event with this name. -/
def eventFile (event : String) : Values := fun key =>
  if key = "tv-now:start" then some "1271055600"
  else if key = "tv-now:duration" then some "3600"
  else if key = "tv-now:event" then some event
  else none

/-- The file is written, polled, written again in the same second, and polled a day later. -/
theorem same_second_lost :
    ¬ Current ⟨id, id⟩ (worldAfter ⟨id, id⟩ 1 1 [("tv", 101)]
      [.tick 1271055600, .write (eventFile "News"), .poll, .write (eventFile "Film"),
        .tick 86400, .poll]) := by
  rw [Current]
  decide +kernel

end run

end Mptsd.Epg.Reload
